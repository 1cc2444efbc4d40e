/-! Query systems: the outside world that resolves the queries of a program. A request is
submitted once and polled until it is complete, or withdrawn. -/

namespace BehaviorTree

/-- Identity of a lane, which stays the same when lanes change their places. -/
abbrev LaneId := Nat

structure QueryRequest where
  query : UInt16
  lane : LaneId
  deriving DecidableEq, Repr, Inhabited

inductive QueryStatus where
  | pending
  /-- The number of results found. -/
  | complete (count : UInt32)
  deriving DecidableEq, Repr

class QuerySystem (σ : Type) where
  submit : σ → QueryRequest → σ
  poll : σ → QueryRequest → QueryStatus × σ
  /-- The submitting lane went away before the query was complete. -/
  cancel : σ → QueryRequest → σ

/-- A mailbox between agents and whoever answers their queries. -/
structure QueryBoard where
  pending : List QueryRequest
  done : List (QueryRequest × UInt32)
  deriving DecidableEq, Repr, Inhabited

namespace QueryBoard

def empty : QueryBoard := ⟨[], []⟩

/-- Puts the last element in place of the one at `index`. -/
def swapRemove {α : Type} (xs : List α) (index : Nat) : List α :=
  match xs.getLast? with
  | none => []
  | some last => (xs.set index last).dropLast

def submit (board : QueryBoard) (request : QueryRequest) : QueryBoard :=
  { board with pending := board.pending ++ [request] }

/-- The results of a completed request. -/
def result? (board : QueryBoard) (request : QueryRequest) : Option UInt32 :=
  board.done.lookup request

/-- Forgets the results of a request. -/
def forget (board : QueryBoard) (request : QueryRequest) : QueryBoard :=
  { board with done := board.done.filter (·.1 ≠ request) }

/-- Resolves a pending request; any other is ignored. -/
def complete (board : QueryBoard) (request : QueryRequest) (count : UInt32) : QueryBoard :=
  match board.pending.findIdx? (· = request) with
  | none => board
  | some index =>
    { pending := swapRemove board.pending index
      done := (request, count) :: (board.forget request).done }

/-- Resolves all pending requests, in the order in which they are listed. -/
def completeAll (board : QueryBoard) (count : UInt32) : QueryBoard :=
  board.pending.foldl (fun board request => board.complete request count) board

/-- Delivers the results of a request once. -/
def poll (board : QueryBoard) (request : QueryRequest) : QueryStatus × QueryBoard :=
  match board.result? request with
  | some count => (.complete count, board.forget request)
  | none => (.pending, board)

def cancel (board : QueryBoard) (request : QueryRequest) : QueryBoard :=
  let board := board.forget request
  { board with pending := board.pending.filter (· ≠ request) }

instance : QuerySystem QueryBoard := ⟨submit, poll, cancel⟩

end QueryBoard

/-- Answers every query with the same count after a number of polls. -/
structure Countdown where
  delay : Nat
  count : UInt32
  left : Nat
  deriving DecidableEq, Repr, Inhabited

namespace Countdown

def submit (c : Countdown) (_ : QueryRequest) : Countdown :=
  { c with left := c.delay }

def poll (c : Countdown) (_ : QueryRequest) : QueryStatus × Countdown :=
  match c.left with
  | 0 => (.complete c.count, c)
  | left + 1 => (.pending, { c with left := left })

instance : QuerySystem Countdown := ⟨submit, poll, fun c _ => c⟩

end Countdown

/-- Either of two query systems. -/
instance {α β : Type} [QuerySystem α] [QuerySystem β] : QuerySystem (α ⊕ β) where
  submit
    | .inl a, request => .inl (QuerySystem.submit a request)
    | .inr b, request => .inr (QuerySystem.submit b request)
  poll
    | .inl a, request => (QuerySystem.poll a request).map id .inl
    | .inr b, request => (QuerySystem.poll b request).map id .inr
  cancel
    | .inl a, request => .inl (QuerySystem.cancel a request)
    | .inr b, request => .inr (QuerySystem.cancel b request)

end BehaviorTree
