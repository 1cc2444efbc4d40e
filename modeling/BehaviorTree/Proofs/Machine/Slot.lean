import Mathlib.Logic.Relation
import BehaviorTree.Proofs.Machine.Runs
import BehaviorTree.Proofs.Machine.Threads

/-! The slot for queries. An agent and a mailbox to which only this agent writes agree on the query in flight,
whatever workers resolve meanwhile: the request of the slot is the only one of the mailbox, and the lane that asked
it waits for it. -/

namespace BehaviorTree

open Refusal

namespace QueryBoard

/-- The requests of a mailbox, resolved or not. -/
def requests (board : QueryBoard) : List QueryRequest :=
  board.pending ++ board.done.map (·.1)

/-- Workers resolve requests, of which the mailbox may know nothing. -/
def resolve (board : QueryBoard) (results : List (QueryRequest × UInt32)) : QueryBoard :=
  results.foldl (fun board (request, count) => board.complete request count) board

/-- A query system behind which there is a mailbox. Whenever the agent turns to it, workers may have resolved
requests meanwhile. -/
structure Behind (σ : Type) [QuerySystem σ] where
  board : σ → QueryBoard
  work : σ → List (QueryRequest × UInt32)
  submit : ∀ s request, board (QuerySystem.submit s request) = ((board s).resolve (work s)).submit request
  poll : ∀ s request, (QuerySystem.poll s request).map id board = ((board s).resolve (work s)).poll request
  cancel : ∀ s request, board (QuerySystem.cancel s request) = ((board s).resolve (work s)).cancel request

/-- The mailbox after the work that comes next. -/
def Behind.resolved {σ : Type} [QuerySystem σ] (m : Behind σ) (s : σ) : QueryBoard :=
  (m.board s).resolve (m.work s)

/-- The mailbox itself, on which nobody works while the agent makes a step. -/
def alone : Behind QueryBoard :=
  ⟨id, fun _ => [], fun _ _ => rfl, fun _ _ => rfl, fun _ _ => rfl⟩

/-- A mailbox with what workers resolve before each of the agent's operations on it. -/
structure Attended where
  board : QueryBoard
  work : List (List (QueryRequest × UInt32))

/-- The mailbox after the work that comes next. -/
def Attended.next (s : Attended) : QueryBoard :=
  s.board.resolve (s.work.headD [])

instance : QuerySystem Attended where
  submit s request := ⟨s.next.submit request, s.work.tail⟩
  poll s request := (s.next.poll request).map id fun board => ⟨board, s.work.tail⟩
  cancel s request := ⟨s.next.cancel request, s.work.tail⟩

/-- Whatever workers resolve between any two operations of the agent. -/
def attended : Behind Attended :=
  ⟨Attended.board, fun s => s.work.headD [], fun _ _ => rfl, fun _ _ => rfl, fun _ _ => rfl⟩

/-- Nothing is in the mailbox but the request of the slot. -/
inductive Holds : Option QueryRequest → QueryBoard → Prop
  | free : Holds none ⟨[], []⟩
  | pending (request : QueryRequest) : Holds (some request) ⟨[request], []⟩
  | done (request : QueryRequest) (count : UInt32) : Holds (some request) ⟨[], [(request, count)]⟩

namespace Holds

variable {holder : Option QueryRequest} {board : QueryBoard}

theorem requests (holds : Holds holder board) : board.requests = holder.toList := by
  cases holds <;> rfl

/-- Workers change nothing but the state of the request of the slot. -/
theorem complete (holds : Holds holder board) (request : QueryRequest) (count : UInt32) :
    Holds holder (board.complete request count) := by
  cases holds with
  | free => exact .free
  | done other count' => exact .done other count'
  | pending other =>
    by_cases h : other = request
    · subst h
      simpa [QueryBoard.complete, swapRemove, forget] using Holds.done other count
    · simpa [QueryBoard.complete, h] using Holds.pending other

theorem resolve (holds : Holds holder board) (results : List (QueryRequest × UInt32)) :
    Holds holder (board.resolve results) := by
  induction results generalizing board with
  | nil => exact holds
  | cons result results ih => exact ih (holds.complete result.1 result.2)

theorem submit (holds : Holds none board) (request : QueryRequest) : Holds (some request) (board.submit request) := by
  cases holds
  exact .pending request

theorem cancel {request : QueryRequest} (holds : Holds (some request) board) : Holds none (board.cancel request) := by
  cases holds <;> simpa [QueryBoard.cancel, forget] using Holds.free

/-- Results are delivered once. -/
theorem poll {request : QueryRequest} (holds : Holds (some request) board) :
    board.poll request = (.pending, board) ∨
      ∃ count, board.result? request = some count ∧ board.poll request = (.complete count, .empty) := by
  cases holds with
  | pending => exact .inl rfl
  | done _ count => exact .inr ⟨count, by simp [result?], by simp [QueryBoard.poll, result?, forget, empty]⟩

/-- A poll leaves the request in the mailbox or empties it. -/
theorem poll_behind {σ : Type} [QuerySystem σ] {m : Behind σ} {s s' : σ} {request : QueryRequest} {status : QueryStatus}
    (holds : Holds (some request) (m.board s)) (h : QuerySystem.poll s request = (status, s')) :
    status = .pending ∧ Holds (some request) (m.board s') ∨
      ∃ count, status = .complete count ∧ (m.resolved s).result? request = some count ∧ Holds none (m.board s') := by
  have resolved : Holds (some request) (m.resolved s) := holds.resolve _
  have hpoll := m.poll s request
  rw [h] at hpoll
  obtain hpending | ⟨count, hresult, hcomplete⟩ := resolved.poll
  · obtain ⟨rfl, hboard⟩ := Prod.mk.inj (hpoll.trans hpending)
    exact .inl ⟨rfl, hboard.symm ▸ resolved⟩
  · obtain ⟨rfl, hboard⟩ := Prod.mk.inj (hpoll.trans hcomplete)
    exact .inr ⟨count, rfl, hresult, hboard.symm ▸ .free⟩

/-- What is resolved for any other request is lost. -/
theorem complete_other (holds : Holds holder board) {request : QueryRequest} (h : holder ≠ some request)
    (count : UInt32) : board.complete request count = board ∧ (board.poll request).1 = .pending := by
  cases holds with
  | free => exact ⟨rfl, rfl⟩
  | pending other =>
    have hother : other ≠ request := fun heq => h (congrArg some heq)
    exact ⟨by simp [QueryBoard.complete, hother], rfl⟩
  | done other count' =>
    have hother : (request == other) = false := beq_false_of_ne fun heq => h (congrArg some heq.symm)
    exact ⟨rfl, by simp [QueryBoard.poll, result?, List.lookup, hother]⟩

end Holds

end QueryBoard

/-- A lane that waits for a query on top of it. -/
def Kin.Asks (p : Program) (request : QueryRequest) (k : Kin) : Prop :=
  k.id = request.lane ∧ ∃ frame result, k.frames.getLast? = some frame ∧
    p.node? frame.node = some (.query request.query result)

namespace Roster

open QueryBoard

variable {σ : Type} [QuerySystem σ] {m : Behind σ} {p : Program} {index : Nat} {r r' : Roster σ}

/-- The mailbox holds the request of the slot, and the lane that asked it waits for it. -/
structure Served (p : Program) (m : Behind σ) (r : Roster σ) : Prop where
  orderly : r.Orderly
  board : Holds r.holder (m.board r.queries)
  asked : ∀ request, r.holder = some request → ∃ k ∈ r.lanes, k.Asks p request

/-- The same, if it is another lane than the given one that waits. -/
structure Apart (p : Program) (m : Behind σ) (index : Nat) (r : Roster σ) : Prop where
  orderly : r.Orderly
  board : Holds r.holder (m.board r.queries)
  asked : ∀ request, r.holder = some request → ∃ k ∈ r.lanes, r.lanes[index]? ≠ some k ∧ k.Asks p request

/-- A request that is no longer in the slot was resolved, or its lane is gone. -/
def Frees (m : Behind σ) (r r' : Roster σ) : Prop :=
  ∀ request, r.holder = some request → r'.holder = some request ∨
    r'.holder = none ∧ ((m.resolved r.queries).result? request ≠ none ∨ ∀ k ∈ r'.lanes, k.id ≠ request.lane)

/-- What is done between two of the agent's operations is left out of the roster. -/
theorem Served.same {σ' : Type} [QuerySystem σ'] {m' : Behind σ'} {r' : Roster σ'} (served : r.Served p m)
    (hlanes : r'.lanes = r.lanes) (hholder : r'.holder = r.holder) (hnext : r'.next = r.next)
    (hboard : m'.board r'.queries = m.board r.queries) : r'.Served p m' where
  orderly := served.orderly.same hlanes hnext
  board := hholder ▸ hboard ▸ served.board
  asked := hlanes ▸ hholder ▸ served.asked

/-- Without lanes nothing is asked. -/
theorem Served.begin (served : r.Served p m) (hempty : r.lanes = []) : r.begin.Served p m where
  orderly := .begin _
  board := served.board
  asked request h := by
    obtain ⟨k, hk, -⟩ := served.asked request h
    simp [hempty] at hk

theorem Apart.served (apart : r.Apart p m index) : r.Served p m where
  orderly := apart.orderly
  board := apart.board
  asked request h := by
    obtain ⟨k, hk, -, asks⟩ := apart.asked request h
    exact ⟨k, hk, asks⟩

/-- A lane that has something else on top does not wait for a query. -/
theorem Served.apart (served : r.Served p m) {k : Kin} {frame : Frame} {node : Node} (top : r.Top p index k frame node)
    (hnode : node.kind ≠ .query) : r.Apart p m index where
  orderly := served.orderly
  board := served.board
  asked request h := by
    obtain ⟨k', hk', asks⟩ := served.asked request h
    refine ⟨k', hk', fun hself => hnode ?_, asks⟩
    obtain rfl := Option.some.inj (hself.symm.trans top.lane)
    obtain ⟨-, frame', result, hlast, hquery⟩ := asks
    obtain rfl := Option.some.inj (hlast.symm.trans top.last)
    rw [Option.some.inj (top.known.symm.trans hquery)]
    rfl

/-- What a lane does with its own frames does not matter to a query of another one. -/
theorem Apart.onLane (apart : r.Apart p m index) {f : Kin → Kin} (hsame : ∀ c, Kin.Same c (f c)) :
    (r.onLane index f).Apart p m index where
  orderly := apart.orderly.onLane index hsame
  board := apart.board
  asked request h := by
    obtain ⟨k, hk, hother, asks⟩ := apart.asked request h
    obtain ⟨i, hi⟩ := List.mem_iff_getElem?.mp hk
    have hne : index ≠ i := fun heq => hother (heq ▸ hi)
    have hi' : (r.onLane index f).lanes[i]? = some k := by
      simp [Roster.onLane, hne, hi]
    refine ⟨k, List.mem_of_getElem? hi', fun hself => ?_, asks⟩
    exact hne ((apart.orderly.onLane index hsame).place_inj hself hi')

theorem Apart.pop (apart : r.Apart p m index) : (r.onLane index Kin.pop).Apart p m index :=
  apart.onLane fun _ => ⟨rfl, rfl⟩

/-- The query of a lane that goes is withdrawn. -/
theorem holds_withdraw (board : Holds r.holder (m.board r.queries)) (gone : LaneId → Prop) [DecidablePred gone] :
    Holds (r.withdraw gone).holder (m.board (r.withdraw gone).queries) := by
  unfold withdraw
  split
  next request hholder =>
    split_ifs
    · show Holds none (m.board (QuerySystem.cancel r.queries request))
      rw [m.cancel]
      exact ((hholder ▸ board).resolve _).cancel
    · exact board
  next => exact board

theorem withdraw_holder {gone : LaneId → Prop} [DecidablePred gone] {request : QueryRequest}
    (h : r.holder = some request) :
    (r.withdraw gone).holder = some request ∧ ¬ gone request.lane ∨
      (r.withdraw gone).holder = none ∧ gone request.lane := by
  unfold withdraw
  rw [h]
  dsimp only
  split_ifs with hgone
  · exact .inr ⟨rfl, hgone⟩
  · exact .inl ⟨h, hgone⟩

theorem withdraw_holder_of_none {gone : LaneId → Prop} [DecidablePred gone] (h : r.holder = none) :
    (r.withdraw gone).holder = none := by
  unfold withdraw
  rw [h]
  exact h

theorem remove_holder (gone : List LaneId) {request : QueryRequest} (h : r.holder = some request) :
    (r.remove gone).holder = some request ∧ request.lane ∉ gone ∨
      (r.remove gone).holder = none ∧ request.lane ∈ gone := by
  unfold remove
  exact withdraw_holder h

theorem remove_holder_of_none {gone : List LaneId} (h : r.holder = none) : (r.remove gone).holder = none := by
  unfold remove
  exact withdraw_holder_of_none h

theorem Apart.remove (apart : r.Apart p m index) {k : Kin} {gone : List LaneId} (hk : r.lanes[index]? = some k)
    (hkept : (r.remove gone).lanes[index]? = some k) : (r.remove gone).Apart p m index where
  orderly := apart.orderly.remove gone
  board := by
    unfold Roster.remove
    exact holds_withdraw (r := { r with lanes := Kin.without gone r.lanes }) apart.board (· ∈ gone)
  asked request h := by
    cases hholder : r.holder with
    | none =>
      rw [remove_holder_of_none hholder] at h
      cases h
    | some other =>
      obtain ⟨hsame, hstays⟩ | ⟨hnone, -⟩ := remove_holder gone hholder
      · obtain rfl := Option.some.inj (hsame.symm.trans h)
        obtain ⟨k', hk', hother, asks⟩ := apart.asked other hholder
        refine ⟨k', ?_, fun hself => hother (hk.trans (hkept.symm.trans hself)), asks⟩
        rw [lanes_remove]
        exact Kin.mem_without.mpr ⟨hk', asks.1 ▸ hstays⟩
      · rw [hnone] at h
        cases h

theorem Apart.releases (apart : r.Apart p m index) {thread : NodeId} (releases : r.Releases index thread r') :
    r'.Apart p m index := by
  cases releases with
  | nothing _ _ => exact apart
  | lane hk _ _ _ _ _ hkept => exact apart.remove hk hkept

theorem Apart.unwinds (apart : r.Apart p m index) {caught : Bool} (unwinds : r.Unwinds p index caught r') :
    r'.Apart p m index := by
  induction unwinds with
  | empty _ _ => exact apart
  | «catch» _ _ => exact apart.pop
  | thread _ _ releases _ ih => exact ih (apart.releases releases).pop
  | skip _ _ _ ih => exact ih apart.pop

/-- A lane that is started does not wait. -/
theorem Apart.spawn (apart : r.Apart p m index) {k : Kin} (hk : r.lanes[index]? = some k) (thread : NodeId) :
    (r.spawn k.id thread).Apart p m index where
  orderly := apart.orderly.spawn (List.mem_of_getElem? hk) thread
  board := apart.board
  asked request h := by
    obtain ⟨k', hk', hother, asks⟩ := apart.asked request h
    refine ⟨k', List.mem_append_left _ hk', fun hself => hother ?_, asks⟩
    rwa [Roster.spawn, List.getElem?_append_left (List.getElem?_eq_some_iff.mp hk).1] at hself

theorem restart_holder (r : Roster σ) : r.restart.holder = none := by
  show (r.withdraw fun _ => True).holder = none
  cases hholder : r.holder with
  | none => exact withdraw_holder_of_none hholder
  | some other => exact ((withdraw_holder hholder).resolve_left fun h => h.2 trivial).1

theorem served_restart (board : Holds r.holder (m.board r.queries)) : r.restart.Served p m where
  orderly := .begin _
  board := holds_withdraw board _
  asked _ h := nomatch (restart_holder r).symm.trans h

/-- The lane of the request looks for its results. -/
theorem Polls.served {request : QueryRequest} {outcome : Outcome} (polls : r.Polls index request outcome r')
    (served : r.Served p m) (hholder : r.holder = some request) : r'.Served p m := by
  have board : Holds (some request) (m.board r.queries) := hholder ▸ served.board
  cases polls with
  | @pending queries h =>
    obtain ⟨-, holds⟩ | ⟨count, hcomplete, -⟩ := board.poll_behind h
    · exact ⟨served.orderly.same rfl rfl, hholder ▸ holds, served.asked⟩
    · cases hcomplete
  | @complete queries count h =>
    obtain ⟨hpending, -⟩ | ⟨count, -, -, holds⟩ := board.poll_behind h
    · cases hpending
    · refine ⟨Orderly.onLane ?_ index fun _ => ⟨rfl, rfl⟩, holds, fun other h => nomatch h⟩
      exact served.orderly.same rfl rfl

/-- After a move, the mailbox holds the request of the slot. -/
theorem Moves.served {now : UInt64} {rootVisited : Bool} {outcome : Outcome}
    (moves : r.Moves p now index rootVisited outcome r') (served : r.Served p m) : r'.Served p m := by
  have hlane {k : Kin} {frame : Frame} {node : Node} (top : r.Top p index k frame node) (hnode : node.kind ≠ .query)
      {f : Kin → Kin} (hsame : ∀ c, Kin.Same c (f c)) : (r.onLane index f).Served p m :=
    ((served.apart top hnode).onLane hsame).served
  cases moves with
  | yield _ _ _ _ | wait _ _ | blocked _ _ _ => exact served
  | enter top _ hroot _ => exact hlane top (Node.kind_ne_of_rootChild hroot).2 fun _ => ⟨rfl, rfl⟩
  | call top _ hcall => exact hlane top hcall.kind_ne.2 fun _ => ⟨rfl, rfl⟩
  | finish top _ hfinish => exact hlane top hfinish.kind_ne.2 fun _ => ⟨rfl, rfl⟩
  | beginWait top _ => exact hlane top nofun fun _ => ⟨rfl, rfl⟩
  | passWait top _ _ => exact hlane top nofun fun _ => ⟨rfl, rfl⟩
  | poll top _ hholder polls => exact polls.served served hholder
  | @ask k frame id result outcome r' top _ hholder polls =>
    refine polls.served ?_ rfl
    have orderly := served.orderly.onLane index (Kin.same_setProgress 1)
    have board : Holds (some ⟨id, k.id⟩) (m.board (QuerySystem.submit r.queries ⟨id, k.id⟩)) := by
      rw [m.submit]
      exact ((hholder ▸ served.board).resolve _).submit _
    refine ⟨orderly.same rfl rfl, board, fun request h => ?_⟩
    obtain rfl := Option.some.inj h
    refine ⟨_, List.mem_of_getElem? (top.onLane (Kin.setProgress 1)), rfl, ⟨frame.node, 1⟩, result, ?_, top.known⟩
    rw [Kin.frames_setProgress (List.dropLast_append_getLast? frame top.last).symm, List.getLast?_concat]
  | fork top _ _ =>
    have begun := (served.apart top nofun).onLane (Kin.same_setProgress 1)
    exact ((begun.spawn (top.onLane _) _).onLane (f := fun k => (k.setProgress 1).push (.start _))
      fun _ => ⟨rfl, rfl⟩).served
  | join top _ _ releases => exact ((served.apart top nofun).releases releases).pop.served
  | «catch» top hfail unwinds => exact ((served.apart top hfail.kind_ne.2).pop.unwinds unwinds).served
  | restart top hfail unwinds => exact served_restart ((served.apart top hfail.kind_ne.2).pop.unwinds unwinds).board

/-! ### Where a request goes -/

/-- Lanes go, and with them the request that one of them asked. -/
structure Shrinks (r r' : Roster σ) : Prop where
  ids : ∀ k' ∈ r'.lanes, ∃ k ∈ r.lanes, k.id = k'.id
  idle : r.holder = none → r'.holder = none
  freed : ∀ request, r.holder = some request → r'.holder = some request ∨
    r'.holder = none ∧ ∀ k ∈ r'.lanes, k.id ≠ request.lane

namespace Shrinks

variable {r'' : Roster σ}

omit [QuerySystem σ] in
theorem refl (r : Roster σ) : r.Shrinks r :=
  ⟨fun k hk => ⟨k, hk, rfl⟩, id, fun _ => .inl⟩

omit [QuerySystem σ] in
theorem trans (h : r.Shrinks r') (h' : r'.Shrinks r'') : r.Shrinks r'' where
  ids k hk := by
    obtain ⟨k', hk', hid⟩ := h'.ids k hk
    obtain ⟨k'', hk'', hid'⟩ := h.ids k' hk'
    exact ⟨k'', hk'', hid'.trans hid⟩
  idle := h'.idle ∘ h.idle
  freed request hholder := by
    obtain hkept | ⟨hnone, hgone⟩ := h.freed request hholder
    · exact h'.freed request hkept
    · refine .inr ⟨h'.idle hnone, fun k hk => ?_⟩
      obtain ⟨k', hk', hid⟩ := h'.ids k hk
      exact hid ▸ hgone k' hk'

omit [QuerySystem σ] in
theorem onLane (r : Roster σ) (index : Nat) {f : Kin → Kin} (hsame : ∀ c, Kin.Same c (f c)) :
    r.Shrinks (r.onLane index f) := by
  refine ⟨fun k' hk' => ?_, id, fun _ => .inl⟩
  obtain ⟨i, k, hk, rfl⟩ := mem_onLane hk'
  refine ⟨k, List.mem_of_getElem? hk, ?_⟩
  split_ifs
  · exact (hsame k).1.symm
  · rfl

theorem remove (r : Roster σ) (gone : List LaneId) : r.Shrinks (r.remove gone) where
  ids k hk := ⟨k, (Kin.mem_without.mp (lanes_remove gone r ▸ hk)).1, rfl⟩
  idle := remove_holder_of_none
  freed request hholder := by
    obtain ⟨hkept, -⟩ | ⟨hnone, hgone⟩ := remove_holder gone hholder
    · exact .inl hkept
    · refine .inr ⟨hnone, fun k hk hid => ?_⟩
      exact (Kin.mem_without.mp (lanes_remove gone r ▸ hk)).2 (hid ▸ hgone)

theorem releases {thread : NodeId} (releases : r.Releases index thread r') : r.Shrinks r' := by
  cases releases with
  | nothing _ _ => exact refl r
  | lane _ _ _ _ _ _ _ => exact remove r _

omit [QuerySystem σ] in
theorem pop (r : Roster σ) (index : Nat) : r.Shrinks (r.onLane index Kin.pop) :=
  onLane r index fun _ => ⟨rfl, rfl⟩

theorem unwinds {caught : Bool} (unwinds : r.Unwinds p index caught r') : r.Shrinks r' := by
  induction unwinds with
  | empty _ _ => exact refl _
  | «catch» _ _ => exact pop _ index
  | thread _ _ released _ ih => exact ((releases released).trans (pop _ index)).trans ih
  | skip _ _ _ ih => exact (pop _ index).trans ih

end Shrinks

theorem Polls.frees {request : QueryRequest} {outcome : Outcome} (polls : r.Polls index request outcome r')
    (served : r.Served p m) (hholder : r.holder = some request) : r.Frees m r' := by
  intro other hother
  obtain rfl := Option.some.inj (hholder.symm.trans hother)
  have board : Holds (some request) (m.board r.queries) := hholder ▸ served.board
  cases polls with
  | pending _ => exact .inl hholder
  | complete h =>
    obtain ⟨hpending, -⟩ | ⟨count, -, hresult, -⟩ := board.poll_behind h
    · cases hpending
    · exact .inr ⟨rfl, .inl (by simp [hresult])⟩

theorem Shrinks.frees (shrinks : r.Shrinks r') : r.Frees m r' :=
  fun request h => (shrinks.freed request h).imp id fun h => ⟨h.1, .inr h.2⟩

/-- A move takes the request out of the slot if it was resolved, and if its lane goes. -/
theorem Moves.frees {now : UInt64} {rootVisited : Bool} {outcome : Outcome}
    (moves : r.Moves p now index rootVisited outcome r') (served : r.Served p m) : r.Frees m r' := by
  cases moves with
  | yield _ _ _ _ | wait _ _ | blocked _ _ _ => exact (Shrinks.refl r).frees
  | enter _ _ _ _ | call _ _ _ | finish _ _ _ | beginWait _ _ | passWait _ _ _ | fork _ _ _ => exact fun _ => .inl
  | poll _ _ hholder polls => exact polls.frees served hholder
  | ask _ _ hholder _ => exact fun request h => nomatch hholder.symm.trans h
  | join _ _ _ releases => exact ((Shrinks.releases releases).trans (.pop _ index)).frees
  | «catch» _ _ unwinds => exact ((Shrinks.pop r index).trans (.unwinds unwinds)).frees
  | @restart k frame node r' _ _ unwinds =>
    intro request h
    refine .inr ⟨restart_holder r', .inr fun k hk hid => ?_⟩
    obtain ⟨old, hold, asks⟩ := served.asked request h
    have hfresh := served.orderly.fresh old hold
    rw [List.mem_singleton.mp hk] at hid
    have hnext : r'.next = r.next := unwinds.next_eq
    exact Nat.ne_of_lt hfresh (asks.1.trans (hid.symm.trans ((withdraw_next _ r').trans hnext)))

/-- Lanes that a move adds have new ids. -/
theorem Moves.ids {now : UInt64} {rootVisited : Bool} {outcome : Outcome}
    (moves : r.Moves p now index rootVisited outcome r') :
    r.next ≤ r'.next ∧ ∀ k' ∈ r'.lanes, (∃ k ∈ r.lanes, k.id = k'.id) ∨ r.next ≤ k'.id := by
  have hold (shrinks : r.Shrinks r') (hnext : r'.next = r.next) :
      r.next ≤ r'.next ∧ ∀ k' ∈ r'.lanes, (∃ k ∈ r.lanes, k.id = k'.id) ∨ r.next ≤ k'.id :=
    ⟨Nat.le_of_eq hnext.symm, fun k hk => .inl (shrinks.ids k hk)⟩
  have hpolls {request : QueryRequest} {r'' : Roster σ} (polls : r''.Polls index request outcome r')
      (ids : ∀ k' ∈ r''.lanes, ∃ k ∈ r.lanes, k.id = k'.id) (hnext : r''.next = r.next) :
      r.next ≤ r'.next ∧ ∀ k' ∈ r'.lanes, (∃ k ∈ r.lanes, k.id = k'.id) ∨ r.next ≤ k'.id := by
    cases polls with
    | pending _ => exact ⟨Nat.le_of_eq hnext.symm, fun k hk => .inl (ids k hk)⟩
    | complete _ =>
      refine ⟨Nat.le_of_eq hnext.symm, fun k hk => .inl ?_⟩
      obtain ⟨k', hk', hid⟩ := (Shrinks.pop r'' index).ids k hk
      obtain ⟨k'', hk'', hid'⟩ := ids k' hk'
      exact ⟨k'', hk'', hid'.trans hid⟩
  cases moves with
  | yield _ _ _ _ | wait _ _ | blocked _ _ _ => exact hold (.refl r) rfl
  | enter _ _ _ _ | call _ _ _ | finish _ _ _ | beginWait _ _ | passWait _ _ _ =>
    exact hold (.onLane r index fun _ => ⟨rfl, rfl⟩) rfl
  | poll _ _ _ polls => exact hpolls polls (Shrinks.refl r).ids rfl
  | ask _ _ _ polls => exact hpolls polls (Shrinks.onLane r index (Kin.same_setProgress 1)).ids rfl
  | @fork k frame main thread _ _ _ =>
    refine ⟨Nat.le_succ _, fun k' hk' => ?_⟩
    obtain ⟨c, hc, hid⟩ := (Shrinks.onLane ((r.onLane index (Kin.setProgress 1)).spawn k.id thread) index
      (f := fun k => (k.setProgress 1).push (.start main)) fun _ => ⟨rfl, rfl⟩).ids k' hk'
    obtain hc | hc := List.mem_append.mp hc
    · obtain ⟨c', hc', hid'⟩ := (Shrinks.onLane r index (Kin.same_setProgress 1)).ids c hc
      exact .inl ⟨c', hc', hid'.trans hid⟩
    · refine .inr (hid ▸ ?_)
      rw [List.mem_singleton.mp hc]
      exact Nat.le_refl _
  | join _ _ _ releases => exact hold ((Shrinks.releases releases).trans (.pop _ index)) releases.next_eq
  | «catch» _ _ unwinds => exact hold ((Shrinks.pop r index).trans (.unwinds unwinds)) unwinds.next_eq
  | @restart k frame node r' _ _ unwinds =>
    have hnext : (r'.withdraw fun _ => True).next = r.next := (withdraw_next _ r').trans unwinds.next_eq
    refine ⟨Nat.le_trans (Nat.le_of_eq hnext.symm) (Nat.le_succ _), fun k' hk' => .inr ?_⟩
    rw [List.mem_singleton.mp hk']
    exact Nat.le_of_eq hnext.symm

end Roster

end BehaviorTree
