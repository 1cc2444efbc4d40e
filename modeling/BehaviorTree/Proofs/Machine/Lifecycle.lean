import BehaviorTree.Proofs.Machine.Mailbox

/-! The life of a request. A machine of its own takes it from idle to pending when it is made, to its results when it
is resolved, and back to idle when they are delivered or it is withdrawn. A mailbox is one such machine for each
request, as long as no request is made again before it is idle. -/

namespace BehaviorTree

/-- What is done with a request. Agents make it, withdraw it and ask for its results, and workers resolve it. -/
inductive RequestOp
  | submit
  | complete (count : UInt32)
  | cancel
  | poll
  deriving DecidableEq, Repr

namespace RequestOp

/-- The machine of one request, which is idle where nothing is said of it. -/
def next : RequestOp → Option QueryStatus → Option QueryStatus
  | .submit, none => some .pending
  | .complete count, some .pending => some (.complete count)
  | .poll, some (.complete _) => none
  | .cancel, _ => none
  | _, standing => standing

/-- What the machine answers. -/
def answer? : RequestOp → Option QueryStatus → Option QueryStatus
  | .poll, some (.complete count) => some (.complete count)
  | .poll, _ => some .pending
  | _, _ => none

def course (ops : List RequestOp) (standing : Option QueryStatus) : Option QueryStatus :=
  ops.foldl (fun standing op => op.next standing) standing

@[simp] theorem course_nil (standing : Option QueryStatus) : course [] standing = standing := rfl

@[simp] theorem course_cons (op : RequestOp) (ops : List RequestOp) (standing : Option QueryStatus) :
    course (op :: ops) standing = course ops (op.next standing) := rfl

theorem course_append (ops ops' : List RequestOp) (standing : Option QueryStatus) :
    course (ops ++ ops') standing = course ops' (course ops standing) := List.foldl_append

theorem status_cases (standing : Option QueryStatus) :
    standing = none ∨ standing = some .pending ∨ ∃ count, standing = some (.complete count) := by
  rcases standing with _ | _ | count <;> simp

theorem next_poll_of_ne {standing : Option QueryStatus} (h : ∀ count, standing ≠ some (.complete count)) :
    poll.next standing = standing := by
  obtain rfl | rfl | ⟨count, rfl⟩ := status_cases standing
  · rfl
  · rfl
  · exact absurd rfl (h count)

theorem answer?_poll_of_ne {standing : Option QueryStatus} (h : ∀ count, standing ≠ some (.complete count)) :
    poll.answer? standing = some .pending := by
  obtain rfl | rfl | ⟨count, rfl⟩ := status_cases standing
  · rfl
  · rfl
  · exact absurd rfl (h count)

theorem eq_complete_of_answer? {op : RequestOp} {standing : Option QueryStatus} {count : UInt32}
    (h : op.answer? standing = some (.complete count)) : standing = some (.complete count) := by
  unfold answer? at h
  split at h <;> simp_all

/-- Nothing but making the request wakes an idle machine. -/
theorem course_idle {ops : List RequestOp} (h : .submit ∉ ops) : course ops none = none := by
  induction ops with
  | nil => rfl
  | cons op ops ih =>
    obtain ⟨hop, hops⟩ := List.ne_and_not_mem_of_not_mem_cons h
    have hidle : op.next none = none := by cases op <;> simp_all [next]
    rw [course_cons, hidle, ih hops]

end RequestOp

namespace QueryBoard

open RequestOp

/-- Operations with their requests, in the order in which they reach the mailbox. -/
abbrev History := List (QueryRequest × RequestOp)

def perform (board : QueryBoard) (request : QueryRequest) : RequestOp → Option QueryStatus × QueryBoard
  | .submit => (none, board.submit request)
  | .complete count => (none, board.complete request count)
  | .cancel => (none, board.cancel request)
  | .poll => (board.poll request).map some id

/-- The mailbox after all operations. -/
def after (board : QueryBoard) (history : History) : QueryBoard :=
  history.foldl (fun board (request, op) => (board.perform request op).2) board

/-- What is done with a single request. -/
def opsOn (request : QueryRequest) (history : History) : List RequestOp :=
  (history.filter (·.1 = request)).map (·.2)

/-- No request is made while it is pending or has results that were not delivered. -/
def Orderly : QueryBoard → History → Prop
  | _, [] => True
  | board, (request, op) :: history =>
    (op = .submit → request ∉ board.requests) ∧ Orderly (board.perform request op).2 history

instance decidableOrderly : (board : QueryBoard) → (history : History) → Decidable (Orderly board history)
  | _, [] => .isTrue trivial
  | board, (request, op) :: history =>
    have := decidableOrderly (board.perform request op).2 history
    inferInstanceAs (Decidable (_ ∧ _))

variable {board : QueryBoard} {request other : QueryRequest} {op : RequestOp} {history : History}

@[simp] theorem after_nil (board : QueryBoard) : board.after [] = board := rfl

@[simp] theorem after_cons (board : QueryBoard) (request : QueryRequest) (op : RequestOp) (history : History) :
    board.after ((request, op) :: history) = (board.perform request op).2.after history := rfl

theorem opsOn_append (request : QueryRequest) (history later : History) :
    opsOn request (history ++ later) = opsOn request history ++ opsOn request later := by
  simp [opsOn]

theorem opsOn_cons_self (request : QueryRequest) (op : RequestOp) (history : History) :
    opsOn request ((request, op) :: history) = op :: opsOn request history := by
  simp [opsOn]

theorem opsOn_cons_of_ne (h : other ≠ request) (op : RequestOp) (history : History) :
    opsOn other ((request, op) :: history) = opsOn other history := by
  simp [opsOn, h.symm]

theorem mem_opsOn : op ∈ opsOn request history ↔ (request, op) ∈ history := by
  simp [opsOn]

theorem orderly_append {later : History} :
    Orderly board (history ++ later) ↔ Orderly board history ∧ Orderly (board.after history) later := by
  induction history generalizing board with
  | nil => simp [Orderly]
  | cons entry history ih =>
    obtain ⟨request, op⟩ := entry
    simp [Orderly, ih, and_assoc]

/-! ### One operation -/

/-- Results are delivered where there are any; otherwise nothing happens. -/
theorem poll_cases (board : QueryBoard) (request : QueryRequest) :
    (∃ count, board.standing request = some (.complete count) ∧
      board.poll request = (.complete count, board.forget request)) ∨
    (∀ count, board.standing request ≠ some (.complete count)) ∧ board.poll request = (.pending, board) := by
  unfold poll
  simp only [ne_eq, standing_eq_complete_iff]
  cases board.result? request with
  | some count => simp
  | none => simp

/-- What is asked is answered by the machine of the request. -/
theorem answer_perform (board : QueryBoard) (request : QueryRequest) (op : RequestOp) :
    (board.perform request op).1 = op.answer? (board.standing request) := by
  cases op with
  | poll =>
    obtain ⟨count, hresult, hpoll⟩ | ⟨hresult, hpoll⟩ := poll_cases board request
    · simp [perform, hpoll, hresult, answer?]
    · simp [perform, hpoll, answer?_poll_of_ne hresult]
  | _ => rfl

/-- An operation leaves all other requests as they are. -/
theorem standing_perform_of_ne (h : other ≠ request) (op : RequestOp) :
    (board.perform request op).2.standing other = board.standing other := by
  cases op with
  | submit => exact standing_submit h
  | complete count => exact standing_complete h count
  | cancel => exact standing_cancel h
  | poll =>
    obtain ⟨count, -, hpoll⟩ | ⟨-, hpoll⟩ := poll_cases board request
    · simpa [perform, hpoll] using standing_forget h
    · simp [perform, hpoll]

theorem standing_submit_self (h : request ∉ board.requests) :
    (board.submit request).standing request = some .pending := by
  have hresult : board.result? request = none :=
    result?_eq_none_iff.mpr fun hdone => h (List.mem_append_right _ hdone)
  have hsame : (board.submit request).result? request = none := hresult
  have hmem : request ∈ (board.submit request).pending := by simp [submit]
  rw [standing, hsame]
  exact if_pos hmem

/-- An operation moves the machine of its request. -/
theorem standing_perform_self (clear : board.requests.Nodup) (h : op = .submit → request ∉ board.requests) :
    (board.perform request op).2.standing request = op.next (board.standing request) := by
  cases op with
  | submit =>
    rw [standing_eq_none_iff.mpr (h rfl)]
    exact standing_submit_self (h rfl)
  | complete count =>
    have hcomplete := standing_complete_eq clear request count request
    simp only [perform, hcomplete, true_and]
    obtain hidle | hpending | ⟨first, hdone⟩ := status_cases (board.standing request) <;> simp [*, next]
  | cancel =>
    have hgone : (board.cancel request).standing request = none := by
      simp [standing_eq_none_iff, mem_requests_cancel]
    simpa [perform, next] using hgone
  | poll =>
    obtain ⟨count, hresult, hpoll⟩ | ⟨hresult, hpoll⟩ := poll_cases board request
    · have hgone : (board.forget request).standing request = none := by
        simp [standing_eq_none_iff, mem_requests_forget clear (standing_eq_complete_iff.mp hresult)]
      simp [perform, hpoll, hgone, hresult, next]
    · simp [perform, hpoll, next_poll_of_ne hresult]

/-- No operation has the mailbox hold a request twice. -/
theorem clear_perform (clear : board.requests.Nodup) (h : op = .submit → request ∉ board.requests) :
    (board.perform request op).2.requests.Nodup := by
  cases op with
  | submit =>
    have hperm : (board.submit request).requests.Perm (request :: board.requests) := by
      simp [requests, QueryBoard.submit]
    exact hperm.nodup_iff.mpr (List.nodup_cons.mpr ⟨h rfl, clear⟩)
  | complete count => exact (requests_complete clear request count).nodup_iff.mpr clear
  | cancel => exact clear.sublist requests_cancel_sublist
  | poll =>
    obtain ⟨count, -, hpoll⟩ | ⟨-, hpoll⟩ := poll_cases board request
    · simpa [perform, hpoll] using clear.sublist requests_forget_sublist
    · simpa [perform, hpoll] using clear

/-- All machines, of which an operation moves one. -/
theorem standing_perform (clear : board.requests.Nodup) (h : op = .submit → request ∉ board.requests) :
    (board.perform request op).2.standing =
      Function.update board.standing request (op.next (board.standing request)) := by
  funext other
  by_cases hother : other = request
  · subst hother
    rw [Function.update_self, standing_perform_self clear h]
  · rw [Function.update_of_ne hother, standing_perform_of_ne hother]

/-! ### All operations -/

theorem clear_after (clear : board.requests.Nodup) (orderly : Orderly board history) :
    (board.after history).requests.Nodup := by
  induction history generalizing board with
  | nil => exact clear
  | cons entry history ih =>
    obtain ⟨hnew, orderly⟩ := orderly
    exact ih (clear_perform clear hnew) orderly

/-- Every request stands where the operations on it alone have brought its machine. -/
theorem standing_after (clear : board.requests.Nodup) (orderly : Orderly board history) (request : QueryRequest) :
    (board.after history).standing request = course (opsOn request history) (board.standing request) := by
  induction history generalizing board with
  | nil => rfl
  | cons entry history ih =>
    obtain ⟨target, op⟩ := entry
    obtain ⟨hnew, orderly⟩ := orderly
    rw [after_cons, ih (clear_perform clear hnew) orderly, standing_perform clear hnew]
    by_cases hsame : request = target
    · subst hsame
      rw [Function.update_self, opsOn_cons_self, course_cons]
    · rw [Function.update_of_ne hsame, opsOn_cons_of_ne hsame]

theorem clear_empty : empty.requests.Nodup := List.nodup_nil

theorem standing_empty (request : QueryRequest) : empty.standing request = none := rfl

/-- Results that were delivered are not delivered again. -/
theorem delivered_once {before later : History} {count : UInt32}
    (orderly : Orderly empty (before ++ (request, .poll) :: later))
    (hdelivered : ((empty.after before).perform request .poll).1 = some (.complete count))
    (hlater : (request, .submit) ∉ later) :
    ((empty.after (before ++ (request, .poll) :: later)).perform request .poll).1 = some .pending := by
  have hdone : (empty.after before).standing request = some (.complete count) := by
    rw [answer_perform] at hdelivered
    exact eq_complete_of_answer? hdelivered
  rw [standing_after clear_empty (orderly_append.mp orderly).1] at hdone
  rw [answer_perform, standing_after clear_empty orderly, opsOn_append, opsOn_cons_self, course_append, hdone,
    course_cons]
  -- The delivery leaves the machine idle, and nothing in `later` wakes it.
  have hidle : course (opsOn request later) none = none := course_idle (mem_opsOn.not.mpr hlater)
  simp [next, hidle, answer?]

/-- A mailbox is a machine for each request. The requests that it lists as pending are those whose machine is pending,
each of them once, and the results that it has are those of the machines that are done. A machine is moved by the
operations on its own request and by nothing else, it gives the answers, and what it has delivered it does not deliver
again before the request is made again. -/
theorem requests_apart {history : History} (orderly : Orderly empty history) :
    (∀ request, (request ∈ (empty.after history).pending ↔ course (opsOn request history) none = some .pending) ∧
      ∀ count, (empty.after history).result? request = some count ↔
        course (opsOn request history) none = some (.complete count)) ∧
    (empty.after history).pending.Nodup ∧
    (∀ request op, ((empty.after history).perform request op).1 = op.answer? (course (opsOn request history) none)) ∧
    (∀ request op other, other ≠ request →
      ((empty.after history).perform request op).2.standing other = (empty.after history).standing other) ∧
    ∀ before later request count, history = before ++ (request, .poll) :: later →
      ((empty.after before).perform request .poll).1 = some (.complete count) → (request, .submit) ∉ later →
      ((empty.after history).perform request .poll).1 = some .pending := by
  have clear := clear_after clear_empty orderly
  have hstanding := standing_after clear_empty orderly
  simp only [standing_empty] at hstanding
  refine ⟨fun request => ⟨?_, fun count => ?_⟩, (List.nodup_append.mp clear).1, fun request op => ?_,
    fun request op other hother => standing_perform_of_ne hother op, ?_⟩
  · rw [← hstanding, standing_eq_pending_iff clear]
  · rw [← hstanding, standing_eq_complete_iff]
  · rw [answer_perform, hstanding]
  · rintro before later request count rfl hdelivered hlater
    exact delivered_once orderly hdelivered hlater

/-- Two requests take turns. One is resolved twice and asked for twice, the other is withdrawn after it was resolved, and
made again. -/
def errands : History :=
  [(⟨7, 0⟩, .submit), (⟨7, 1⟩, .submit), (⟨7, 1⟩, .complete 9), (⟨7, 0⟩, .poll), (⟨7, 0⟩, .complete 2),
    (⟨7, 0⟩, .complete 5), (⟨7, 1⟩, .cancel), (⟨7, 0⟩, .poll), (⟨7, 0⟩, .complete 6), (⟨7, 1⟩, .submit)]

theorem requests_apart_errands : Orderly empty errands ∧
    ⟨7, 1⟩ ∈ (empty.after errands).pending ∧ ⟨7, 0⟩ ∉ (empty.after errands).pending ∧
    ((empty.after (errands.take 7)).perform ⟨7, 0⟩ .poll).1 = some (.complete 2) ∧
    ((empty.after errands).perform ⟨7, 0⟩ .poll).1 = some .pending ∧
    ((empty.after errands).perform ⟨7, 1⟩ (.complete 4)).2.standing ⟨7, 0⟩ = none := by
  have orderly : Orderly empty errands := by decide
  obtain ⟨hstands, -, -, hothers, honce⟩ := requests_apart orderly
  have hdelivered : ((empty.after (errands.take 7)).perform ⟨7, 0⟩ .poll).1 = some (.complete 2) := by decide
  have hidle : (empty.after errands).standing ⟨7, 0⟩ = none := by decide
  refine ⟨orderly, (hstands _).1.mpr (by decide), (hstands _).1.not.mpr (by decide), hdelivered,
    honce (errands.take 7) (errands.drop 8) _ _ rfl hdelivered (by decide), ?_⟩
  rw [hothers _ _ _ (by decide), hidle]

end QueryBoard

end BehaviorTree
