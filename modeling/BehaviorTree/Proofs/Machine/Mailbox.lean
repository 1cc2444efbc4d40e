import BehaviorTree.Proofs.Machine.Slot

/-! A mailbox of several agents. What it says of one request only changes by operations on that request, so that
agents that wait for different requests do not notice each other. -/

namespace BehaviorTree

namespace QueryBoard

variable {board : QueryBoard} {request other : QueryRequest} {count : UInt32}

/-- What a mailbox says of a request: nothing, that it is pending, or its results. -/
def standing (board : QueryBoard) (request : QueryRequest) : Option QueryStatus :=
  match board.result? request with
  | some count => some (.complete count)
  | none => if request ∈ board.pending then some .pending else none

/-! ### Parts of a mailbox -/

theorem result?_eq_none_iff : board.result? request = none ↔ request ∉ board.done.map (·.1) := by
  unfold result?
  induction board.done with
  | nil => simp
  | cons entry done ih =>
    by_cases h : request = entry.1
    · simp [List.lookup, h]
    · simp [List.lookup, beq_false_of_ne h, h, ih]

theorem result?_forget :
    (board.forget request).result? other = if other = request then none else board.result? other := by
  unfold result? forget
  induction board.done with
  | nil => simp
  | cons entry done ih =>
    by_cases hentry : entry.1 = request
    · rw [List.filter_cons_of_neg (by simpa using hentry), ih]
      split_ifs with hother
      · rfl
      · rw [List.lookup_cons, beq_false_of_ne (fun h => hother (h.trans hentry))]
    · rw [List.filter_cons_of_pos (by simpa using hentry), List.lookup_cons, List.lookup_cons]
      by_cases h : other = entry.1
      · rw [beq_iff_eq.mpr h, if_neg (h ▸ hentry)]
      · rw [beq_false_of_ne h]
        exact ih

theorem swapRemove_perm {α : Type} {xs : List α} {index : Nat} (h : index < xs.length) :
    (swapRemove xs index).Perm (xs.eraseIdx index) := by
  obtain ⟨init, last, rfl⟩ := (List.eq_nil_or_concat xs).resolve_left (List.ne_nil_of_length_pos (by omega))
  rw [List.concat_eq_append, List.length_append, List.length_singleton] at h
  rw [List.concat_eq_append, swapRemove, List.getLast?_concat]
  dsimp only
  by_cases hlast : index < init.length
  · rw [List.set_append_left _ _ hlast, List.dropLast_concat, List.eraseIdx_append_of_lt_length hlast]
    exact (List.set_perm_cons_eraseIdx hlast last).trans (List.perm_append_singleton last _).symm
  · obtain rfl : index = init.length := by omega
    simp [List.eraseIdx_append_of_length_le]

theorem complete_of_not_mem (h : request ∉ board.pending) (count : UInt32) :
    board.complete request count = board := by
  have hnone : board.pending.findIdx? (· = request) = none := by
    rw [List.findIdx?_eq_none_iff]
    intro other hother
    exact decide_eq_false fun heq => h (heq ▸ hother)
  rw [complete, hnone]

/-- What is resolved was pending, and has only these results afterwards. -/
theorem complete_of_mem (h : request ∈ board.pending) (count : UInt32) :
    ∃ rest, board.pending.Perm (request :: rest) ∧
      board.complete request count = ⟨rest, (request, count) :: (board.forget request).done⟩ := by
  obtain ⟨index, hindex⟩ : ∃ index, board.pending.findIdx? (· = request) = some index := by
    rw [← Option.isSome_iff_exists, List.findIdx?_isSome]
    simpa using h
  obtain ⟨hlt, hsame, -⟩ := List.findIdx?_eq_some_iff_getElem.mp hindex
  refine ⟨swapRemove board.pending index, ?_, by rw [complete, hindex]⟩
  have hperm := List.getElem_cons_eraseIdx_perm hlt
  rw [of_decide_eq_true hsame] at hperm
  exact hperm.symm.trans (.cons _ (swapRemove_perm hlt).symm)

/-! ### What is said of a request -/

theorem standing_eq_none_iff : board.standing request = none ↔ request ∉ board.requests := by
  unfold standing requests
  rw [List.mem_append]
  cases hresult : board.result? request with
  | none =>
    have := result?_eq_none_iff.mp hresult
    by_cases h : request ∈ board.pending <;> simp_all
  | some count =>
    have hmem : request ∈ board.done.map (·.1) := by
      by_contra h
      rw [result?_eq_none_iff.mpr h] at hresult
      cases hresult
    simp [hmem]

theorem standing_eq_complete_iff :
    board.standing request = some (.complete count) ↔ board.result? request = some count := by
  unfold standing
  cases board.result? request with
  | none => by_cases h : request ∈ board.pending <;> simp [h]
  | some other => simp

theorem standing_congr {board' : QueryBoard} (hresult : board'.result? request = board.result? request)
    (hpending : request ∈ board'.pending ↔ request ∈ board.pending) :
    board'.standing request = board.standing request := by
  unfold standing
  rw [hresult]
  simp only [hpending]

theorem standing_submit (h : other ≠ request) : (board.submit request).standing other = board.standing other :=
  standing_congr rfl (by simp [submit, h])

theorem standing_forget (h : other ≠ request) : (board.forget request).standing other = board.standing other :=
  standing_congr (by rw [result?_forget, if_neg h]) Iff.rfl

theorem standing_cancel (h : other ≠ request) : (board.cancel request).standing other = board.standing other := by
  have hforget : (board.forget request).standing other = board.standing other := standing_forget h
  rw [← hforget]
  exact standing_congr rfl (by simp [cancel, forget, h])

theorem standing_complete (h : other ≠ request) (count : UInt32) :
    (board.complete request count).standing other = board.standing other := by
  by_cases hmem : request ∈ board.pending
  · obtain ⟨rest, hperm, hcomplete⟩ := complete_of_mem hmem count
    have hforget : (board.forget request).standing other = board.standing other := standing_forget h
    rw [hcomplete, ← hforget]
    refine standing_congr ?_ ?_
    · simp [result?, List.lookup_cons, beq_false_of_ne h]
    · show other ∈ rest ↔ other ∈ board.pending
      rw [hperm.mem_iff, List.mem_cons, or_iff_right h]
  · rw [complete_of_not_mem hmem]

theorem standing_complete_self (h : request ∈ board.pending) (count : UInt32) :
    (board.complete request count).standing request = some (.complete count) := by
  obtain ⟨rest, -, hcomplete⟩ := complete_of_mem h count
  rw [hcomplete, standing_eq_complete_iff]
  simp [result?]

/-! ### Requests that leave -/

theorem requests_forget_sublist : (board.forget request).requests.Sublist board.requests :=
  (List.Sublist.refl _).append (List.filter_sublist.map _)

theorem requests_cancel_sublist : (board.cancel request).requests.Sublist board.requests :=
  List.filter_sublist.append (List.filter_sublist.map _)

theorem mem_done_forget : other ∈ (board.forget request).done.map (·.1) ↔
    other ∈ board.done.map (·.1) ∧ other ≠ request := by
  constructor
  · intro h
    obtain ⟨entry, hentry, rfl⟩ := List.mem_map.mp h
    obtain ⟨hmem, hne⟩ := List.mem_filter.mp hentry
    exact ⟨List.mem_map_of_mem hmem, of_decide_eq_true hne⟩
  · rintro ⟨h, hne⟩
    obtain ⟨entry, hentry, rfl⟩ := List.mem_map.mp h
    exact List.mem_map_of_mem (List.mem_filter.mpr ⟨hentry, decide_eq_true hne⟩)

/-- A request with results is not pending. -/
theorem mem_requests_forget (clear : board.requests.Nodup) (h : board.result? request = some count) :
    other ∈ (board.forget request).requests ↔ other ∈ board.requests ∧ other ≠ request := by
  have hdone : request ∈ board.done.map (·.1) := by
    by_contra hno
    rw [result?_eq_none_iff.mpr hno] at h
    cases h
  have hpending (hmem : other ∈ board.pending) : other ≠ request :=
    (List.nodup_append.mp clear).2.2 other hmem request hdone
  have hside : other ∈ (board.forget request).pending ↔ other ∈ board.pending := Iff.rfl
  rw [requests, requests, List.mem_append, List.mem_append, mem_done_forget, hside]
  tauto

theorem mem_requests_cancel : other ∈ (board.cancel request).requests ↔ other ∈ board.requests ∧ other ≠ request := by
  have hpending : other ∈ (board.cancel request).pending ↔ other ∈ board.pending ∧ other ≠ request := by
    simp [cancel, forget]
  have hdone : other ∈ (board.cancel request).done.map (·.1) ↔ other ∈ board.done.map (·.1) ∧ other ≠ request :=
    mem_done_forget
  rw [requests, requests, List.mem_append, List.mem_append, hpending, hdone]
  tauto

/-! ### Workers -/

theorem done_forget (clear : board.requests.Nodup) {rest : List QueryRequest}
    (hperm : board.pending.Perm (request :: rest)) : (board.forget request).done = board.done := by
  refine List.filter_eq_self.mpr fun entry hentry => ?_
  have hmem : entry.1 ∈ board.done.map (·.1) := List.mem_map_of_mem hentry
  have hne := (List.nodup_append.mp clear).2.2 request (hperm.mem_iff.mpr List.mem_cons_self) entry.1 hmem
  simpa using hne.symm

/-- Workers neither add requests nor take them away. -/
theorem requests_complete (clear : board.requests.Nodup) (request : QueryRequest) (count : UInt32) :
    (board.complete request count).requests.Perm board.requests := by
  by_cases h : request ∈ board.pending
  · obtain ⟨rest, hperm, hcomplete⟩ := complete_of_mem h count
    rw [hcomplete, done_forget clear hperm]
    exact List.perm_middle.trans (hperm.append_right _).symm
  · rw [complete_of_not_mem h]

theorem result?_eq_none_of_mem (clear : board.requests.Nodup) (h : request ∈ board.pending) :
    board.result? request = none :=
  result?_eq_none_iff.mpr fun hdone => (List.nodup_append.mp clear).2.2 request h request hdone rfl

theorem standing_eq_pending_iff (clear : board.requests.Nodup) :
    board.standing request = some .pending ↔ request ∈ board.pending := by
  unfold standing
  constructor
  · intro h
    split at h
    next => cases h
    next => by_contra hmem; rw [if_neg hmem] at h; cases h
  · intro hmem
    rw [result?_eq_none_of_mem clear hmem]
    exact if_pos hmem

/-- Workers resolve what is pending, and nothing else. -/
theorem standing_complete_eq (clear : board.requests.Nodup) (other : QueryRequest) (count : UInt32)
    (request : QueryRequest) : (board.complete other count).standing request =
      if other = request ∧ board.standing request = some .pending then some (.complete count)
      else board.standing request := by
  by_cases hother : other = request
  · subst hother
    have hpending : board.standing other = some .pending ↔ other ∈ board.pending := standing_eq_pending_iff clear
    by_cases hmem : other ∈ board.pending
    · rw [if_pos ⟨rfl, hpending.mpr hmem⟩, standing_complete_self hmem]
    · rw [if_neg fun h => hmem (hpending.mp h.2), complete_of_not_mem hmem]
  · rw [if_neg fun h => hother h.1, standing_complete fun h => hother h.symm]

/-! ### Requests that are made twice -/

/-- Of two equal requests only the last results are delivered, and once. -/
theorem poll_twice (clear : board.requests.Nodup) (hmem : request ∈ board.pending) (first second : UInt32) :
    ∃ left, (((board.submit request).complete request first).complete request second).poll request =
      (.complete second, left) ∧ left.standing request = none := by
  have hcount : (board.submit request).pending.count request = 2 := by
    have honce := List.count_eq_one_of_mem (List.nodup_append.mp clear).1 hmem
    simp [QueryBoard.submit, honce]
  obtain ⟨rest, hperm, hcomplete⟩ :=
    complete_of_mem (List.count_pos_iff.mp (Nat.lt_of_lt_of_eq Nat.two_pos hcount.symm)) first
  have hcount : rest.count request = 1 := by
    rw [hperm.count_eq, List.count_cons_self] at hcount
    omega
  rw [hcomplete]
  have hagain : request ∈ (⟨rest, (request, first) :: ((board.submit request).forget request).done⟩ : QueryBoard).pending :=
    List.count_pos_iff.mp (Nat.lt_of_lt_of_eq Nat.one_pos hcount.symm)
  obtain ⟨rest', hperm', hcomplete'⟩ := complete_of_mem hagain second
  have hcount : rest'.count request = 0 := by
    rw [hperm'.count_eq, List.count_cons_self] at hcount
    omega
  rw [hcomplete']
  refine ⟨_, by rw [QueryBoard.poll, result?, List.lookup_cons_self], ?_⟩
  have hnone : request ∉ rest' := List.count_eq_zero.mp hcount
  rw [standing, result?_forget, if_pos rfl]
  exact if_neg hnone

/-! ### Several agents -/

/-- The mailbox holds just the requests for which agents wait, each once, and no two agents wait for the same. -/
structure Fair {ι : Type} (holders : ι → Option QueryRequest) (board : QueryBoard) : Prop where
  clear : board.requests.Nodup
  held : ∀ request, request ∈ board.requests ↔ ∃ i, holders i = some request
  apart : ∀ i j request, holders i = some request → holders j = some request → i = j

namespace Fair

variable {ι : Type} {holders : ι → Option QueryRequest}

theorem complete (fair : Fair holders board) (request : QueryRequest) (count : UInt32) :
    Fair holders (board.complete request count) := by
  have hperm := requests_complete fair.clear request count
  exact ⟨hperm.nodup_iff.mpr fair.clear, fun other => hperm.mem_iff.trans (fair.held other), fair.apart⟩

variable [DecidableEq ι] {i : ι}

/-- A request that nobody else waits for. -/
theorem submit (fair : Fair holders board) (hidle : holders i = none) (hnew : ∀ j, holders j ≠ some request) :
    Fair (Function.update holders i (some request)) (board.submit request) := by
  have hperm : (board.submit request).requests.Perm (request :: board.requests) := by
    simp [requests, QueryBoard.submit]
  have hother {j : ι} {r : QueryRequest} (h : holders j = some r) :
      Function.update holders i (some request) j = some r := by
    have hj : j ≠ i := fun heq => nomatch (heq ▸ h).symm.trans hidle
    rwa [Function.update_of_ne hj]
  have hback {j : ι} {r : QueryRequest} (h : Function.update holders i (some request) j = some r) :
      j = i ∧ r = request ∨ holders j = some r := by
    by_cases hj : j = i
    · subst hj
      rw [Function.update_self] at h
      exact .inl ⟨rfl, (Option.some.inj h).symm⟩
    · rw [Function.update_of_ne hj] at h
      exact .inr h
  refine ⟨?_, fun r => ?_, fun j k r hj hk => ?_⟩
  · rw [hperm.nodup_iff, List.nodup_cons]
    refine ⟨fun hmem => ?_, fair.clear⟩
    obtain ⟨j, hj⟩ := (fair.held request).mp hmem
    exact hnew j hj
  · rw [hperm.mem_iff, List.mem_cons, fair.held]
    constructor
    · rintro (rfl | ⟨j, hj⟩)
      · exact ⟨i, Function.update_self ..⟩
      · exact ⟨j, hother hj⟩
    · rintro ⟨j, hj⟩
      exact (hback hj).imp And.right fun h => ⟨j, h⟩
  · obtain ⟨hji, hr⟩ | hj := hback hj
    · obtain ⟨hki, -⟩ | hk := hback hk
      · exact hji.trans hki.symm
      · exact absurd (hr ▸ hk) (hnew k)
    · obtain ⟨-, hr⟩ | hk := hback hk
      · exact absurd (hr ▸ hj) (hnew j)
      · exact fair.apart j k r hj hk

/-- A request that was delivered or withdrawn. -/
theorem release (fair : Fair holders board) (hholder : holders i = some request) {board' : QueryBoard}
    (hsub : board'.requests.Sublist board.requests)
    (hmem : ∀ other, other ∈ board'.requests ↔ other ∈ board.requests ∧ other ≠ request) :
    Fair (Function.update holders i none) board' := by
  have hback {j : ι} {r : QueryRequest} (h : Function.update holders i none j = some r) :
      j ≠ i ∧ holders j = some r := by
    by_cases hj : j = i
    · subst hj
      rw [Function.update_self] at h
      cases h
    · rw [Function.update_of_ne hj] at h
      exact ⟨hj, h⟩
  refine ⟨fair.clear.sublist hsub, fun r => ?_, fun j k r hj hk => fair.apart j k r (hback hj).2 (hback hk).2⟩
  rw [hmem, fair.held]
  constructor
  · rintro ⟨⟨j, hj⟩, hne⟩
    have hji : j ≠ i := fun heq => hne (Option.some.inj ((heq ▸ hj).symm.trans hholder))
    exact ⟨j, by rwa [Function.update_of_ne hji]⟩
  · rintro ⟨j, hj⟩
    obtain ⟨hji, hj⟩ := hback hj
    exact ⟨⟨j, hj⟩, fun heq => hji (fair.apart j i request (heq ▸ hj) hholder)⟩

end Fair

end QueryBoard

end BehaviorTree
