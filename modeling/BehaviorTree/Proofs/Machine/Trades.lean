import BehaviorTree.Proofs.Machine.Mailbox

/-! What a step of one agent does with a mailbox: nothing, or it looks for the results of the request for which it
waits, asks a request, or withdraws the one for which it waits. That request is the only one that the step touches. -/

namespace BehaviorTree

open Refusal QueryBoard

namespace Roster

variable {p : Program} {index : Nat} {request : QueryRequest} {board : QueryBoard}

/-- The request that a step of a lane asks. -/
def asks? {σ : Type} (p : Program) (index : Nat) (r : Roster σ) : Option QueryRequest := do
  let k ← r.lanes[index]?
  let frame ← k.frames.getLast?
  match r.holder, p.node? frame.node with
  | none, some (.query id _) => some ⟨id, k.id⟩
  | _, _ => none

/-- The lane has the query of the request on top. -/
def Asker {σ : Type} [QuerySystem σ] (p : Program) (index : Nat) (request : QueryRequest) (r : Roster σ) : Prop :=
  ∃ k frame result, r.Top p index k frame (.query request.query result) ∧ k.id = request.lane

/-- Looks into a mailbox for results. -/
inductive Polled (request : QueryRequest) (board : QueryBoard) (r' : Roster QueryBoard) : Prop
  | pending (hresult : board.result? request = none) (hholder : r'.holder = some request) (hqueries : r'.queries = board)
  | complete {count : UInt32} (hresult : board.result? request = some count) (hholder : r'.holder = none)
    (hqueries : r'.queries = board.forget request)

/-- What a step can do with a mailbox. -/
inductive Trades (p : Program) (index : Nat) (r r' : Roster QueryBoard) : Prop
  | nothing (hasks : r.asks? p index = none) (hholder : r'.holder = r.holder) (hqueries : r'.queries = r.queries)
  | poll {request : QueryRequest} (hholder : r.holder = some request) (asker : r.Asker p index request)
    (polled : Polled request r.queries r')
  | ask {request : QueryRequest} (hasks : r.asks? p index = some request)
    (polled : Polled request (r.queries.submit request) r')
  | withdraw {request : QueryRequest} (hholder : r.holder = some request) (hnone : r'.holder = none)
    (hqueries : r'.queries = r.queries.cancel request) (hgone : ∀ k ∈ r'.lanes, k.id ≠ request.lane)

section Systems

variable {σ : Type} [QuerySystem σ] {r r' r'' : Roster σ}

/-- What a step asks is the query on top of its lane. -/
theorem asks?_eq_some_iff :
    r.asks? p index = some request ↔ r.holder = none ∧ r.Asker p index request := by
  constructor
  · intro h
    obtain ⟨k, hk, h⟩ := Option.bind_eq_some_iff.mp h
    obtain ⟨frame, hlast, h⟩ := Option.bind_eq_some_iff.mp h
    split at h
    next id result hholder hknown =>
      obtain rfl := Option.some.inj h
      exact ⟨hholder, k, frame, result, ⟨hk, hlast, hknown⟩, rfl⟩
    next => cases h
  · rintro ⟨hholder, k, frame, result, top, hid⟩
    simp [asks?, top.lane, top.last, top.known, hholder, hid]

/-- Only queries ask. -/
theorem Top.asks?_eq_none {k : Kin} {frame : Frame} {node : Node} (top : r.Top p index k frame node)
    (h : node.kind ≠ .query) : r.asks? p index = none := by
  by_contra hasks
  obtain ⟨request, hrequest⟩ := Option.ne_none_iff_exists'.mp hasks
  obtain ⟨-, k', frame', result, top', -⟩ := asks?_eq_some_iff.mp hrequest
  obtain rfl := Option.some.inj (top.lane.symm.trans top'.lane)
  obtain rfl := Option.some.inj (top.last.symm.trans top'.last)
  rw [Option.some.inj (top.known.symm.trans top'.known)] at h
  exact h rfl

/-- Nothing happens to the mailbox, or the request of the slot is withdrawn. -/
def Drops (r r' : Roster σ) : Prop :=
  r'.holder = r.holder ∧ r'.queries = r.queries ∨ ∃ request, r.holder = some request ∧ r'.holder = none ∧
    r'.queries = QuerySystem.cancel r.queries request

theorem Drops.trans (h : r.Drops r') (h' : r'.Drops r'') : r.Drops r'' := by
  obtain ⟨hholder, hqueries⟩ | ⟨request, hholder, hnone, hqueries⟩ := h
  · rw [Drops, hholder, hqueries] at h'
    exact h'
  · obtain ⟨hsame, hqueries'⟩ | ⟨other, hother, -⟩ := h'
    · exact .inr ⟨request, hholder, hsame.trans hnone, hqueries'.trans hqueries⟩
    · cases hnone.symm.trans hother

theorem drops_withdraw (gone : LaneId → Prop) [DecidablePred gone] (r : Roster σ) : r.Drops (r.withdraw gone) := by
  unfold withdraw
  split
  next request hholder =>
    split_ifs
    · exact .inr ⟨request, hholder, rfl, rfl⟩
    · exact .inl ⟨rfl, rfl⟩
  next => exact .inl ⟨rfl, rfl⟩

theorem Releases.drops {thread : NodeId} (releases : r.Releases index thread r') : r.Drops r' := by
  cases releases with
  | nothing _ _ => exact .inl ⟨rfl, rfl⟩
  | @lane _ _ _ gone _ _ _ _ _ _ _ => exact drops_withdraw (· ∈ gone) { r with lanes := Kin.without gone r.lanes }

theorem Unwinds.drops {caught : Bool} (unwinds : r.Unwinds p index caught r') : r.Drops r' := by
  induction unwinds with
  | empty _ _ | «catch» _ _ => exact .inl ⟨rfl, rfl⟩
  | thread _ _ releases _ ih => exact releases.drops.trans ih
  | skip _ _ _ ih => exact ih

end Systems

variable {r r' : Roster QueryBoard}

/-- A request that is dropped with its lane. -/
theorem Drops.trades (drops : r.Drops r') (shrinks : r.Shrinks r') (hasks : r.asks? p index = none) :
    r.Trades p index r' := by
  obtain ⟨hholder, hqueries⟩ | ⟨request, hholder, hnone, hqueries⟩ := drops
  · exact .nothing hasks hholder hqueries
  · obtain hkept | ⟨-, hgone⟩ := shrinks.freed request hholder
    · cases hnone.symm.trans hkept
    · exact .withdraw hholder hnone hqueries hgone

theorem Polls.polled {outcome : Outcome} (polls : r.Polls index request outcome r') (hholder : r.holder = some request) :
    Polled request r.queries r' := by
  have hpoll : QuerySystem.poll r.queries request = r.queries.poll request := rfl
  cases polls with
  | pending h =>
    rw [hpoll, QueryBoard.poll] at h
    split at h
    next => cases congrArg Prod.fst h
    next hresult => exact .pending hresult hholder (congrArg Prod.snd h).symm
  | complete h =>
    rw [hpoll, QueryBoard.poll] at h
    split at h
    next hresult => exact .complete hresult rfl (congrArg Prod.snd h).symm
    next => cases congrArg Prod.fst h

/-- Every move is one of these trades. -/
theorem Moves.trades {now : UInt64} {rootVisited : Bool} {outcome : Outcome}
    (moves : r.Moves p now index rootVisited outcome r')
    (given : ∀ request, r.holder = some request → request.lane < r.next) : r.Trades p index r' := by
  have hquiet {k : Kin} {frame : Frame} {node : Node} {r'' : Roster QueryBoard} (top : r.Top p index k frame node)
      (h : node.kind ≠ .query) (hholder : r''.holder = r.holder) (hqueries : r''.queries = r.queries) :
      r.Trades p index r'' :=
    .nothing (top.asks?_eq_none h) hholder hqueries
  cases moves with
  | yield top _ hroot _ | enter top _ hroot _ => exact hquiet top (Node.kind_ne_of_rootChild hroot).2 rfl rfl
  | call top _ hcall => exact hquiet top hcall.kind_ne.2 rfl rfl
  | finish top _ hfinish => exact hquiet top hfinish.kind_ne.2 rfl rfl
  | wait top _ | beginWait top _ | passWait top _ _ | fork top _ _ => exact hquiet top (by simp [Node.kind]) rfl rfl
  | blocked _ hholder _ =>
    refine .nothing (Option.eq_none_iff_forall_ne_some.mpr fun request hasks => ?_) rfl rfl
    cases (asks?_eq_some_iff.mp hasks).1.symm.trans hholder
  | poll top _ hholder polls => exact .poll hholder ⟨_, _, _, top, rfl⟩ (polls.polled hholder)
  | ask top _ hholder polls =>
    exact .ask (asks?_eq_some_iff.mpr ⟨hholder, _, _, _, top, rfl⟩) (polls.polled rfl)
  | join top _ _ releases =>
    exact Drops.trades releases.drops ((Shrinks.releases releases).trans (.pop _ index))
      (top.asks?_eq_none (by simp [Node.kind]))
  | «catch» top hfail unwinds =>
    exact Drops.trades unwinds.drops ((Shrinks.pop r index).trans (.unwinds unwinds))
      (top.asks?_eq_none hfail.kind_ne.2)
  | @restart k frame node r' top hfail unwinds =>
    have drops : r.Drops r'.restart := unwinds.drops.trans (drops_withdraw (fun _ => True) r')
    obtain ⟨hholder, hqueries⟩ | ⟨request, hholder, hnone, hqueries⟩ := drops
    · exact .nothing (top.asks?_eq_none hfail.kind_ne.2) hholder hqueries
    · refine .withdraw hholder hnone hqueries fun k hk => ?_
      have hnext : (r'.withdraw fun _ => True).next = r.next := (withdraw_next _ r').trans unwinds.next_eq
      rw [List.mem_singleton.mp hk]
      exact (hnext ▸ Nat.ne_of_lt (given request hholder)).symm

/-! ### What becomes of requests -/

theorem Polled.standing (polled : Polled request board r') {other : QueryRequest} (h : other ≠ request) :
    r'.queries.standing other = board.standing other := by
  cases polled with
  | pending _ _ hqueries => rw [hqueries]
  | complete _ _ hqueries => rw [hqueries, standing_forget h]

/-- Requests of other agents are left alone. -/
theorem Trades.standing (trades : r.Trades p index r') {other : QueryRequest} (hheld : r.holder ≠ some other)
    (hasked : r.asks? p index ≠ some other) : r'.queries.standing other = r.queries.standing other := by
  cases trades with
  | nothing _ _ hqueries => rw [hqueries]
  | @poll request hholder _ polled =>
    have hne : other ≠ request := fun heq => hheld (heq ▸ hholder)
    exact polled.standing hne
  | @ask request hasks polled =>
    have hne : other ≠ request := fun heq => hasked (heq ▸ hasks)
    exact (polled.standing hne).trans (standing_submit hne)
  | @withdraw request hholder _ hqueries _ =>
    have hne : other ≠ request := fun heq => hheld (heq ▸ hholder)
    rw [hqueries, standing_cancel hne]

/-- What becomes of the request for which an agent waits. -/
inductive Fate (p : Program) (index : Nat) (request : QueryRequest) (r r' : Roster QueryBoard) : Prop
  | waits (hholder : r'.holder = some request)
    (hstanding : r'.queries.standing request = r.queries.standing request)
  | delivered {count : UInt32} (hstanding : r.queries.standing request = some (.complete count))
    (asker : r.Asker p index request) (hholder : r'.holder = none) (hgone : r'.queries.standing request = none)
  | withdrawn (hlane : ∀ k ∈ r'.lanes, k.id ≠ request.lane) (hholder : r'.holder = none)
    (hgone : r'.queries.standing request = none)

theorem Trades.fate (trades : r.Trades p index r') (clear : r.queries.requests.Nodup)
    (hheld : r.holder = some request) : r.Fate p index request r' := by
  cases trades with
  | nothing _ hholder hqueries => exact .waits (hholder.trans hheld) (by rw [hqueries])
  | poll hholder asker polled =>
    obtain rfl := Option.some.inj (hholder.symm.trans hheld)
    cases polled with
    | pending _ hholder hqueries => exact .waits hholder (by rw [hqueries])
    | complete hresult hholder hqueries =>
      refine .delivered (standing_eq_complete_iff.mpr hresult) asker hholder ?_
      rw [hqueries, standing_eq_none_iff, mem_requests_forget clear hresult]
      exact fun h => h.2 rfl
  | ask hasks _ => cases (asks?_eq_some_iff.mp hasks).1.symm.trans hheld
  | withdraw hholder hnone hqueries hgone =>
    obtain rfl := Option.some.inj (hholder.symm.trans hheld)
    refine .withdrawn hgone hnone ?_
    rw [hqueries, standing_eq_none_iff, mem_requests_cancel]
    exact fun h => h.2 rfl

/-- What is asked is looked for at once. -/
theorem Trades.polled (trades : r.Trades p index r') (hasks : r.asks? p index = some request) :
    Polled request (r.queries.submit request) r' := by
  have hidle := (asks?_eq_some_iff.mp hasks).1
  cases trades with
  | nothing hnone _ _ => cases hasks.symm.trans hnone
  | poll hholder _ _ => cases hidle.symm.trans hholder
  | ask hasks' polled => exact Option.some.inj (hasks.symm.trans hasks') ▸ polled
  | withdraw hholder _ _ _ => cases hidle.symm.trans hholder

/-- A request that is new to the mailbox is pending. -/
theorem Trades.asked (trades : r.Trades p index r') (hasks : r.asks? p index = some request)
    (hnew : r.queries.standing request = none) :
    r'.holder = some request ∧ r'.queries.standing request = some .pending := by
  have hmem := standing_eq_none_iff.mp hnew
  have hresult : (r.queries.submit request).result? request = none :=
    result?_eq_none_iff.mpr fun hdone => hmem (List.mem_append_right _ hdone)
  cases trades.polled hasks with
  | pending _ hholder hqueries =>
    refine ⟨hholder, ?_⟩
    rw [hqueries, QueryBoard.standing, hresult]
    exact if_pos (by simp [QueryBoard.submit])
  | complete hsome _ _ => cases hresult.symm.trans hsome

/-! ### Several agents -/

section Fair

variable {ι : Type} [DecidableEq ι] {holders : ι → Option QueryRequest} {i : ι}

theorem Polled.fair (polled : Polled request board r') (fair : Fair holders board) (hi : holders i = some request) :
    Fair (Function.update holders i r'.holder) r'.queries := by
  cases polled with
  | pending _ hholder hqueries =>
    rw [hqueries, hholder, ← hi, Function.update_eq_self]
    exact fair
  | complete hresult hholder hqueries =>
    rw [hqueries, hholder]
    exact fair.release hi requests_forget_sublist fun other => mem_requests_forget fair.clear hresult

/-- The mailbox stays fair as long as nobody asks what somebody else waits for. -/
theorem Trades.fair (trades : r.Trades p index r') (fair : Fair holders r.queries) (hi : holders i = r.holder)
    (hnew : ∀ request, r.asks? p index = some request → ∀ j, holders j ≠ some request) :
    Fair (Function.update holders i r'.holder) r'.queries := by
  cases trades with
  | nothing _ hholder hqueries =>
    rw [hqueries, hholder, ← hi, Function.update_eq_self]
    exact fair
  | poll hholder _ polled => exact polled.fair fair (hi.trans hholder)
  | @ask request hasks polled =>
    have hidle := hi.trans (asks?_eq_some_iff.mp hasks).1
    have submitted := fair.submit hidle (hnew request hasks)
    simpa using polled.fair submitted (Function.update_self i (some request) holders)
  | withdraw hholder hnone hqueries _ =>
    rw [hqueries, hnone]
    exact fair.release (hi.trans hholder) requests_cancel_sublist fun other => mem_requests_cancel

end Fair

end Roster

end BehaviorTree
