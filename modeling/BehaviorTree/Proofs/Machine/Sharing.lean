import BehaviorTree.Proofs.Machine.QuerySlot
import BehaviorTree.Proofs.Machine.Trades

/-! Agents that share a mailbox. A request carries the id of a lane but not the agent to which the lane belongs, and
every agent counts its lanes from zero. As long as no agent asks a request for which another one waits, agents do not
notice each other: what the mailbox says of a request depends on workers alone until its own agent takes the results
or withdraws it. Two agents that wait for the same request are one to the mailbox, and take each other's results. -/

namespace BehaviorTree

open Refusal QueryBoard

/-- Agents, and the mailbox that they share. -/
structure Crowd (ι : Type) where
  agents : ι → Agent
  board : QueryBoard

namespace Act

variable {p : Program} {index : Nat} {t t' : Tick QueryBoard}

theorem write_leads (slot : VarSlot) (value : Constant) (t : Tick QueryBoard) :
    (write slot value).Leads t fun _ t' => slot.write value t.world.blackboard = .ok t'.world.blackboard := by
  refine .onWorld fun world h => ?_
  obtain ⟨board, hboard, rfl⟩ := map_eq_ok_iff.mp h
  exact hboard

/-- Results that are there are written by the query that looks for them. -/
theorem polls_writes (frame : Frame) {result : VarSlot} {request : QueryRequest} {count : UInt32}
    (hresult : t.world.queries.result? request = some count) :
    (do
      match ← poll request with
      | .complete count =>
        write result (queryResult result.type count)
        setHolder none
        finish p index frame.node
        return .goOn
      | .pending =>
        emit p index frame.node .wait
        return .suspend : Act QueryBoard Outcome).Leads t fun _ t' =>
      result.write (queryResult result.type count) t.world.blackboard = .ok t'.world.blackboard := by
  have hpoll : poll request t = .ok (.complete count,
      { t with world := { t.world with queries := t.world.queries.forget request } }) := by
    show Except.ok ((QuerySystem.poll t.world.queries _).1, { t with world := { t.world with queries := _ } }) = _
    rw [show QuerySystem.poll t.world.queries request = t.world.queries.poll request from rfl, QueryBoard.poll, hresult]
  refine .bind_of_eq hpoll (.seq (write_leads _ _ _) fun _ v hwrite => ?_)
  have hrest : (do setHolder none; finish p index frame.node; return .goOn : Act QueryBoard Outcome).Inner :=
    (Inner.setHolder none).bind fun _ => (Inner.finish p index frame.node).bind fun _ => .pure _
  refine (hrest v).mono fun _ t' hworld => ?_
  rw [show t'.world = v.world from hworld]
  exact hwrite

theorem query_writes {frame : Frame} {id : UInt16} {result : VarSlot} {lane : Lane} {count : UInt32}
    (hlane : Act.lane index t = .ok (lane, t)) (hholder : t.agent.holder = some ⟨id, lane.id⟩ ∨ t.agent.holder = none)
    (hresult : t.world.queries.result? ⟨id, lane.id⟩ = some count) :
    (query p index frame id result).Leads t fun _ t' =>
      result.write (queryResult result.type count) t.world.blackboard = .ok t'.world.blackboard := by
  refine .bind_of_eq hlane (.bind_of_eq rfl ?_)
  dsimp only
  obtain hself | hidle := hholder
  · rw [hself, if_neg (by simp), if_neg (by simp)]
    exact polls_writes frame hresult
  · rw [hidle, if_neg (by simp), if_pos Option.isNone_none]
    refine .bind_of_eq rfl (.seq (Inner.setChildIndex index 1 _) fun _ v hworld => .bind_of_eq rfl ?_)
    have hworld : v.world = t.world := hworld
    rw [← show v.world.blackboard = t.world.blackboard by rw [hworld]]
    refine polls_writes frame ?_
    show (v.world.queries.submit _).result? _ = _
    rw [hworld]
    exact hresult

/-- The same for a step of the lane that has the query on top. -/
theorem step_writes (steady : t.Steady p) (orderly : t.roster.Orderly)
    (h : index < t.agent.lanes.lanes.size) {rootVisited : Bool} {k : Kin} {frame : Frame} {request : QueryRequest}
    {result : VarSlot} {count : UInt32} (top : t.roster.Top p index k frame (.query request.query result))
    (hid : k.id = request.lane) (hholder : t.agent.holder = some request ∨ t.agent.holder = none)
    (hresult : t.world.queries.result? request = some count) :
    (step p index rootVisited).Leads t fun _ t' =>
      result.write (queryResult result.type count) t.world.blackboard = .ok t'.world.blackboard := by
  have shown := steady.shows orderly h
  obtain ⟨lane, hlane, hlaneId, -⟩ := shown.lane_of top.lane
  have htop : t.agent.lanes.top? index = .ok (some frame) := (shown.top?_of top.lane).trans (congrArg Except.ok top.last)
  have hrequest : (⟨request.query, lane.id⟩ : QueryRequest) = request := by rw [hlaneId, hid]
  have hwrites : (query p index frame request.query result).Leads t fun _ t' =>
      result.write (queryResult result.type count) t.world.blackboard = .ok t'.world.blackboard :=
    query_writes hlane (hrequest.symm ▸ hholder) (hrequest.symm ▸ hresult)
  unfold Leads Ensures at hwrites ⊢
  rwa [step_eq h htop top.known]

end Act

/-- An agent that can make steps, and waits for a lane that it had. -/
structure Agent.Minded (p : Program) (agent : Agent) : Prop extends agent.Ready p where
  given : ∀ request, agent.holder = some request → request.lane < agent.nextLane

namespace Agent.Minded

variable {p : Program} {index : Nat} {t t' : Tick QueryBoard}

theorem new (valid : p.Valid) {capacity block : Nat} {agent : Agent} (h : Agent.new capacity block = .ok agent) :
    agent.Minded p :=
  ⟨.new valid h, by simp [(Agent.empty_of_new h).2]⟩

theorem begin (valid : p.Valid) (suits : t.world.Suits p) (hnone : t.agent.lanes.lanes = #[])
    (minded : t.agent.Minded p) (h : Act.createPrimary t = .ok ((), t')) :
    t'.agent.Minded p ∧ t'.agent.holder = t.agent.holder ∧ t'.world = t.world := by
  obtain ⟨ready, hroster⟩ := Agent.Ready.begin valid suits hnone h
  have hholder : t'.agent.holder = t.agent.holder := congrArg Roster.holder hroster
  have hnext : t'.agent.nextLane = t.agent.nextLane + 1 := congrArg Roster.next hroster
  refine ⟨⟨ready, fun request hrequest => ?_⟩, hholder, (Act.Inner.createPrimary t).of_ok h⟩
  rw [hnext]
  exact Nat.lt_succ_of_lt (minded.given request (hholder ▸ hrequest))

/-- Every step is one of the trades. -/
theorem step (valid : p.Valid) (suits : t.world.Suits p) (minded : t.agent.Minded p)
    (h : index < t.agent.lanes.lanes.size) {rootVisited : Bool} {outcome : Outcome}
    (hstep : Act.step p index rootVisited t = .ok (outcome, t')) :
    t'.agent.Minded p ∧ t.roster.Trades p index t'.roster := by
  obtain ⟨ready, moves⟩ := minded.toReady.step valid suits h hstep
  have orderly := (minded.tick suits).2
  have trades := moves.trades minded.given
  refine ⟨⟨ready, fun request hrequest => ?_⟩, trades⟩
  have hnext : t.agent.nextLane ≤ t'.agent.nextLane := moves.ids.1
  have hlater (hholder : t.agent.holder = some request) : request.lane < t'.agent.nextLane :=
    Nat.lt_of_lt_of_le (minded.given request hholder) hnext
  cases trades with
  | nothing _ hholder _ => exact hlater (hholder.symm.trans hrequest)
  | poll hholder _ polled =>
    cases polled with
    | pending _ hkept _ => exact hlater ((hholder.trans hkept.symm).trans hrequest)
    | complete _ hnone _ => cases hnone.symm.trans hrequest
  | ask hasks polled =>
    obtain ⟨-, k, frame, result, top, hid⟩ := Roster.asks?_eq_some_iff.mp hasks
    cases polled with
    | pending _ hkept _ =>
      obtain rfl := Option.some.inj (hkept.symm.trans hrequest)
      exact hid ▸ Nat.lt_of_lt_of_le (orderly.fresh k (List.mem_of_getElem? top.lane)) hnext
    | complete _ hnone _ => cases hnone.symm.trans hrequest
  | withdraw _ hnone _ _ => cases hnone.symm.trans hrequest

end Agent.Minded

namespace Crowd

variable {ι : Type}

/-- The requests for which agents wait. -/
def holders (c : Crowd ι) (i : ι) : Option QueryRequest :=
  (c.agents i).holder

/-- Another agent waits for the request. -/
def Taken (c : Crowd ι) (i : ι) (request : QueryRequest) : Prop :=
  ∃ j, j ≠ i ∧ c.holders j = some request

/-- An agent of the crowd in a tick, with whatever memory its program has. -/
structure Shows (c : Crowd ι) (p : Program) (i : ι) (t : Tick QueryBoard) : Prop where
  agent : t.agent = c.agents i
  board : t.world.queries = c.board
  suits : t.world.Suits p

/-- Nothing has happened yet. -/
structure New (c : Crowd ι) : Prop where
  agents : ∀ i, ∃ capacity block, Agent.new capacity block = .ok (c.agents i)
  board : c.board = .empty

inductive Event (ι : Type) where
  | acts (i : ι)
  | complete (request : QueryRequest) (count : UInt32)

variable [DecidableEq ι]

/-- The crowd after something that an agent did. -/
def put (c : Crowd ι) (i : ι) (t : Tick QueryBoard) : Crowd ι :=
  ⟨Function.update c.agents i t.agent, t.world.queries⟩

/-- What happens next: an agent gets its primary lane, a lane of an agent makes a step, or a worker resolves a
request. No agent asks what another one waits for. -/
inductive Next (p : ι → Program) (c : Crowd ι) : Event ι → Crowd ι → Prop
  | begin {i : ι} {t t' : Tick QueryBoard} (shows : c.Shows (p i) i t) (hnone : t.agent.lanes.lanes = #[])
    (h : Act.createPrimary t = .ok ((), t')) : Next p c (.acts i) (c.put i t')
  | step {i : ι} {t t' : Tick QueryBoard} {index : Nat} {rootVisited : Bool} {outcome : Outcome}
    (shows : c.Shows (p i) i t) (hindex : index < t.agent.lanes.lanes.size)
    (h : Act.step (p i) index rootVisited t = .ok (outcome, t'))
    (apart : ∀ request, t.roster.asks? (p i) index = some request → ¬ c.Taken i request) :
    Next p c (.acts i) (c.put i t')
  | complete (request : QueryRequest) (count : UInt32) :
    Next p c (.complete request count) ⟨c.agents, c.board.complete request count⟩

/-- One event after the other. -/
inductive Runs (p : ι → Program) (c : Crowd ι) : List (Event ι) → Crowd ι → Prop
  | nil : Runs p c [] c
  | snoc {events : List (Event ι)} {event : Event ι} {c' c'' : Crowd ι} (runs : Runs p c events c')
    (next : Next p c' event c'') : Runs p c (events ++ [event]) c''

/-- What the mailbox says of a request for which an agent waits. -/
def advance (request : QueryRequest) (status : Option QueryStatus) : Event ι → Option QueryStatus
  | .acts _ => status
  | .complete other count => if other = request ∧ status = some .pending then some (.complete count) else status

/-- In a step of its agent a request leaves the mailbox: its results are written where the query says, or the
lane that asked it goes. -/
structure Released (p : Program) (request : QueryRequest) (t t' : Tick QueryBoard) : Prop where
  step : ∃ index rootVisited outcome, Act.step p index rootVisited t = .ok (outcome, t')
  idle : t'.agent.holder = none
  gone : t'.world.queries.standing request = none
  reason : (∃ id result count, p.node? id = some (.query request.query result) ∧
      t.world.queries.standing request = some (.complete count) ∧
      result.write (Act.queryResult result.type count) t.world.blackboard = .ok t'.world.blackboard) ∨
    ∀ v ∈ t'.agent.lanes.view, v.id ≠ request.lane

/-- What becomes of a request for which an agent waits: only workers change what the mailbox says of it, until the
agent releases it. -/
inductive Fares (p : ι → Program) (c : Crowd ι) (i : ι) (request : QueryRequest) (events : List (Event ι))
    (c' : Crowd ι) : Prop
  | waits (hholder : c'.holders i = some request)
    (hstanding : c'.board.standing request = events.foldl (advance request) (c.board.standing request))
  | released {before after : List (Event ι)} {c₁ : Crowd ι} {t t' : Tick QueryBoard}
    (hevents : events = before ++ .acts i :: after) (runs : Runs p c before c₁) (hholder : c₁.holders i = some request)
    (hstanding : c₁.board.standing request = before.foldl (advance request) (c.board.standing request))
    (shows : c₁.Shows (p i) i t) (released : Released (p i) request t t') (later : Runs p (c₁.put i t') after c')

/-- All agents can make steps, and the mailbox holds what they wait for. -/
structure Ready (p : ι → Program) (c : Crowd ι) : Prop where
  agents : ∀ i, (c.agents i).Minded (p i)
  fair : Fair c.holders c.board

variable {p : ι → Program} {c c' : Crowd ι} {i : ι} {t t' : Tick QueryBoard} {index : Nat} {rootVisited : Bool}
  {outcome : Outcome} {request : QueryRequest} {event : Event ι} {events : List (Event ι)}

theorem holders_put (c : Crowd ι) (i : ι) (t : Tick QueryBoard) :
    (c.put i t).holders = Function.update c.holders i t.agent.holder := by
  funext j
  by_cases hj : j = i
  · subst hj
    simp [holders, put]
  · simp [holders, put, hj]

theorem put_put (c : Crowd ι) (i : ι) (t t' : Tick QueryBoard) : (c.put i t).put i t' = c.put i t' := by
  simp [put]

theorem taken_put (c : Crowd ι) (i : ι) (t : Tick QueryBoard) (request : QueryRequest) :
    (c.put i t).Taken i request ↔ c.Taken i request := by
  refine exists_congr fun j => and_congr_right fun hj => ?_
  rw [holders_put, Function.update_of_ne hj]

omit [DecidableEq ι] in
theorem Shows.holder (shows : c.Shows (p i) i t) : c.holders i = t.roster.holder :=
  (congrArg Agent.holder shows.agent).symm

theorem Shows.put (shows : c.Shows (p i) i t) : c.put i t = c := by
  obtain ⟨agents, board⟩ := c
  obtain ⟨hagent, hboard, -⟩ := shows
  simp only [Crowd.put, hagent, hboard, Function.update_eq_self]

omit [DecidableEq ι] in
theorem New.ready (new : c.New) (valid : ∀ i, (p i).Valid) : Ready p c where
  agents i := by
    obtain ⟨capacity, block, h⟩ := new.agents i
    exact .new (valid i) h
  fair := by
    have hidle (i : ι) : c.holders i = none := by
      obtain ⟨capacity, block, h⟩ := new.agents i
      exact (Agent.empty_of_new h).2
    rw [new.board]
    refine ⟨List.nodup_nil, fun request => ?_, fun i j request hi => ?_⟩
    · simp [hidle, requests, QueryBoard.empty]
    · cases (hidle i).symm.trans hi

namespace Ready

omit [DecidableEq ι] in
theorem tick (ready : Ready p c) (shows : c.Shows (p i) i t) : t.agent.Minded (p i) :=
  shows.agent ▸ ready.agents i

theorem put (ready : Ready p c) (agent : t'.agent.Minded (p i))
    (fair : Fair (Function.update c.holders i t'.agent.holder) t'.world.queries) : Ready p (c.put i t') where
  agents j := by
    by_cases hj : j = i
    · subst hj
      simpa [Crowd.put] using agent
    · simpa [Crowd.put, hj] using ready.agents j
  fair := (holders_put c i t').symm ▸ fair

omit [DecidableEq ι] in
/-- A request that an agent asks is new to the mailbox if nobody else waits for it. -/
theorem new_request (shows : c.Shows (p i) i t) (hasks : t.roster.asks? (p i) index = some request)
    (apart : ¬ c.Taken i request) (j : ι) : c.holders j ≠ some request := by
  intro hj
  by_cases hji : j = i
  · subst hji
    cases (shows.holder.trans (Roster.asks?_eq_some_iff.mp hasks).1).symm.trans hj
  · exact apart ⟨j, hji, hj⟩

theorem next (valid : ∀ i, (p i).Valid) (ready : Ready p c) (next : Next p c event c') : Ready p c' := by
  cases next with
  | @begin i t t' shows hnone h =>
    obtain ⟨begun, hholder, hworld⟩ := (ready.tick shows).begin (valid i) shows.suits hnone h
    refine ready.put begun ?_
    rw [hholder, hworld, shows.agent, shows.board, show (c.agents i).holder = c.holders i from rfl,
      Function.update_eq_self]
    exact ready.fair
  | @step i t t' index rootVisited outcome shows hindex h apart =>
    obtain ⟨settled, trades⟩ := (ready.tick shows).step (valid i) shows.suits hindex h
    have fair : Fair c.holders t.roster.queries := by
      rw [show t.roster.queries = c.board from shows.board]
      exact ready.fair
    refine ready.put settled (trades.fair fair shows.holder fun request hasks j => ?_)
    exact new_request shows hasks (apart request hasks) j
  | complete request count => exact ⟨ready.agents, ready.fair.complete request count⟩

theorem runs (valid : ∀ i, (p i).Valid) (ready : Ready p c) (runs : Runs p c events c') : Ready p c' := by
  induction runs with
  | nil => exact ready
  | snoc _ next ih => exact ih.next valid next

omit [DecidableEq ι] in
theorem fair_tick (ready : Ready p c) (shows : c.Shows (p i) i t) : Fair c.holders t.roster.queries := by
  rw [show t.roster.queries = c.board from shows.board]
  exact ready.fair

omit [DecidableEq ι] in
/-- Whatever an agent does, the requests of others stay as they are. -/
theorem others (valid : ∀ i, (p i).Valid) (ready : Ready p c) (shows : c.Shows (p i) i t)
    (hindex : index < t.agent.lanes.lanes.size) (h : Act.step (p i) index rootVisited t = .ok (outcome, t'))
    (apart : ∀ request, t.roster.asks? (p i) index = some request → ¬ c.Taken i request)
    (htaken : c.Taken i request) : t'.world.queries.standing request = c.board.standing request := by
  have trades := ((ready.tick shows).step (valid i) shows.suits hindex h).2
  obtain ⟨j, hji, hj⟩ := htaken
  have hheld : t.roster.holder ≠ some request := fun hi =>
    hji (ready.fair.apart j i request hj (shows.holder.trans hi))
  have hstanding := trades.standing hheld fun hasks => apart request hasks ⟨j, hji, hj⟩
  rwa [show t.roster.queries = c.board from shows.board] at hstanding

omit [DecidableEq ι] in
/-- The request for which an agent waits goes on waiting as it is, or leaves the mailbox. -/
theorem own (valid : ∀ i, (p i).Valid) (ready : Ready p c) (shows : c.Shows (p i) i t)
    (hindex : index < t.agent.lanes.lanes.size) (h : Act.step (p i) index rootVisited t = .ok (outcome, t'))
    (hholder : c.holders i = some request) :
    t'.agent.holder = some request ∧ t'.world.queries.standing request = c.board.standing request ∨
      Released (p i) request t t' := by
  have agent := ready.tick shows
  have trades := (agent.step (valid i) shows.suits hindex h).2
  have hheld : t.roster.holder = some request := shows.holder.symm.trans hholder
  cases trades.fate (ready.fair_tick shows).clear hheld with
  | waits hkept hstanding => exact .inl ⟨hkept, hstanding.trans (congrArg (standing · request) shows.board)⟩
  | @delivered count hstanding asker hidle hgone =>
    obtain ⟨k, frame, result, top, hid⟩ := asker
    refine .inr ⟨⟨_, _, _, h⟩, hidle, hgone, .inl ⟨_, result, count, top.known, hstanding, ?_⟩⟩
    have hresult := standing_eq_complete_iff.mp hstanding
    obtain ⟨steady, orderly⟩ := agent.tick shows.suits
    exact (Act.step_writes steady orderly hindex top hid (.inl hheld) hresult).of_ok h
  | withdrawn hlane hidle hgone =>
    refine .inr ⟨⟨_, _, _, h⟩, hidle, hgone, .inr fun v hv => ?_⟩
    exact hlane _ (List.mem_map_of_mem hv)

omit [DecidableEq ι] in
/-- What an agent asks is pending. -/
theorem asked (valid : ∀ i, (p i).Valid) (ready : Ready p c) (shows : c.Shows (p i) i t)
    (hindex : index < t.agent.lanes.lanes.size) (h : Act.step (p i) index rootVisited t = .ok (outcome, t'))
    (hasks : t.roster.asks? (p i) index = some request) (apart : ¬ c.Taken i request) :
    t'.agent.holder = some request ∧ t'.world.queries.standing request = some .pending := by
  have trades := ((ready.tick shows).step (valid i) shows.suits hindex h).2
  refine trades.asked hasks (standing_eq_none_iff.mpr fun hmem => ?_)
  obtain ⟨j, hj⟩ := ((ready.fair_tick shows).held request).mp hmem
  exact new_request shows hasks apart j hj

/-- An event of the crowd leaves the request of an agent to workers, or it is a step in which the agent releases it. -/
theorem follow (valid : ∀ i, (p i).Valid) (ready : Ready p c) (next : Next p c event c')
    (hholder : c.holders i = some request) :
    c'.holders i = some request ∧ c'.board.standing request = advance request (c.board.standing request) event ∨
      ∃ t t', event = .acts i ∧ c.Shows (p i) i t ∧ c' = c.put i t' ∧ Released (p i) request t t' := by
  have hother {j : ι} {t' : Tick QueryBoard} (hj : i ≠ j) : (c.put j t').holders i = some request := by
    rw [holders_put, Function.update_of_ne hj]
    exact hholder
  cases next with
  | @begin j t t' shows hnone h =>
    obtain ⟨-, hkept, hworld⟩ := (ready.tick shows).begin (valid j) shows.suits hnone h
    refine .inl ⟨?_, congrArg (standing · request) ?_⟩
    · rw [holders_put, hkept, ← show c.holders j = t.agent.holder from shows.holder, Function.update_eq_self]
      exact hholder
    · exact (congrArg World.queries hworld).trans shows.board
  | @step j t t' index rootVisited outcome shows hindex h apart =>
    by_cases hj : i = j
    · subst hj
      obtain ⟨hkept, hstanding⟩ | released := ready.own valid shows hindex h hholder
      · exact .inl ⟨by rw [holders_put, Function.update_self, hkept], hstanding⟩
      · exact .inr ⟨t, t', rfl, shows, rfl, released⟩
    · exact .inl ⟨hother hj, ready.others valid shows hindex h apart ⟨i, hj, hholder⟩⟩
  | complete other count => exact .inl ⟨hholder, standing_complete_eq ready.fair.clear other count request⟩

end Ready

theorem Runs.trans {events' : List (Event ι)} {c'' : Crowd ι} (runs : Runs p c events c')
    (later : Runs p c' events' c'') : Runs p c (events ++ events') c'' := by
  induction later with
  | nil => rwa [List.append_nil]
  | snoc _ next ih =>
    rw [← List.append_assoc]
    exact ih.snoc next

/-- As long as an agent waits, its request stays in the mailbox. -/
theorem Runs.fares (valid : ∀ i, (p i).Valid) (ready : Ready p c) (runs : Runs p c events c')
    (hholder : c.holders i = some request) : Fares p c i request events c' := by
  induction runs with
  | nil => exact .waits hholder rfl
  | @snoc events event c' c'' runs next ih =>
    cases ih with
    | waits hwaits hstanding =>
      obtain ⟨hkept, hstanding'⟩ | ⟨t, t', rfl, shows, rfl, released⟩ := (ready.runs valid runs).follow valid next hwaits
      · refine .waits hkept ?_
        rw [hstanding', hstanding, List.foldl_append]
        rfl
      · exact .released rfl runs hwaits hstanding shows released .nil
    | released hevents hbefore hwaits hstanding shows released later =>
      refine .released ?_ hbefore hwaits hstanding shows released (later.snoc next)
      rw [hevents, List.append_assoc, List.cons_append]

/-! ### Ticks -/

/-- A tick in which the agent does not ask what another one waits for is a run of the crowd. -/
theorem Ready.runs_tick (valid : ∀ i, (p i).Valid) (ready : Ready p c) {world : World QueryBoard}
    (hboard : world.queries = c.board) {maxCycles : Nat}
    (apart : ∀ index u request, (p i).Visits maxCycles (c.agents i) world index u →
      u.roster.asks? (p i) index = some request → ¬ c.Taken i request)
    (htick : (p i).tick maxCycles (c.agents i) world = .ok t') :
    ∃ events, Runs p c events (c.put i t') ∧ ∀ event ∈ events, event = .acts i := by
  have suits := World.suits_of_check (unit_bind_eq_ok_iff.mp htick).1
  have shows : c.Shows (p i) i ⟨c.agents i, world, 0, #[]⟩ := ⟨rfl, hboard, suits⟩
  have hnil : Runs p c [] (c.put i ⟨c.agents i, world, 0, #[]⟩) := by
    rw [shows.put]
    exact .nil
  let inv (u : Tick QueryBoard) : Prop := ∃ events, Runs p c events (c.put i u) ∧ ∀ event ∈ events, event = .acts i
  show inv t'
  refine Program.tick_visited (valid i) (fun _ _ hinv => hinv) ?_ (ready.agents i).steady ⟨[], hnil, by simp⟩ ?_ htick
  · rintro index rootVisited outcome u u' visits ⟨events, runs, hacts⟩ steady hindex hstep
    have hshows : (c.put i u).Shows (p i) i { u with cycle := u.cycle + 1 } :=
      ⟨(Function.update_self i u.agent c.agents).symm, rfl, steady.suits⟩
    have hnext : Next p (c.put i u) (.acts i) ((c.put i u).put i u') :=
      .step hshows hindex hstep fun request hasks htaken =>
        apart index u request visits hasks ((taken_put c i u request).mp htaken)
    refine ⟨events ++ [.acts i], put_put c i u u' ▸ runs.snoc hnext, fun event hevent => ?_⟩
    obtain hold | hnew := List.mem_append.mp hevent
    · exact hacts event hold
    · exact List.mem_singleton.mp hnew
  · intro u hnone h
    exact ⟨[.acts i], Runs.nil.snoc (.begin shows hnone h), by simp⟩

/-! ### Requests that two agents make -/

namespace Ready

omit [DecidableEq ι] in
/-- The results of a request go to whoever asks the same when they are there. -/
theorem takes (valid : ∀ i, (p i).Valid) (ready : Ready p c) (shows : c.Shows (p i) i t)
    (hindex : index < t.agent.lanes.lanes.size) (h : Act.step (p i) index rootVisited t = .ok (outcome, t'))
    (hasks : t.roster.asks? (p i) index = some request) {count : UInt32}
    (hstanding : c.board.standing request = some (.complete count)) :
    t'.agent.holder = none ∧ t'.world.queries.standing request = some .pending ∧
      ∃ id result, (p i).node? id = some (.query request.query result) ∧
        result.write (Act.queryResult result.type count) t.world.blackboard = .ok t'.world.blackboard := by
  have agent := ready.tick shows
  have trades := (agent.step (valid i) shows.suits hindex h).2
  have hresult : t.world.queries.result? request = some count :=
    shows.board ▸ standing_eq_complete_iff.mp hstanding
  obtain ⟨hidle, k, frame, result, top, hid⟩ := Roster.asks?_eq_some_iff.mp hasks
  obtain ⟨hnone, hqueries⟩ : t'.roster.holder = none ∧ t'.roster.queries = (t.world.queries.submit request).forget request := by
    cases trades.polled hasks with
    | pending hno _ _ => cases (show t.world.queries.result? request = none from hno).symm.trans hresult
    | complete _ hnone hqueries => exact ⟨hnone, hqueries⟩
  refine ⟨hnone, ?_, _, result, top.known, ?_⟩
  · rw [show t'.world.queries = _ from hqueries, standing, result?_forget, if_pos rfl]
    exact if_pos (by simp [QueryBoard.submit, QueryBoard.forget])
  · obtain ⟨steady, orderly⟩ := agent.tick shows.suits
    exact (Act.step_writes steady orderly hindex top hid (.inr hidle) hresult).of_ok h

omit [DecidableEq ι] in
/-- Two agents wait for one pending request. Whatever workers answer first is lost, and the second answer is
delivered once. -/
theorem doubles (valid : ∀ i, (p i).Valid) (ready : Ready p c) (shows : c.Shows (p i) i t)
    (hindex : index < t.agent.lanes.lanes.size) (h : Act.step (p i) index rootVisited t = .ok (outcome, t'))
    (hasks : t.roster.asks? (p i) index = some request) (hstanding : c.board.standing request = some .pending) :
    t'.agent.holder = some request ∧ ∀ first second,
      ∃ left, ((t'.world.queries.complete request first).complete request second).poll request =
        (.complete second, left) ∧ left.standing request = none := by
  have trades := ((ready.tick shows).step (valid i) shows.suits hindex h).2
  have clear := ready.fair.clear
  have hmem := (standing_eq_pending_iff clear).mp hstanding
  rw [← shows.board] at clear hmem
  cases trades.polled hasks with
  | pending _ hholder hqueries =>
    refine ⟨hholder, fun first second => ?_⟩
    rw [show t'.world.queries = _ from hqueries]
    exact poll_twice clear hmem first second
  | complete hresult _ _ =>
    cases (result?_eq_none_of_mem clear hmem).symm.trans hresult

end Ready

/-- Agents with one mailbox. Unless an agent asks what another one waits for, the mailbox holds just the requests for
which agents wait, each once; what it says of a request depends on workers alone until the agent that made it takes
the results or withdraws it. An agent that does ask it takes results meant for the other, or shares its answers. -/
theorem shared_mailbox (accepted : ∀ i, (p i).validate = .ok ()) {c₀ : Crowd ι} (new : c₀.New)
    (runs : Runs p c₀ events c) :
    Fair c.holders c.board ∧
    (∀ i request later c', c.holders i = some request → Runs p c later c' → Fares p c i request later c') ∧
    (∀ i t t' index rootVisited outcome request, c.Shows (p i) i t → index < t.agent.lanes.lanes.size →
      Act.step (p i) index rootVisited t = .ok (outcome, t') → t.roster.asks? (p i) index = some request →
      (¬ c.Taken i request → t'.agent.holder = some request ∧ t'.world.queries.standing request = some .pending) ∧
      (∀ count, c.board.standing request = some (.complete count) →
        t'.agent.holder = none ∧ t'.world.queries.standing request = some .pending ∧
        ∃ id result, (p i).node? id = some (.query request.query result) ∧
          result.write (Act.queryResult result.type count) t.world.blackboard = .ok t'.world.blackboard) ∧
      (c.board.standing request = some .pending → t'.agent.holder = some request ∧ ∀ first second,
        ∃ left, ((t'.world.queries.complete request first).complete request second).poll request =
          (.complete second, left) ∧ left.standing request = none)) ∧
    ∀ i world maxCycles t', world.queries = c.board →
      (∀ index u request, (p i).Visits maxCycles (c.agents i) world index u →
        u.roster.asks? (p i) index = some request → ¬ c.Taken i request) →
      (p i).tick maxCycles (c.agents i) world = .ok t' →
      ∃ turn, Runs p c turn (c.put i t') ∧ ∀ event ∈ turn, event = .acts i := by
  have valid (i : ι) : (p i).Valid := Program.validate_eq_ok_iff.mp (accepted i)
  have ready : Ready p c := (new.ready valid).runs valid runs
  refine ⟨ready.fair, fun i request later c' hholder later => later.fares valid ready hholder, ?_, ?_⟩
  · intro i t t' index rootVisited outcome request shows hindex h hasks
    exact ⟨ready.asked valid shows hindex h hasks, fun count => ready.takes valid shows hindex h hasks,
      ready.doubles valid shows hindex h hasks⟩
  · intro i world maxCycles t' hboard apart htick
    exact ready.runs_tick valid hboard apart htick

/-- Two agents that ask different queries. -/
def askers : Bool → Program
  | false => Program.asker
  | true => { Program.asker with
    entries := #[.ofNode .nop, .ofNode (.root ⟨2⟩), .ofNode (.query 8 ⟨0, .bool⟩)] }

/-- The primary lanes of both have the same id. -/
def begun (b : Bool) (board : QueryBoard) : Tick QueryBoard :=
  Act.createPrimary.reached ⟨.fresh, .blank (askers b) (Memory.zeros 1) board, 0, #[]⟩

def entered (b : Bool) (board : QueryBoard) : Tick QueryBoard :=
  (Act.step (askers b) 0 false).reached (begun b board)

def waiting (b : Bool) (board : QueryBoard) : Tick QueryBoard :=
  (Act.step (askers b) 0 false).reached (entered b board)

/-- A new agent gets as far as asking its query. -/
theorem runs_waiting {c : Crowd Bool} (b : Bool) (hfresh : c.agents b = .fresh) (hdone : c.board.done = [])
    (apart : ¬ c.Taken b ⟨if b then 8 else 7, 0⟩) :
    Runs askers c [.acts b, .acts b, .acts b] (c.put b (waiting b c.board)) := by
  obtain ⟨agents, ⟨pending, done⟩⟩ := c
  obtain rfl : done = [] := hdone
  set c : Crowd Bool := ⟨agents, ⟨pending, []⟩⟩
  have hbegin : Runs askers c [.acts b] (c.put b (begun b ⟨pending, []⟩)) := by
    have hcreate : Act.createPrimary ⟨.fresh, .blank (askers b) (Memory.zeros 1) ⟨pending, []⟩, 0, #[]⟩ =
        .ok ((), begun b ⟨pending, []⟩) := by cases b <;> cbv
    exact .snoc .nil (.begin ⟨hfresh.symm, rfl, World.suits_of_check (by cases b <;> cbv)⟩ rfl hcreate)
  have hstep {u u' : Tick QueryBoard} {outcome : Outcome} {events : List (Event Bool)}
      (runs : Runs askers c events (c.put b u)) (hcheck : u.world.check (askers b) = .ok ())
      (hsize : 0 < u.agent.lanes.lanes.size) (h : Act.step (askers b) 0 false u = .ok (outcome, u'))
      (apart : ∀ request, u.roster.asks? (askers b) 0 = some request → ¬ c.Taken b request) :
      Runs askers c (events ++ [.acts b]) (c.put b u') :=
    put_put c b u u' ▸ runs.snoc (.step ⟨(Function.update_self b u.agent agents).symm, rfl, World.suits_of_check hcheck⟩
      hsize h fun request hasks htaken => apart request hasks ((taken_put c b u request).mp htaken))
  have hfirst : (begun b ⟨pending, []⟩).roster.asks? (askers b) 0 = none := by cases b <;> cbv
  have hsecond : (entered b ⟨pending, []⟩).roster.asks? (askers b) 0 = some ⟨if b then 8 else 7, 0⟩ := by
    cases b <;> cbv
  have henter : Act.step (askers b) 0 false (begun b ⟨pending, []⟩) = .ok (.enterRoot, entered b ⟨pending, []⟩) := by
    cases b <;> cbv
  have hask : Act.step (askers b) 0 false (entered b ⟨pending, []⟩) = .ok (.suspend, waiting b ⟨pending, []⟩) := by
    cases b <;> cbv
  have entered := hstep hbegin (by cases b <;> cbv) (by cases b <;> cbv) henter fun request hasks => by
    cases hfirst.symm.trans hasks
  refine hstep entered (by cases b <;> cbv) (by cases b <;> cbv) hask fun request hasks => ?_
  rwa [← Option.some.inj (hsecond.symm.trans hasks)]

def askersStart : Crowd Bool :=
  ⟨fun _ => .fresh, .empty⟩

/-- First one agent asks, then the other. -/
def askersWaiting : Crowd Bool :=
  (askersStart.put false (waiting false .empty)).put true (waiting true ⟨[⟨7, 0⟩], []⟩)

/-- Both wait, each for its own results. -/
theorem shared_mailbox_askers : (∀ b, (askers b).validate = .ok ()) ∧ askersStart.New ∧
    Fair askersWaiting.holders askersWaiting.board ∧ askersWaiting.board.pending = [⟨7, 0⟩, ⟨8, 0⟩] ∧
    Fares askers askersWaiting false ⟨7, 0⟩ [.complete ⟨8, 0⟩ 1, .complete ⟨7, 0⟩ 5]
      ⟨askersWaiting.agents, ⟨[], [(⟨7, 0⟩, 5), (⟨8, 0⟩, 1)]⟩⟩ := by
  have accepted (b : Bool) : (askers b).validate = .ok () := by cases b <;> rfl
  have new : askersStart.New := ⟨fun _ => ⟨32, 8, rfl⟩, rfl⟩
  have runs : Runs askers askersStart _ askersWaiting :=
    (runs_waiting false rfl rfl (by rintro ⟨j, -, ⟨⟩⟩)).trans
      (runs_waiting true (by cbv) (by cbv) (by rintro ⟨⟨⟩ | ⟨⟩, hj, h⟩; exact absurd h (by decide +kernel); exact hj rfl))
  have later : Runs askers askersWaiting [.complete ⟨8, 0⟩ 1, .complete ⟨7, 0⟩ 5] _ :=
    .snoc (.snoc .nil (.complete ⟨8, 0⟩ 1)) (.complete ⟨7, 0⟩ 5)
  have shared := shared_mailbox accepted new runs
  exact ⟨accepted, new, shared.1, by cbv, shared.2.1 false ⟨7, 0⟩ _ _ (by cbv) later⟩

end Crowd

end BehaviorTree
