import BehaviorTree.Proofs.Machine.Slot

/-! The slot along runs. However the steps of an agent and the work on its mailbox interleave, the mailbox holds the
request of the slot and no other, and what is resolved for a request whose lane has gone is lost. -/

namespace BehaviorTree

open Refusal QueryBoard

/-- What may happen next to an agent and its mailbox: the agent gets its primary lane, one of its lanes makes a
step, in which workers may resolve requests too, or they do so between two steps. -/
inductive Program.Works (p : Program) : Agent × QueryBoard → Agent × QueryBoard → Prop
  | begin {σ : Type} [QuerySystem σ] (m : Behind σ) {t t' : Tick σ} (suits : t.world.Suits p)
    (hnone : t.agent.lanes.lanes = #[]) (h : Act.createPrimary t = .ok ((), t')) :
    Works p (t.agent, m.board t.world.queries) (t'.agent, m.board t'.world.queries)
  | step {σ : Type} [QuerySystem σ] (m : Behind σ) {t t' : Tick σ} {index : Nat} {rootVisited : Bool}
    {outcome : Outcome} (suits : t.world.Suits p) (hindex : index < t.agent.lanes.lanes.size)
    (h : Act.step p index rootVisited t = .ok (outcome, t')) :
    Works p (t.agent, m.board t.world.queries) (t'.agent, m.board t'.world.queries)
  | complete {agent : Agent} {board : QueryBoard} (request : QueryRequest) (count : UInt32) :
    Works p (agent, board) (agent, board.complete request count)

/-- An agent and its mailbox at some time after both were new. -/
inductive Program.Serves (p : Program) : Agent × QueryBoard → Prop
  | new {capacity block : Nat} {agent : Agent} (h : Agent.new capacity block = .ok agent) : Serves p (agent, .empty)
  | next {s s' : Agent × QueryBoard} (serves : Serves p s) (works : p.Works s s') : Serves p s'

/-- The mailbox holds the request of the slot and no other, and the lane that asked it waits for it. -/
structure Agent.InSlot (p : Program) (agent : Agent) (board : QueryBoard) : Prop where
  requests : board.requests = agent.holder.toList
  asked : ∀ request, agent.holder = some request → ∃ v ∈ agent.lanes.view, v.id = request.lane ∧
    ∃ frame result, v.frames.getLast? = some frame ∧ p.node? frame.node = some (.query request.query result)

namespace Program

variable {p : Program} {s s' : Agent × QueryBoard}

/-- The roster of an agent with its mailbox. -/
def slotRoster (s : Agent × QueryBoard) : Roster QueryBoard :=
  ⟨s.1.lanes.kin, s.1.holder, s.1.nextLane, s.2⟩

/-- The agent is steady, and the mailbox holds the request of its slot. -/
structure Slotted (p : Program) (s : Agent × QueryBoard) : Prop where
  steady : s.1.Steady p
  served : (slotRoster s).Served p alone

theorem Slotted.tick {σ : Type} [QuerySystem σ] {m : Behind σ} {t : Tick σ}
    (slotted : p.Slotted (t.agent, m.board t.world.queries)) : t.roster.Served p m :=
  slotted.served.same rfl rfl rfl rfl

theorem Slotted.works (valid : p.Valid) (slotted : p.Slotted s) (works : p.Works s s') : p.Slotted s' := by
  cases works with
  | @begin σ _ m t t' suits hnone h =>
    have hroster := ((Act.createPrimary_roster hnone).of_ok h).1
    have created : Act.createPrimary.Leads t fun _ t' => t'.Steady p ∧ t'.agent.lanes.lanes.size = 1 :=
      Act.createPrimary_ensures valid hnone suits (fun _ => trivial) fun _ => trivial
    have hempty : t.roster.lanes = [] := by simp [Tick.roster, LaneStack.kin, LaneStack.view, hnone]
    have begun : t'.roster.Served p m := hroster ▸ slotted.tick.begin hempty
    exact ⟨(created.of_ok h).1.toSteady, begun.same rfl rfl rfl rfl⟩
  | @step σ _ m t t' index rootVisited outcome suits hindex h =>
    have steady : t.Steady p := ⟨slotted.steady, suits⟩
    have moves := ((Act.step_moves valid steady slotted.tick.orderly hindex rootVisited).of_ok h).1
    refine ⟨(Act.step_settled valid steady hindex h).1.toSteady, ?_⟩
    exact (moves.served slotted.tick).same rfl rfl rfl rfl
  | complete request count =>
    refine ⟨slotted.steady, slotted.served.orderly.same rfl rfl, ?_, slotted.served.asked⟩
    exact slotted.served.board.complete request count

theorem Serves.slotted (valid : p.Valid) (serves : p.Serves s) : p.Slotted s := by
  induction serves with
  | @new capacity block agent h =>
    obtain ⟨hlanes, hholder⟩ := Agent.empty_of_new h
    have hempty : agent.lanes.kin = [] := by simp [LaneStack.kin, LaneStack.view, hlanes]
    refine ⟨(Reaches.new h).steady valid, ⟨⟨?_, ?_, ?_⟩, ?_, ?_⟩⟩
    all_goals simp [slotRoster, hempty, hholder]
    exact .free
  | next _ works ih => exact ih.works valid works

theorem Slotted.inSlot (slotted : p.Slotted s) : s.1.InSlot p s.2 where
  requests := slotted.served.board.requests
  asked request h := by
    obtain ⟨k, hk, hid, asks⟩ := slotted.served.asked request h
    obtain ⟨v, hv, rfl⟩ := List.mem_map.mp hk
    exact ⟨v, hv, hid, asks⟩

/-! ### Requests whose lane has gone -/

/-- No lane has the id, and none will get it. -/
structure Gone (id : LaneId) (agent : Agent) : Prop where
  given : id < agent.nextLane
  absent : ∀ v ∈ agent.lanes.view, v.id ≠ id

/-- A lane that waits has got its id. -/
theorem Slotted.given (slotted : p.Slotted s) {request : QueryRequest} (h : s.1.holder = some request) :
    request.lane < s.1.nextLane := by
  obtain ⟨k, hk, asks⟩ := slotted.served.asked request h
  exact asks.1 ▸ slotted.served.orderly.fresh k hk

/-- Ids are given once. -/
theorem Slotted.ids (valid : p.Valid) (slotted : p.Slotted s) (works : p.Works s s') :
    s.1.nextLane ≤ s'.1.nextLane ∧
      ∀ v ∈ s'.1.lanes.view, (∃ w ∈ s.1.lanes.view, w.id = v.id) ∨ s.1.nextLane ≤ v.id := by
  cases works with
  | @begin σ _ m t t' suits hnone h =>
    have hroster := ((Act.createPrimary_roster hnone).of_ok h).1
    have hnext : t'.agent.nextLane = t.agent.nextLane + 1 := congrArg Roster.next hroster
    refine ⟨hnext ▸ Nat.le_succ _, fun v hv => .inr ?_⟩
    have hmem : t'.agent.lanes.kinOf v ∈ t'.roster.lanes := List.mem_map_of_mem hv
    rw [hroster, Roster.begin, List.mem_singleton] at hmem
    have hid : v.id = t.agent.nextLane := congrArg Kin.id hmem
    exact Nat.le_of_eq hid.symm
  | @step σ _ m t t' index rootVisited outcome suits hindex h =>
    have moves := ((Act.step_moves valid ⟨slotted.steady, suits⟩ slotted.tick.orderly hindex rootVisited).of_ok h).1
    obtain ⟨hnext, ids⟩ := moves.ids
    refine ⟨hnext, fun v hv => ?_⟩
    obtain ⟨k, hk, hid⟩ | hnew := ids (t'.agent.lanes.kinOf v) (List.mem_map_of_mem hv)
    · obtain ⟨w, hw, rfl⟩ := List.mem_map.mp hk
      exact .inl ⟨w, hw, hid⟩
    · exact .inr hnew
  | complete request count => exact ⟨Nat.le_refl _, fun v hv => .inl ⟨v, hv, rfl⟩⟩

theorem Gone.works (valid : p.Valid) (slotted : p.Slotted s) {id : LaneId} (gone : Gone id s.1) (works : p.Works s s') :
    Gone id s'.1 := by
  obtain ⟨hnext, ids⟩ := slotted.ids valid works
  refine ⟨Nat.lt_of_lt_of_le gone.given hnext, fun v hv => ?_⟩
  obtain ⟨w, hw, hid⟩ | hnew := ids v hv
  · exact hid ▸ gone.absent w hw
  · exact (Nat.ne_of_lt (Nat.lt_of_lt_of_le gone.given hnew)).symm

/-- What is resolved for the request of a lane that has gone is lost. -/
theorem Gone.lost (slotted : p.Slotted s) {request : QueryRequest} (gone : Gone request.lane s.1) (count : UInt32) :
    s.1.holder ≠ some request ∧ s.2.complete request count = s.2 ∧ (s.2.poll request).1 = .pending := by
  have hother : s.1.holder ≠ some request := by
    intro h
    obtain ⟨v, hv, hid, -⟩ := slotted.inSlot.asked request h
    exact gone.absent v hv hid
  exact ⟨hother, slotted.served.board.complete_other hother count⟩

/-! ### Ticks -/

section Ticks

variable {σ : Type} [QuerySystem σ] {m : Behind σ}

/-- The agent and the mailbox in a tick. -/
def slotOf (m : Behind σ) (t : Tick σ) : Agent × QueryBoard :=
  (t.agent, m.board t.world.queries)

theorem serves_kept (p : Program) (m : Behind σ) : Tick.Kept p fun t => p.Serves (slotOf m t) where
  step serves steady hindex h := serves.next (.step m steady.suits hindex h)
  report _ _ serves := serves

theorem Serves.visits (valid : p.Valid) {agent : Agent} {world : World σ}
    (serves : p.Serves (agent, m.board world.queries)) (checked : world.check p = .ok ()) {maxCycles index : Nat}
    {u : Tick σ} (visits : p.Visits maxCycles agent world index u) : p.Serves (slotOf m u) := by
  have suits := World.suits_of_check checked
  exact (visits.kept valid (serves_kept p m) (serves.slotted valid).steady suits serves fun t hnone h =>
    serves.next (.begin m (t := ⟨agent, world, 0, #[]⟩) suits hnone h)).1

theorem Serves.tick (valid : p.Valid) {agent : Agent} {world : World σ}
    (serves : p.Serves (agent, m.board world.queries)) {maxCycles : Nat} {t : Tick σ}
    (htick : p.tick maxCycles agent world = .ok t) : p.Serves (slotOf m t) := by
  have suits := World.suits_of_check (unit_bind_eq_ok_iff.mp htick).1
  exact tick_kept valid (serves_kept p m) (serves.slotted valid).steady serves (fun t hnone h =>
    serves.next (.begin m (t := ⟨agent, world, 0, #[]⟩) suits hnone h)) htick

end Ticks

/-- At most one query is in flight, and its lane waits for it. It leaves the slot when it has been resolved or when
its lane goes, and in that case nothing that is resolved for it later is delivered. -/
theorem query_slot (accepted : p.validate = .ok ()) :
    (∀ s, p.Serves s → s.1.InSlot p s.2) ∧
    (∀ {σ : Type} [QuerySystem σ] (m : Behind σ) (t t' : Tick σ) (index : Nat) (rootVisited : Bool) (outcome : Outcome)
      (request : QueryRequest), p.Serves (slotOf m t) → t.world.Suits p → index < t.agent.lanes.lanes.size →
      Act.step p index rootVisited t = .ok (outcome, t') → t.agent.holder = some request →
      t'.agent.holder = some request ∨ t'.agent.holder = none ∧
        ((m.resolved t.world.queries).result? request ≠ none ∨ ∀ v ∈ t'.agent.lanes.view, v.id ≠ request.lane)) ∧
    (∀ s s' s'' (request : QueryRequest) (count : UInt32), p.Serves s → s.1.holder = some request → p.Works s s' →
      (∀ v ∈ s'.1.lanes.view, v.id ≠ request.lane) → Relation.ReflTransGen p.Works s' s'' →
      s''.1.holder ≠ some request ∧ s''.2.complete request count = s''.2 ∧ (s''.2.poll request).1 = .pending) ∧
    ∀ {σ : Type} [QuerySystem σ] (m : Behind σ) (agent : Agent) (world : World σ) (maxCycles : Nat),
      p.Serves (agent, m.board world.queries) →
      (∀ t, p.tick maxCycles agent world = .ok t → p.Serves (slotOf m t)) ∧
      ∀ index u, world.check p = .ok () → p.Visits maxCycles agent world index u → p.Serves (slotOf m u) := by
  have valid : p.Valid := validate_eq_ok_iff.mp accepted
  refine ⟨fun s serves => (serves.slotted valid).inSlot, ?_, ?_, ?_⟩
  · intro σ _ m t t' index rootVisited outcome request serves suits hindex h hholder
    have slotted := serves.slotted valid
    have moves := ((Act.step_moves valid ⟨slotted.steady, suits⟩ slotted.tick.orderly hindex rootVisited).of_ok h).1
    refine (moves.frees (slotted.tick (m := m)) request hholder).imp id fun freed => ⟨freed.1, freed.2.imp id fun absent v hv => ?_⟩
    exact absent _ (List.mem_map_of_mem hv)
  · intro s s' s'' request count serves hholder works absent later
    have slotted := serves.slotted valid
    have gone : Gone request.lane s'.1 :=
      ⟨Nat.lt_of_lt_of_le (slotted.given hholder) (slotted.ids valid works).1, absent⟩
    have hend : p.Slotted s'' ∧ Gone request.lane s''.1 := by
      induction later with
      | refl => exact ⟨slotted.works valid works, gone⟩
      | tail _ works ih => exact ⟨ih.1.works valid works, ih.2.works valid ih.1 works⟩
    exact hend.2.lost hend.1 count
  · intro σ _ m agent world maxCycles serves
    exact ⟨fun t htick => serves.tick valid htick, fun index u checked visits => serves.visits valid checked visits⟩

/-- A lane that asks a query. -/
def asker : Program where
  expressions := ⟨[], #[]⟩
  entries := #[.ofNode .nop, .ofNode (.root ⟨2⟩), .ofNode (.query 7 ⟨0, .bool⟩)]
  types := #[]
  lookups := #[]
  blackboardSize := 1

/-- Results of a request that nobody made come first. -/
def askerStart : Tick Attended :=
  ⟨.fresh, .blank asker (Memory.zeros 1) ⟨.empty, [[(⟨7, 5⟩, 1)]]⟩, 0, #[]⟩

def askerBegun : Tick Attended :=
  Act.createPrimary.reached askerStart

def askerEntered : Tick Attended :=
  (Act.step asker 0 false).reached askerBegun

def askerWaiting : Tick Attended :=
  (Act.step asker 0 false).reached askerEntered

/-- The lane waits for its query. -/
theorem query_slot_asker : asker.validate = .ok () ∧ askerWaiting.agent.holder = some ⟨7, 0⟩ ∧
    askerWaiting.agent.InSlot asker askerWaiting.world.queries.board := by
  have henter : Act.step asker 0 false askerBegun = .ok (.enterRoot, askerEntered) := Act.eq_reached (by decide +kernel)
  have hask : Act.step asker 0 false askerEntered = .ok (.suspend, askerWaiting) := Act.eq_reached (by decide +kernel)
  have new : asker.Serves (slotOf attended askerStart) := .new (show Agent.new 32 8 = .ok .fresh from rfl)
  have begun : asker.Serves (slotOf attended askerBegun) :=
    new.next (.begin attended (World.suits_of_check (by decide +kernel)) rfl (Act.eq_reached (by decide +kernel)))
  have entered : asker.Serves (slotOf attended askerEntered) :=
    begun.next (.step attended (World.suits_of_check (by decide +kernel)) (by decide +kernel) henter)
  have waiting : asker.Serves (slotOf attended askerWaiting) :=
    entered.next (.step attended (World.suits_of_check (by decide +kernel)) (by decide +kernel) hask)
  exact ⟨rfl, by decide +kernel, (query_slot rfl).1 _ waiting⟩

end Program

end BehaviorTree
