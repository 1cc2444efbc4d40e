import BehaviorTree.Proofs.Machine.Activation
import BehaviorTree.Proofs.Machine.Counting
import BehaviorTree.Proofs.Machine.Progress
import BehaviorTree.Proofs.Machine.Structured

/-! Ticks of acyclic programs come to an end by themselves. Every step has to be paid for by a lane, and what lanes
can pay is bounded by the weight of the root. A tick is never cut off if it may take that many steps. -/

namespace BehaviorTree

open Refusal

/-- More steps than any tick takes if the program has no cycle. -/
def Program.stepBound (p : Program) : Nat :=
  p.weight .root * (p.weight .root + 1)

variable {p : Program} {σ : Type}

namespace Tick.Steady

variable {t : Tick σ}

theorem parent_of (steady : t.Steady p) {i : Nat} {k : Kin} (hk : t.roster.lanes[i]? = some k) :
    k.parent = none ∧ i = 0 ∨ ∃ j k', j < i ∧ t.roster.lanes[j]? = some k' ∧ k.parent = some k'.id :=
  steady.ordered.parent_of hk

theorem primary_of (steady : t.Steady p) {k : Kin} (hk : t.roster.lanes[0]? = some k) : k.parent = none := by
  obtain ⟨hnone, -⟩ | ⟨j, -, hlt, -⟩ := steady.parent_of hk
  · exact hnone
  · exact absurd hlt (Nat.not_lt_zero j)

theorem occupied_of (steady : t.Steady p) {k : Kin} (hk : k ∈ t.roster.lanes) : k.frames ≠ [] := by
  obtain ⟨v, hv, rfl⟩ := List.mem_map.mp hk
  obtain ⟨i, hi⟩ := List.mem_iff_getElem?.mp hv
  exact steady.occupied i v hi

/-- What all lanes together can pay. -/
theorem pending_le (steady : t.Steady p) (acyclic : p.Acyclic) (paid : t.roster.Paid p) :
    Kin.pending p 0 false t.roster.lanes ≤ p.stepBound := by
  have hprimary (k : Kin) (hk : t.roster.lanes[0]? = some k) := steady.primary_of hk
  have hparent (i : Nat) (k : Kin) (hk : t.roster.lanes[i]? = some k) := steady.parent_of hk
  have hoccupied (k : Kin) (hk : k ∈ t.roster.lanes) : ∃ bottom ∈ k.frames, k.root? = some bottom.node := by
    obtain ⟨bottom, above, hframes⟩ := List.exists_cons_of_ne_nil (steady.occupied_of hk)
    exact ⟨bottom, by simp [hframes], by simp [Kin.root?, hframes]⟩
  have hprice (k : Kin) (hk : k ∈ t.roster.lanes) : k.price p ≤ p.weight .root := by
    obtain ⟨bottom, hmem, hroot⟩ := hoccupied k hk
    exact Kin.price_eq hroot ▸ Program.weight_le_root acyclic (paid.reachable k hk bottom hmem)
  cases hlanes : t.roster.lanes with
  | nil => exact Nat.zero_le _
  | cons first rest =>
    simp only [hlanes] at hparent hoccupied hprice
    have hwork : (((first :: rest).map fun k => p.workload k.frames).sum) ≤ first.price p := by
      refine Kin.sum_le_price rest _ (fun i k hk => ?_) fun k hk => ?_
      · obtain ⟨-, hi⟩ | ⟨j, k', hj, hk', hid⟩ := hparent (i + 1) k hk
        · cases hi
        · refine ⟨k', List.mem_of_getElem? (i := j) ?_, hid⟩
          rw [← List.take_succ_cons, List.getElem?_take_of_lt hj, hk']
      · obtain ⟨bottom, -, hroot⟩ := hoccupied k hk
        exact Kin.price_eq hroot ▸ hlanes ▸ paid.afford k (hlanes ▸ hk) bottom.node hroot
    have hcount : (first :: rest).length ≤ ((first :: rest).map fun k => p.workload k.frames).sum := by
      rw [← List.length_map (fun k : Kin => p.workload k.frames)]
      refine List.length_le_sum_of_one_le _ fun n hn => ?_
      obtain ⟨k, hk, rfl⟩ := List.mem_map.mp hn
      exact Program.workload_pos (steady.occupied_of (hlanes ▸ hk))
    have hprices : ((first :: rest).map (Kin.price p)).sum ≤ (first :: rest).length * p.weight .root := by
      rw [← List.length_map (Kin.price p)]
      refine List.sum_le_card_nsmul _ _ fun n hn => ?_
      obtain ⟨k, hk, rfl⟩ := List.mem_map.mp hn
      exact hprice k hk
    have hfirst := hprice first List.mem_cons_self
    calc Kin.pending p 0 false (first :: rest)
      _ = ((first :: rest).map (Kin.price p)).sum + ((first :: rest).map fun k => p.workload k.frames).sum := by
        rw [← List.sum_map_add]
        rfl
      _ ≤ p.weight .root * p.weight .root + p.weight .root :=
        Nat.add_le_add (Nat.le_trans hprices (Nat.mul_le_mul_right _ (by omega))) (Nat.le_trans hwork hfirst)
      _ = p.stepBound := by rw [Program.stepBound, Nat.mul_succ]

end Tick.Steady

/-- What lanes have paid does not depend on queries. -/
theorem Roster.Paid.same {σ' : Type} {r : Roster σ} {r' : Roster σ'} (paid : r.Paid p) (h : r'.lanes = r.lanes) :
    r'.Paid p :=
  ⟨h ▸ paid.reachable, h ▸ paid.primary, h ▸ paid.afford⟩

/-- What is wrong with memory is said otherwise. -/
theorem World.check_ne_runaway (world : World σ) (p : Program) (limit : Nat) :
    world.check p ≠ .error (.runaway limit) := by
  have hcomponents (items : Array (Storage × ComponentType)) :
      items.forM (fun x => checkComponent x.1 x.2) ≠ .error (.runaway limit) := by
    intro h
    obtain ⟨⟨store, type⟩, -, h⟩ := exists_of_forM_eq_error (array_forM_toList _ items ▸ h)
    dsimp only [checkComponent] at h
    split_ifs at h <;> cases h
  have hlookups (items : Array (Storage × Option ComponentType)) :
      items.forM (fun x => checkLookup x.1 x.2) ≠ .error (.runaway limit) := by
    intro h
    obtain ⟨⟨store, type⟩, -, h⟩ := exists_of_forM_eq_error (array_forM_toList _ items ▸ h)
    cases type with
    | none => cases h
    | some type =>
      dsimp only [checkLookup] at h
      split_ifs at h <;> cases h
  intro h
  unfold World.check at h
  split_ifs at h <;>
    simp only [bind_eq_error_iff, throw_eq_error_iff, hcomponents, hlookups, reduceCtorEq, false_or, and_false,
      exists_false, or_self, false_and] at h
  obtain ⟨-, -, -, -, h⟩ := h
  split_ifs at h
  all_goals cases h

/-- An agent of which every lane has paid. -/
structure Agent.Solvent (p : Program) (agent : Agent) : Prop where
  lives : ∃ spawns, p.Lives agent spawns
  paid : agent.roster.Paid p

variable [QuerySystem σ]

namespace Act

variable {index : Nat} {rootVisited : Bool} {outcome : Outcome} {t t' : Tick σ}

/-- A step has no limit of its own. -/
theorem step_ne_runaway (valid : p.Valid) (steady : t.Steady p) (h : index < t.agent.lanes.lanes.size) (limit : Nat) :
    step p index rootVisited t ≠ .error (.runaway limit) := by
  intro hstep
  cases hwide : t.wideWrite? p index with
  | some field =>
    rw [Tick.step_wide valid steady h hwide, FieldWrite.refusal] at hstep
    split_ifs at hstep <;> cases hstep
  | none =>
    have hensures := Tick.step_ensures valid steady h hwide rootVisited
    unfold Ensures at hensures
    rw [hstep] at hensures
    exact hensures.elim

/-- Lanes can pay for a step, and for what they have left after it. -/
theorem step_paid (valid : p.Valid) (acyclic : p.Acyclic) (steady : t.Steady p) (solvent : t.agent.Solvent p)
    (h : index < t.agent.lanes.lanes.size) (hstep : step p index rootVisited t = .ok (outcome, t')) :
    t'.agent.Solvent p ∧ Kin.pending p (outcome.next index rootVisited).1 (outcome.next index rootVisited).2 t'.roster.lanes <
      Kin.pending p index rootVisited t.roster.lanes := by
  obtain ⟨spawns, lives⟩ := solvent.lives
  have tallied : t.roster.Tallied p spawns := (lives.tallied valid).2.same rfl rfl
  have moves := ((step_moves valid steady tallied.orderly h rootVisited).of_ok hstep).1
  obtain ⟨-, k, frame, node, top, -, hdeep, -⟩ := step_top steady tallied.orderly h
  obtain ⟨paid, hless⟩ := moves.advances valid acyclic tallied (solvent.paid.same rfl) (fun k hk => steady.primary_of hk)
    fun k' frame' node' top' => by
      obtain rfl := Option.some.inj (top.lane.symm.trans top'.lane)
      obtain rfl := Option.some.inj (top.last.symm.trans top'.last)
      exact hdeep
  exact ⟨⟨⟨_, lives.step steady.suits h hstep⟩, paid.same rfl⟩, hless⟩

/-- A step of a run is counted once. -/
theorem step_advances (valid : p.Valid) (acyclic : p.Acyclic) (steady : t.Steady p) (solvent : t.agent.Solvent p)
    (h : index < t.agent.lanes.lanes.size)
    (hstep : step p index rootVisited { t with cycle := t.cycle + 1 } = .ok (outcome, t')) :
    t'.agent.Solvent p ∧ t'.cycle = t.cycle + 1 ∧
      Kin.pending p (outcome.next index rootVisited).1 (outcome.next index rootVisited).2 t'.roster.lanes <
        Kin.pending p index rootVisited t.roster.lanes := by
  obtain ⟨solvent, hless⟩ := step_paid valid acyclic steady.counted solvent h hstep
  exact ⟨solvent, (Counted.step p index rootVisited _).of_ok hstep, hless⟩

omit [QuerySystem σ] in
theorem pending_pos (steady : t.Steady p) (h : index < t.agent.lanes.lanes.size) (rootVisited : Bool) :
    0 < Kin.pending p index rootVisited t.roster.lanes := by
  have hlt : index < t.roster.lanes.length := (LaneStack.length_kin _).symm ▸ h
  have hk := List.getElem?_eq_getElem hlt
  have hwork := Program.workload_pos (p := p) (steady.occupied_of (List.mem_of_getElem? hk))
  rw [Kin.pending_eq hk]
  omega

/-- The steps of a run, as far as it gets. -/
theorem Visits.cycle_lt (valid : p.Valid) (acyclic : p.Acyclic) {budget i : Nat} {u : Tick σ}
    (visits : Visits p budget index rootVisited t i u) (steady : t.Steady p) (solvent : t.agent.Solvent p)
    (h : index < t.agent.lanes.lanes.size) : u.cycle < t.cycle + Kin.pending p index rootVisited t.roster.lanes := by
  induction visits with
  | here => exact Nat.lt_add_of_pos_right (pending_pos steady h _)
  | goOn hstep _ ih | enterRoot hstep _ ih =>
    obtain ⟨settled, hkept⟩ := step_settled valid steady.counted h hstep
    obtain ⟨solvent, hcycle, hless⟩ := step_advances valid acyclic steady solvent h hstep
    have := ih settled solvent (by simpa using hkept)
    simp only [Outcome.next] at hless
    omega
  | @next budget index i rootVisited t t' t'' u hstep hmore hturn _ ih =>
    have settled := (step_settled valid steady.counted h hstep).1
    obtain ⟨solvent, hcycle, hless⟩ := step_advances valid acyclic steady solvent h hstep
    obtain ⟨notices, hturn'⟩ := beginTurn_eq settled hmore
    rw [hturn] at hturn'
    obtain ⟨-, rfl⟩ := Prod.mk.inj (Except.ok.inj hturn')
    have : u.cycle < t'.cycle + Kin.pending p (index + 1) false t'.roster.lanes :=
      ih ⟨settled.toSteady, settled.suits⟩ solvent hmore
    simp only [Outcome.next] at hless
    omega

/-- A run that has enough steps left is not cut off, and takes no more than that. -/
theorem runFrom_yields (valid : p.Valid) (acyclic : p.Acyclic) (maxCycles budget : Nat) (steady : t.Steady p)
    (solvent : t.agent.Solvent p) (h : index < t.agent.lanes.lanes.size) (rootVisited : Bool) :
    (∀ t', runFrom p maxCycles budget index rootVisited t = .ok t' →
      t'.cycle ≤ t.cycle + Kin.pending p index rootVisited t.roster.lanes) ∧
    (Kin.pending p index rootVisited t.roster.lanes ≤ budget → ∀ limit,
      runFrom p maxCycles budget index rootVisited t ≠ .error (.runaway limit)) := by
  induction budget generalizing index t rootVisited with
  | zero =>
    have := pending_pos steady h rootVisited
    exact ⟨(fun t' hrun => by cases hrun), fun hle => by omega⟩
  | succ budget ih =>
    rw [runFrom]
    cases hstep : step p index rootVisited { t with cycle := t.cycle + 1 } with
    | error fault =>
      refine ⟨(fun t' hrun => by cases hrun), fun _ limit hrun => ?_⟩
      exact step_ne_runaway valid steady.counted h limit (hstep.trans (congrArg _ (Except.error.inj hrun)))
    | ok result =>
      obtain ⟨outcome, u⟩ := result
      obtain ⟨settled, hkept⟩ := step_settled valid steady.counted h hstep
      obtain ⟨solvent, hcycle, hless⟩ := step_advances valid acyclic steady solvent h hstep
      cases outcome with
      | goOn | enterRoot =>
        simp only [Outcome.next] at hless
        obtain ⟨hok, hrest⟩ := ih settled solvent (by simpa using hkept) _
        refine ⟨fun t' hrun => ?_, fun hle => hrest (by omega)⟩
        have := hok t' hrun
        omega
      | suspend =>
        simp only [Outcome.next] at hless
        dsimp only
        split_ifs with hmore
        · obtain ⟨notices, hturn⟩ := beginTurn_eq settled hmore
          have begun : Tick.Steady p { u with notices := notices } := ⟨settled.toSteady, settled.suits⟩
          rw [hturn]
          obtain ⟨hok, hrest⟩ := ih begun solvent hmore false
          simp only [show Tick.roster { u with notices := notices } = u.roster from rfl] at hok hrest
          refine ⟨fun t' hrun => ?_, fun hle => hrest (by omega)⟩
          have := hok t' hrun
          omega
        · refine ⟨fun t' hrun => ?_, fun _ limit hrun => by cases hrun⟩
          obtain rfl := Except.ok.inj hrun
          omega

end Act

namespace Program

variable {agent : Agent} {world : World σ} {maxCycles : Nat}

theorem solvent_kept (valid : p.Valid) (acyclic : p.Acyclic) : Tick.Kept p fun t : Tick σ => t.agent.Solvent p where
  step solvent steady h hstep := (Act.step_paid valid acyclic steady solvent h hstep).1
  report _ _ solvent := solvent

omit [QuerySystem σ] in
theorem solvent_begin (valid : p.Valid) (acyclic : p.Acyclic) (suits : world.Suits p) (solvent : agent.Solvent p)
    {t : Tick σ} (hnone : agent.lanes.lanes = #[]) (h : Act.createPrimary ⟨agent, world, 0, #[]⟩ = .ok ((), t)) :
    t.agent.Solvent p := by
  obtain ⟨spawns, lives⟩ := solvent.lives
  have hroster := (Agent.Ready.begin valid suits hnone h).2
  have paid : t.roster.Paid p := hroster ▸ .begin valid acyclic _
  exact ⟨⟨spawns, .begin (t := ⟨agent, world, 0, #[]⟩) lives suits hnone h⟩, paid.same rfl⟩

/-- Between two ticks. -/
theorem Reaches.solvent (valid : p.Valid) (acyclic : p.Acyclic) (reaches : p.Reaches agent) : agent.Solvent p := by
  induction reaches with
  | @new capacity block agent h =>
    have hempty : agent.roster.lanes = [] := by
      simp [Agent.roster, LaneStack.kin, LaneStack.view, (Agent.empty_of_new h).1]
    exact ⟨⟨_, .new h⟩, by simp [hempty], by simp [hempty], by simp [hempty]⟩
  | @tick σ _ maxCycles agent world t reaches h ih =>
    have suits := World.suits_of_check (unit_bind_eq_ok_iff.mp h).1
    exact tick_kept valid (solvent_kept valid acyclic) (reaches.steady valid) ih
      (fun t hnone h => solvent_begin valid acyclic suits ih hnone h) h

/-- The lanes of a tick that begins, and what they can pay. -/
theorem begun_of_start (valid : p.Valid) (acyclic : p.Acyclic) (reaches : p.Reaches agent)
    (checked : world.check p = .ok ()) {t t' : Tick σ}
    (hstart : (if agent.lanes.lanes.isEmpty then Act.createPrimary else pure () : Act σ Unit)
      ⟨agent, world, 0, #[]⟩ = .ok ((), t)) (hturn : Act.beginTurn p 0 t = .ok ((), t')) :
    t'.agent.Solvent p ∧ t'.Steady p ∧ 0 < t'.agent.lanes.lanes.size ∧ t'.cycle = 0 ∧
      Kin.pending p 0 false t'.roster.lanes ≤ p.stepBound := by
  have suits := World.suits_of_check checked
  have solvent := reaches.solvent valid acyclic
  have hbegin (t : Tick σ) (hnone : agent.lanes.lanes = #[])
      (h : Act.createPrimary ⟨agent, world, 0, #[]⟩ = .ok ((), t)) := solvent_begin valid acyclic suits solvent hnone h
  obtain ⟨solvent, begun, hsize⟩ := @start_kept σ p agent world (fun t => t.agent.Solvent p) valid
    (solvent_kept valid acyclic).report (reaches.steady valid) suits solvent hbegin t t' hstart hturn
  have hcounted : (if agent.lanes.lanes.isEmpty then Act.createPrimary else pure () : Act σ Unit).Counted := by
    split_ifs
    · exact .createPrimary
    · exact .pure ()
  have hcycle : t'.cycle = t.cycle := (Act.Counted.beginTurn p 0 t).of_ok hturn
  exact ⟨solvent, begun, hsize, hcycle.trans ((hcounted _).of_ok hstart), begun.pending_le acyclic (solvent.paid.same rfl)⟩

/-- No tick of an acyclic program takes more steps than the weight of the root allows, whatever agent it begins with
and whatever it finds in memory, on the clock and in the query system. A tick that may take that many is never cut
off. -/
theorem tick_yields (accepted : p.validate = .ok ()) (acyclic : p.Acyclic) (reaches : p.Reaches agent)
    (world : World σ) (maxCycles : Nat) :
    (∀ index u, world.check p = .ok () → p.Visits maxCycles agent world index u → u.cycle < p.stepBound) ∧
    (∀ t, p.tick maxCycles agent world = .ok t → t.cycle ≤ p.stepBound) ∧
    (p.stepBound ≤ maxCycles → ∀ limit, p.tick maxCycles agent world ≠ .error (.runaway limit)) := by
  have valid := validate_eq_ok_iff.mp accepted
  have hvisits (index : Nat) (u : Tick σ) (checked : world.check p = .ok ())
      (visits : p.Visits maxCycles agent world index u) : u.cycle < p.stepBound := by
    obtain ⟨t, t', hstart, hturn, visits⟩ := visits
    obtain ⟨solvent, begun, hsize, hcycle, hpending⟩ := begun_of_start valid acyclic reaches checked hstart hturn
    have := visits.cycle_lt valid acyclic begun solvent hsize
    omega
  refine ⟨hvisits, ?_⟩
  cases checked : world.check p with
  | error fault =>
    rw [tick, checked]
    refine ⟨(fun t ht => by cases ht), fun _ limit h => world.check_ne_runaway p limit ?_⟩
    rw [checked]
    exact congrArg Except.error (Except.error.inj h)
  | ok _ =>
    have hensures := start_ensures valid (reaches.steady valid) (World.suits_of_check checked)
    unfold Act.Ensures at hensures
    split at hensures
    next t hstart =>
      obtain ⟨notices, hturn⟩ := Act.beginTurn_eq hensures.1 hensures.2
      obtain ⟨solvent, begun, hsize, hcycle, hpending⟩ := begun_of_start valid acyclic reaches checked hstart hturn
      obtain ⟨hok, hrest⟩ := Act.runFrom_yields valid acyclic maxCycles maxCycles begun solvent hsize false
      have hends := Act.runFrom_ends valid maxCycles maxCycles begun hsize false
      rw [tick_eq_runFrom checked hstart hturn]
      cases hrun : Act.runFrom p maxCycles maxCycles 0 false { t with notices := notices } with
      | error fault =>
        refine ⟨(fun u hu => by cases hu), fun hle limit h => hrest (Nat.le_trans hpending hle) limit ?_⟩
        exact hrun.trans h
      | ok t' =>
        rw [hrun] at hends
        cases hends with
        | done steady =>
          have hresult := checked_eq_ok steady
          have := hok t' hrun
          refine ⟨fun u hu => ?_, fun _ limit h => ?_⟩
          · obtain rfl := Except.ok.inj (hresult.symm.trans hu)
            omega
          · cases hresult.symm.trans h
    next fault hstart =>
      rw [tick_eq_error checked hstart]
      refine ⟨(fun t ht => by cases ht), fun _ limit h => ?_⟩
      obtain rfl := Except.error.inj h
      exact hensures.elim

/-- Starts a lane, comes to a failure and starts over. -/
def relay : Program where
  expressions := ⟨[], #[]⟩
  entries := #[.ofNode .nop, .ofNode (.root ⟨2⟩), .ofNode (.parallel ⟨3⟩ ⟨4⟩), .ofNode (.sequence #[⟨5⟩, ⟨6⟩]),
    .ofNode (.threadRoot ⟨7⟩ true), .ofNode .nop, .ofNode .fail, .ofNode .nop]
  types := #[]
  lookups := #[]
  blackboardSize := 0

def relayWorld : World QueryBoard :=
  .blank relay (Memory.zeros 0) .empty

/-- The end of the first tick. -/
def relayEnd : Tick QueryBoard :=
  match relay.tick 182 .fresh relayWorld with
  | .ok t => t
  | .error _ => ⟨.fresh, relayWorld, 0, #[]⟩

theorem relay_acyclic : relay.Acyclic := by
  refine acyclic_of_lt fun id child ⟨node, hnode, hchild⟩ => ?_
  have hlt : id.toNat < 8 := lt_of_node? hnode
  have hbelow : ∀ child ∈ node.children, id.toNat < child.toNat := by
    rw [node?] at hnode
    interval_cases id.toNat <;> obtain rfl := Option.some.inj hnode <;> decide
  exact hbelow child hchild

theorem tick_yields_relay : relay.validate = .ok () ∧ relay.Acyclic ∧ relay.stepBound = 182 ∧
    (∃ index u, relay.Visits 182 .fresh relayWorld index u ∧ u.cycle < 182) ∧
    relay.tick 182 .fresh relayWorld = .ok relayEnd ∧ relayEnd.cycle ≤ 182 ∧
    relay.tick 182 .fresh relayWorld ≠ .error (.runaway 182) := by
  have reaches : relay.Reaches .fresh := .new (show Agent.new 32 8 = .ok .fresh from rfl)
  have hbound : relay.stepBound = 182 := by decide +kernel
  obtain ⟨hvisits, hok, hrest⟩ := tick_yields rfl relay_acyclic reaches relayWorld 182
  have hreturns : (relay.tick 182 .fresh relayWorld).map (fun _ => ()) = .ok () := by decide +kernel
  obtain ⟨t, htick, -⟩ := map_eq_ok_iff.mp hreturns
  obtain rfl : relayEnd = t := by rw [relayEnd, htick]
  have checked : relayWorld.check relay = .ok () := by decide +kernel
  have visited : ∃ u, relay.Visits 182 .fresh relayWorld 0 u :=
    ⟨_, _, _, show Act.createPrimary ⟨.fresh, relayWorld, 0, #[]⟩ = .ok ((), _) from rfl,
      show Act.beginTurn relay 0 _ = .ok ((), _) from rfl, .here⟩
  obtain ⟨u, visits⟩ := visited
  exact ⟨rfl, relay_acyclic, hbound, ⟨0, u, visits, hbound ▸ hvisits 0 u checked visits⟩, htick, hbound ▸ hok _ htick,
    hrest (Nat.le_of_eq hbound) 182⟩

end Program

end BehaviorTree
