import Mathlib
import BehaviorTree.Machine.Run
import BehaviorTree.Proofs.Binary.RoundTrip
import BehaviorTree.Proofs.Machine.Step

/-! Safety of ticks. A tick of a valid program comes to its end unless steps, ids or memory run out, or
a step has to store a field that is wider than a scalar: validation lets constants of any length pass. -/

namespace BehaviorTree

open Refusal

namespace Act

variable {σ : Type} [QuerySystem σ]

/-- With a budget of steps, the run from the first lane and tick begins a step of the second lane in the
second tick. -/
inductive Visits (p : Program) : Nat → Nat → Bool → Tick σ → Nat → Tick σ → Prop
  | here {budget index : Nat} {rootVisited : Bool} {t : Tick σ} :
    Visits p (budget + 1) index rootVisited t index t
  | goOn {budget index i : Nat} {rootVisited : Bool} {t t' u : Tick σ}
    (hstep : step p index rootVisited { t with cycle := t.cycle + 1 } = .ok (.goOn, t'))
    (hrest : Visits p budget index rootVisited t' i u) : Visits p (budget + 1) index rootVisited t i u
  | enterRoot {budget index i : Nat} {rootVisited : Bool} {t t' u : Tick σ}
    (hstep : step p index rootVisited { t with cycle := t.cycle + 1 } = .ok (.enterRoot, t'))
    (hrest : Visits p budget index true t' i u) : Visits p (budget + 1) index rootVisited t i u
  | next {budget index i : Nat} {rootVisited : Bool} {t t' t'' u : Tick σ}
    (hstep : step p index rootVisited { t with cycle := t.cycle + 1 } = .ok (.suspend, t'))
    (hmore : index + 1 < t'.agent.lanes.lanes.size) (hturn : beginTurn p (index + 1) t' = .ok ((), t''))
    (hrest : Visits p budget (index + 1) false t'' i u) : Visits p (budget + 1) index rootVisited t i u

variable {p : Program} {t : Tick σ} {index : Nat}

omit [QuerySystem σ] in
/-- The turn of a lane begins with a report on its bottom node. -/
theorem beginTurn_emit (steady : t.Steady p) (h : index < t.agent.lanes.lanes.size) :
    ∃ id : NodeId, id.toNat < p.size ∧ beginTurn p index t = emit p index id .start t := by
  have hlane := Array.getElem?_eq_getElem h
  have hv := LaneStack.getElem?_view_eq_some_iff.mpr ⟨_, hlane, rfl⟩
  obtain ⟨bottom, rest, hframes⟩ := List.exists_cons_of_ne_nil (steady.occupied _ _ hv)
  refine ⟨bottom.node, (steady.framed _ _ hv).known bottom (by simp [hframes]), ?_⟩
  have hread : t.agent.lanes.frames index = .ok (bottom :: rest) := by
    rw [LaneStack.frames, LaneStack.lane_of_getElem? hlane]
    exact congrArg Except.ok hframes
  show ((t.agent.lanes.frames index >>= fun frames => Except.ok (frames, t)) >>= _) = _
  rw [hread]
  rfl

omit [QuerySystem σ] in
/-- And with nothing else. -/
theorem beginTurn_eq (steady : t.Steady p) (h : index < t.agent.lanes.lanes.size) :
    ∃ notices, beginTurn p index t = .ok ((), { t with notices := notices }) := by
  obtain ⟨id, hknown, hturn⟩ := beginTurn_emit steady h
  obtain ⟨notices, hemit⟩ := emit_eq hknown h .start
  exact ⟨notices, hturn.trans hemit⟩

/-- How a run may end. -/
inductive Ends (p : Program) (maxCycles budget index : Nat) (rootVisited : Bool) (t : Tick σ) :
    Except Fault (Tick σ) → Prop
  | done {t' : Tick σ} (steady : t'.Steady p) : Ends p maxCycles budget index rootVisited t (.ok t')
  | runaway : Ends p maxCycles budget index rootVisited t (.error (.runaway maxCycles))
  | exhausted {i : Nat} {u : Tick σ} {fault : Fault} (visits : Visits p budget index rootVisited t i u)
    (exhausted : u.agent.Exhausted fault) : Ends p maxCycles budget index rootVisited t (.error fault)
  | wide {i : Nat} {u : Tick σ} {field : FieldWrite} (visits : Visits p budget index rootVisited t i u)
    (wide : u.wideWrite? p i = some field) : Ends p maxCycles budget index rootVisited t (.error field.refusal)

/-- What a run visits after its first step, it visits altogether. -/
theorem Ends.after {maxCycles budget index budget' index' : Nat} {rootVisited rootVisited' : Bool} {t t' : Tick σ}
    {result : Except Fault (Tick σ)} (ends : Ends p maxCycles budget' index' rootVisited' t' result)
    (h : ∀ {i : Nat} {u : Tick σ}, Visits p budget' index' rootVisited' t' i u → Visits p budget index rootVisited t i u) :
    Ends p maxCycles budget index rootVisited t result := by
  cases ends with
  | done steady => exact .done steady
  | runaway => exact .runaway
  | exhausted visits exhausted => exact .exhausted (h visits) exhausted
  | wide visits wide => exact .wide (h visits) wide

/-- Every run from a steady tick ends in one of these ways. -/
theorem runFrom_ends (valid : p.Valid) (maxCycles budget : Nat) {index : Nat} {t : Tick σ} (steady : t.Steady p)
    (h : index < t.agent.lanes.lanes.size) (rootVisited : Bool) :
    Ends p maxCycles budget index rootVisited t (runFrom p maxCycles budget index rootVisited t) := by
  induction budget generalizing index t rootVisited with
  | zero => exact .runaway
  | succ budget ih =>
    have steady' := steady.counted
    rw [runFrom]
    cases hwide : t.wideWrite? p index with
    | some field =>
      rw [Tick.step_wide valid steady' h hwide]
      exact .wide .here hwide
    | none =>
      have hensures := Tick.step_ensures valid steady' h hwide rootVisited
      unfold Ensures at hensures
      cases hstep : step p index rootVisited { t with cycle := t.cycle + 1 } with
      | error fault =>
        rw [hstep] at hensures
        exact .exhausted .here hensures
      | ok r =>
        obtain ⟨outcome, t'⟩ := r
        rw [hstep] at hensures
        obtain ⟨settled, hkept⟩ := hensures
        cases outcome with
        | goOn => exact (ih settled (by simpa using hkept) _).after (.goOn hstep)
        | enterRoot => exact (ih settled (by simpa using hkept) _).after (.enterRoot hstep)
        | suspend =>
          dsimp only
          split_ifs with hmore
          · obtain ⟨notices, hturn⟩ := beginTurn_eq settled hmore
            have begun : Tick.Steady p { t' with notices := notices } := ⟨settled.toSteady, settled.suits⟩
            rw [hturn]
            exact (ih begun hmore false).after (.next hstep hmore hturn)
          · exact .done settled

/-- After a step that returns, the tick is steady and a lane that goes on is there. -/
theorem step_settled (valid : p.Valid) (steady : t.Steady p) (h : index < t.agent.lanes.lanes.size)
    {rootVisited : Bool} {outcome : Outcome} {t' : Tick σ} (hstep : step p index rootVisited t = .ok (outcome, t')) :
    t'.Settled p index outcome := by
  cases hwide : t.wideWrite? p index with
  | some field =>
    rw [Tick.step_wide valid steady h hwide] at hstep
    cases hstep
  | none =>
    have hensures := Tick.step_ensures valid steady h hwide rootVisited
    unfold Ensures at hensures
    rwa [hstep] at hensures

/-- A run that comes to a wide field is refused there. -/
theorem runFrom_wide (valid : p.Valid) (maxCycles : Nat) {budget index i : Nat} {rootVisited : Bool} {t u : Tick σ}
    (visits : Visits p budget index rootVisited t i u) (steady : t.Steady p) (h : index < t.agent.lanes.lanes.size)
    {field : FieldWrite} (hwide : u.wideWrite? p i = some field) :
    runFrom p maxCycles budget index rootVisited t = .error field.refusal := by
  induction visits with
  | @here budget index rootVisited t =>
    have steady' := steady.counted
    rw [runFrom, Tick.step_wide valid steady' h hwide]
  | goOn hstep hrest ih =>
    obtain ⟨settled, hkept⟩ := step_settled valid steady.counted h hstep
    rw [runFrom, hstep]
    exact ih settled (by simpa using hkept) hwide
  | enterRoot hstep hrest ih =>
    obtain ⟨settled, hkept⟩ := step_settled valid steady.counted h hstep
    rw [runFrom, hstep]
    exact ih settled (by simpa using hkept) hwide
  | next hstep hmore hturn hrest ih =>
    have settled := (step_settled valid steady.counted h hstep).1
    obtain ⟨notices, hturn'⟩ := beginTurn_eq settled hmore
    rw [hturn] at hturn'
    obtain ⟨-, rfl⟩ := Prod.mk.inj (Except.ok.inj hturn')
    rw [runFrom, hstep]
    simp only [hmore, if_true, hturn]
    exact ih ⟨settled.toSteady, settled.suits⟩ hmore hwide

end Act

/-! ### Ticks -/

/-- A new agent has no lanes, which are created in its first tick, and no query in flight. -/
theorem Agent.empty_of_new {capacity block : Nat} {agent : Agent} (h : Agent.new capacity block = .ok agent) :
    agent.lanes.lanes = #[] ∧ agent.holder = none := by
  obtain ⟨lanes, hnew, rfl⟩ := map_eq_ok_iff.mp h
  unfold LaneStack.new at hnew
  split_ifs at hnew
  cases hnew
  exact ⟨rfl, rfl⟩

namespace Program

variable {σ : Type} [QuerySystem σ]

/-- The agents that come from a fresh one by ticks of the program, each in a world of any kind. -/
inductive Reaches (p : Program) : Agent → Prop
  | new {capacity block : Nat} {agent : Agent} (h : Agent.new capacity block = .ok agent) : Reaches p agent
  | tick {σ : Type} [QuerySystem σ] {maxCycles : Nat} {agent : Agent} {world : World σ} {t : Tick σ}
    (reaches : Reaches p agent) (h : p.tick maxCycles agent world = .ok t) : Reaches p t.agent

/-- A tick from here begins a step of lane `index` in `u`. -/
def Visits (p : Program) (maxCycles : Nat) (agent : Agent) (world : World σ) (index : Nat) (u : Tick σ) : Prop :=
  ∃ t t', (if agent.lanes.lanes.isEmpty then Act.createPrimary else pure () : Act σ Unit)
      ⟨agent, world, 0, #[]⟩ = .ok ((), t) ∧
    Act.beginTurn p 0 t = .ok ((), t') ∧ Act.Visits p maxCycles 0 false t' index u

/-- The tick runs out of steps, or at some step the agent runs out of ids or memory. -/
def Exhausts (p : Program) (maxCycles : Nat) (agent : Agent) (world : World σ) (fault : Fault) : Prop :=
  fault = .runaway maxCycles ∨ agent.Exhausted fault ∨
    ∃ index u, p.Visits maxCycles agent world index u ∧ u.agent.Exhausted fault

variable {p : Program} {agent : Agent} {world : World σ}

omit [QuerySystem σ] in
/-- A tick begins with a primary lane. -/
theorem start_ensures (valid : p.Valid) (steady : agent.Steady p) (suits : world.Suits p) :
    (if agent.lanes.lanes.isEmpty then Act.createPrimary else pure () : Act σ Unit).Ensures ⟨agent, world, 0, #[]⟩
      agent.Exhausted fun _ t => t.Steady p ∧ 0 < t.agent.lanes.lanes.size := by
  split_ifs with hempty
  · have hlanes : agent.lanes.lanes = #[] := Array.isEmpty_iff.mp hempty
    refine (Act.createPrimary_ensures valid hlanes suits id ?_).mono fun _ t h => ⟨h.1, by omega⟩
    intro hfull
    show LaneStack.maxFrames < _ + 2 * _
    have hfull : LaneStack.maxFrames < agent.lanes.arena.size + agent.lanes.block := hfull
    omega
  · refine .pure ⟨⟨steady, suits⟩, Array.size_pos_iff.mpr ?_⟩
    simpa using hempty

/-- After the check and the start, a tick is a run of its lanes. -/
theorem tick_eq_runFrom {maxCycles : Nat} {t t' : Tick σ} (checked : world.check p = .ok ())
    (hstart : (if agent.lanes.lanes.isEmpty then Act.createPrimary else pure () : Act σ Unit)
      ⟨agent, world, 0, #[]⟩ = .ok ((), t)) (hturn : Act.beginTurn p 0 t = .ok ((), t')) :
    p.tick maxCycles agent world = (do
      let t ← Act.runFrom p maxCycles maxCycles 0 false t'
      t.agent.lanes.check
      return t) := by
  have hrun : Act.runLanes p maxCycles ⟨agent, world, 0, #[]⟩ = Act.runFrom p maxCycles maxCycles 0 false t' := by
    unfold Act.runLanes
    show ((if agent.lanes.lanes.isEmpty then Act.createPrimary else pure () : Act σ Unit)
      ⟨agent, world, 0, #[]⟩ >>= _) = _
    rw [hstart]
    show (Act.beginTurn p 0 t >>= _) = _
    rw [hturn]
    rfl
  rw [tick, checked, hrun]
  rfl

/-- A tick that cannot begin is refused for the same reason. -/
theorem tick_eq_error {maxCycles : Nat} {fault : Fault} (checked : world.check p = .ok ())
    (hstart : (if agent.lanes.lanes.isEmpty then Act.createPrimary else pure () : Act σ Unit)
      ⟨agent, world, 0, #[]⟩ = .error fault) : p.tick maxCycles agent world = .error fault := by
  have hrun : Act.runLanes p maxCycles ⟨agent, world, 0, #[]⟩ = .error fault := by
    unfold Act.runLanes
    show ((if agent.lanes.lanes.isEmpty then Act.createPrimary else pure () : Act σ Unit)
      ⟨agent, world, 0, #[]⟩ >>= _) = _
    rw [hstart]
    rfl
  rw [tick, checked, hrun]
  rfl

omit [QuerySystem σ] in
/-- The lanes of a steady tick pass the check at its end. -/
theorem checked_eq_ok {t : Tick σ} (steady : t.Steady p) :
    (do t.agent.lanes.check; return t : Except Fault (Tick σ)) = .ok t := by
  rw [steady.ordered.check_eq_ok]
  rfl

/-- How a tick may end. -/
theorem tick_ends (valid : p.Valid) (steady : agent.Steady p) (checked : world.check p = .ok ()) (maxCycles : Nat) :
    (∃ t, p.tick maxCycles agent world = .ok t ∧ t.agent.Steady p) ∨
      (∃ fault, p.tick maxCycles agent world = .error fault ∧ p.Exhausts maxCycles agent world fault) ∨
      ∃ index u field, p.tick maxCycles agent world = .error field.refusal ∧
        p.Visits maxCycles agent world index u ∧ u.wideWrite? p index = some field := by
  have hstart := start_ensures valid steady (World.suits_of_check checked)
  unfold Act.Ensures at hstart
  split at hstart
  next t heq =>
    obtain ⟨started, hsize⟩ := hstart
    obtain ⟨notices, hturn⟩ := Act.beginTurn_eq started hsize
    have begun : Tick.Steady p { t with notices := notices } := ⟨started.toSteady, started.suits⟩
    have hends := Act.runFrom_ends valid maxCycles maxCycles begun hsize false
    rw [tick_eq_runFrom checked heq hturn]
    generalize Act.runFrom p maxCycles maxCycles 0 false { t with notices := notices } = result at hends
    cases hends with
    | @done t' steady =>
      exact .inl ⟨t', checked_eq_ok steady, steady.toSteady⟩
    | runaway => exact .inr (.inl ⟨_, rfl, .inl rfl⟩)
    | exhausted visits exhausted =>
      exact .inr (.inl ⟨_, rfl, .inr (.inr ⟨_, _, ⟨t, _, heq, hturn, visits⟩, exhausted⟩)⟩)
    | wide visits wide => exact .inr (.inr ⟨_, _, _, rfl, ⟨t, _, heq, hturn, visits⟩, wide⟩)
  next fault heq =>
    exact .inr (.inl ⟨fault, tick_eq_error checked heq, .inr (.inl hstart)⟩)

/-- A tick that comes to a wide field is refused there. -/
theorem tick_wide (valid : p.Valid) (steady : agent.Steady p) (checked : world.check p = .ok ()) {maxCycles : Nat}
    {index : Nat} {u : Tick σ} (visits : p.Visits maxCycles agent world index u) {field : FieldWrite}
    (hwide : u.wideWrite? p index = some field) : p.tick maxCycles agent world = .error field.refusal := by
  obtain ⟨t, t', heq, hturn, hvisits⟩ := visits
  have hstart := start_ensures valid steady (World.suits_of_check checked)
  unfold Act.Ensures at hstart
  rw [heq] at hstart
  obtain ⟨started, hsize⟩ := hstart
  obtain ⟨notices, hturn'⟩ := Act.beginTurn_eq started hsize
  have hsame := hturn
  rw [hturn'] at hsame
  obtain ⟨-, rfl⟩ := Prod.mk.inj (Except.ok.inj hsame)
  have begun : Tick.Steady p { t with notices := notices } := ⟨started.toSteady, started.suits⟩
  rw [tick_eq_runFrom checked heq hturn, Act.runFrom_wide valid maxCycles hvisits begun hsize hwide]
  rfl

/-- An agent is steady between ticks. -/
theorem Reaches.steady (valid : p.Valid) (h : p.Reaches agent) : agent.Steady p := by
  induction h with
  | @new capacity block agent h =>
    have hlanes := (Agent.empty_of_new h).1
    have hview : agent.lanes.view = [] := by
      simp [LaneStack.view, hlanes]
    exact ⟨.of_isEmpty hlanes, by simp [hview], by simp [hview]⟩
  | @tick σ _ maxCycles agent world t reaches h ih =>
    have checked := (unit_bind_eq_ok_iff.mp h).1
    obtain ⟨t', heq, steady⟩ | ⟨fault, heq, _⟩ | ⟨_, _, field, heq, _⟩ := tick_ends valid ih checked maxCycles
    · rw [h] at heq
      obtain rfl := Except.ok.inj heq
      exact steady
    · rw [h] at heq
      cases heq
    · rw [h] at heq
      cases heq

/-- The refusal of a wide field has nothing to do with steps, ids or memory. -/
theorem not_exhausts_refusal {maxCycles : Nat} (field : FieldWrite) :
    ¬ p.Exhausts maxCycles agent world field.refusal := by
  unfold FieldWrite.refusal
  split_ifs <;> simp [Exhausts, Agent.Exhausted]

/-- A program without wide fields is never refused while it has steps, ids and memory. -/
theorem tick_ok_of_narrow (valid : p.Valid) (reaches : p.Reaches agent) (checked : world.check p = .ok ())
    (narrow : ∀ entry ∈ p.entries, entry.node.wideField? = none) (maxCycles : Nat) :
    (∃ t, p.tick maxCycles agent world = .ok t) ∨
      ∃ fault, p.tick maxCycles agent world = .error fault ∧ p.Exhausts maxCycles agent world fault := by
  obtain ⟨t, heq, _⟩ | hexhausts | ⟨index, u, field, _, _, hwide⟩ :=
    tick_ends valid (reaches.steady valid) checked maxCycles
  · exact .inl ⟨t, heq⟩
  · exact .inr hexhausts
  · unfold Tick.wideWrite? at hwide
    split at hwide
    next frame htop =>
      obtain ⟨node, hnode, hfield⟩ := Option.bind_eq_some_iff.mp hwide
      obtain ⟨entry, hentry, rfl⟩ := Option.map_eq_some_iff.mp hnode
      rw [narrow entry (Array.mem_of_getElem? hentry)] at hfield
      cases hfield
    next => cases hwide

/-- A tick of an accepted program is refused for want of steps, ids or memory, and else just if it
comes to a field that is wider than a scalar. -/
theorem tick_refused_iff_wideWrite (accepted : p.validate = .ok () ∨ ∃ bytes, Program.decode bytes = .ok p)
    (reaches : p.Reaches agent) (checked : world.check p = .ok ()) (maxCycles : Nat) :
    (∃ fault, p.tick maxCycles agent world = .error fault ∧ ¬ p.Exhausts maxCycles agent world fault) ↔
      ∃ index u field, p.Visits maxCycles agent world index u ∧ u.wideWrite? p index = some field := by
  have valid : p.Valid := validate_eq_ok_iff.mp (accepted.elim id fun ⟨_, h⟩ => validate_of_decode h)
  have steady := reaches.steady valid
  constructor
  · rintro ⟨fault, hfault, hfresh⟩
    obtain ⟨t, heq, _⟩ | ⟨other, heq, hexhausts⟩ | ⟨index, u, field, _, visits, hwide⟩ :=
      tick_ends valid steady checked maxCycles
    · rw [hfault] at heq
      cases heq
    · rw [hfault] at heq
      obtain rfl := Except.error.inj heq
      exact absurd hexhausts hfresh
    · exact ⟨index, u, field, visits, hwide⟩
  · rintro ⟨index, u, field, visits, hwide⟩
    refine ⟨_, tick_wide valid steady checked visits hwide, ?_⟩
    exact not_exhausts_refusal field

/-- Five bytes are stored in a component of eight. -/
def fiveBytes : Program where
  expressions := ⟨[0, 0, 0, 0, 0], #[]⟩
  entries := #[.ofNode .nop, .ofNode (.root ⟨2⟩), .ofNode (.writeField 0 [⟨0, 5, .constant 0 5⟩])]
  types := #[⟨"Mover", 5, 8⟩]
  lookups := #[]
  blackboardSize := 0

theorem tick_refused_fiveBytes :
    fiveBytes.validate = .ok () ∧
      ∃ index u field, fiveBytes.Visits 10 .fresh (.blank fiveBytes (Memory.zeros 0) QueryBoard.empty) index u ∧
        u.wideWrite? fiveBytes index = some field := by
  have reaches : fiveBytes.Reaches .fresh := .new (show Agent.new 32 8 = .ok .fresh from rfl)
  refine ⟨rfl, (tick_refused_iff_wideWrite (.inl rfl) reaches (by cbv) 10).mp ⟨.scalarTooLong 5, by cbv, ?_⟩⟩
  exact not_exhausts_refusal ⟨0, 5, .constant 0 5⟩

end Program

end BehaviorTree
