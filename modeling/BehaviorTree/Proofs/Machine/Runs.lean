import BehaviorTree.Proofs.Machine.Moves
import BehaviorTree.Proofs.Machine.Safety

/-! Runs. What holds of a tick before its first step and is kept by every step holds whenever a step begins, and
at the end. -/

namespace BehaviorTree

open Refusal

variable {σ : Type} [QuerySystem σ] {p : Program}

/-- The lanes of an agent and its query in flight. -/
def Agent.roster (agent : Agent) : Roster Unit :=
  ⟨agent.lanes.kin, agent.holder, agent.nextLane, ()⟩

/-- What an agent needs to make steps. -/
structure Agent.Ready (p : Program) (agent : Agent) : Prop where
  steady : agent.Steady p
  orderly : agent.roster.Orderly

namespace Agent.Ready

variable {t t' : Tick σ} {index : Nat}

omit [QuerySystem σ] in
theorem tick (ready : t.agent.Ready p) (suits : t.world.Suits p) : t.Steady p ∧ t.roster.Orderly :=
  ⟨⟨ready.steady, suits⟩, ready.orderly.same rfl rfl⟩

theorem new (valid : p.Valid) {capacity block : Nat} {agent : Agent} (h : Agent.new capacity block = .ok agent) :
    agent.Ready p := by
  have hempty : agent.lanes.kin = [] := by
    simp [LaneStack.kin, LaneStack.view, (Agent.empty_of_new h).1]
  refine ⟨(Program.Reaches.new h).steady valid, ?_, ?_, ?_⟩
  all_goals simp [Agent.roster, hempty]

omit [QuerySystem σ] in
theorem begin (valid : p.Valid) (suits : t.world.Suits p) (hnone : t.agent.lanes.lanes = #[])
    (h : Act.createPrimary t = .ok ((), t')) : t'.agent.Ready p ∧ t'.roster = t.roster.begin := by
  have hroster := ((Act.createPrimary_roster hnone).of_ok h).1
  have created : Act.createPrimary.Leads t fun _ t' => t'.Steady p ∧ t'.agent.lanes.lanes.size = 1 :=
    Act.createPrimary_ensures valid hnone suits (fun _ => trivial) fun _ => trivial
  have orderly : t'.roster.Orderly := hroster ▸ .begin _
  exact ⟨⟨(created.of_ok h).1.toSteady, orderly.same rfl rfl⟩, hroster⟩

theorem step (valid : p.Valid) (suits : t.world.Suits p) (ready : t.agent.Ready p)
    (h : index < t.agent.lanes.lanes.size) {rootVisited : Bool} {outcome : Outcome}
    (hstep : Act.step p index rootVisited t = .ok (outcome, t')) :
    t'.agent.Ready p ∧ t.roster.Moves p t.world.now index rootVisited outcome t'.roster := by
  obtain ⟨steady, orderly⟩ := ready.tick suits
  have moves := ((Act.step_moves valid steady orderly h rootVisited).of_ok hstep).1
  have settled := (Act.step_settled valid steady h hstep).1
  exact ⟨⟨settled.toSteady, (moves.orderly orderly).same rfl rfl⟩, moves⟩

end Agent.Ready

/-- Kept by every step, whatever lane makes it. Reports and the number of steps do not matter. -/
structure Tick.Kept (p : Program) (inv : Tick σ → Prop) : Prop where
  step : ∀ {index : Nat} {rootVisited : Bool} {outcome : Outcome} {t t' : Tick σ}, inv t → t.Steady p →
    index < t.agent.lanes.lanes.size → Act.step p index rootVisited t = .ok (outcome, t') → inv t'
  report : ∀ {t : Tick σ} (cycle : Nat) (notices : Array Notice), inv t →
    inv { t with cycle := cycle, notices := notices }

/-- Where an act that returns gets to. -/
def Act.reached {σ α : Type} (act : Act σ α) (t : Tick σ) : Tick σ :=
  match act t with
  | .ok (_, t') => t'
  | .error _ => t

namespace Act

variable {inv : Tick σ → Prop} {index : Nat} {t : Tick σ}

omit [QuerySystem σ] in
/-- An act is known by its result: it suffices to compute that. -/
theorem eq_reached {α : Type} {act : Act σ α} {a : α} (h : (act t).map (·.1) = .ok a) :
    act t = .ok (a, act.reached t) := by
  obtain ⟨⟨b, t'⟩, hact, rfl⟩ := map_eq_ok_iff.mp h
  rw [reached, hact]

theorem Visits.kept (valid : p.Valid) (kept : Tick.Kept p inv) {budget i : Nat} {rootVisited : Bool} {u : Tick σ}
    (visits : Visits p budget index rootVisited t i u) (hinv : inv t) (steady : t.Steady p)
    (h : index < t.agent.lanes.lanes.size) : inv u ∧ u.Steady p ∧ i < u.agent.lanes.lanes.size := by
  induction visits with
  | here => exact ⟨hinv, steady, h⟩
  | goOn hstep _ ih | enterRoot hstep _ ih =>
    obtain ⟨settled, hkept⟩ := step_settled valid steady.counted h hstep
    exact ih (kept.step (kept.report _ _ hinv) steady.counted h hstep) settled (by simpa using hkept)
  | next hstep hmore hturn _ ih =>
    have settled := (step_settled valid steady.counted h hstep).1
    obtain ⟨notices, hturn'⟩ := beginTurn_eq settled hmore
    rw [hturn] at hturn'
    obtain ⟨-, rfl⟩ := Prod.mk.inj (Except.ok.inj hturn')
    have hinv := kept.step (kept.report _ _ hinv) steady.counted h hstep
    exact ih (kept.report _ _ hinv) ⟨settled.toSteady, settled.suits⟩ hmore

/-- What the steps that are visited keep. -/
theorem runFrom_visited (valid : p.Valid)
    (report : ∀ {t : Tick σ} (cycle : Nat) (notices : Array Notice), inv t → inv { t with cycle := cycle, notices := notices })
    (maxCycles budget : Nat) {rootVisited : Bool} {t' : Tick σ}
    (step : ∀ {i : Nat} {visited : Bool} {outcome : Outcome} {u u' : Tick σ}, Visits p budget index rootVisited t i u →
      inv u → u.Steady p → i < u.agent.lanes.lanes.size →
      Act.step p i visited { u with cycle := u.cycle + 1 } = .ok (outcome, u') → inv u')
    (hrun : runFrom p maxCycles budget index rootVisited t = .ok t') (hinv : inv t) (steady : t.Steady p)
    (h : index < t.agent.lanes.lanes.size) : inv t' := by
  induction budget generalizing index t rootVisited with
  | zero => cases hrun
  | succ budget ih =>
    rw [runFrom] at hrun
    cases hstep : Act.step p index rootVisited { t with cycle := t.cycle + 1 } with
    | error fault =>
      rw [hstep] at hrun
      cases hrun
    | ok r =>
      obtain ⟨outcome, u⟩ := r
      obtain ⟨settled, hkept⟩ := step_settled valid steady.counted h hstep
      have hinv := step .here hinv steady h hstep
      rw [hstep] at hrun
      cases outcome with
      | goOn => exact ih (fun visits => step (.goOn hstep visits)) hrun hinv settled (by simpa using hkept)
      | enterRoot => exact ih (fun visits => step (.enterRoot hstep visits)) hrun hinv settled (by simpa using hkept)
      | suspend =>
        dsimp only at hrun
        split_ifs at hrun with hmore
        · obtain ⟨notices, hturn⟩ := beginTurn_eq settled hmore
          have begun : Tick.Steady p { u with notices := notices } := ⟨settled.toSteady, settled.suits⟩
          rw [hturn] at hrun
          exact ih (fun visits => step (.next hstep hmore hturn visits)) hrun (report _ _ hinv) begun hmore
        · obtain rfl := Except.ok.inj hrun
          exact hinv

end Act

namespace Program

variable {agent : Agent} {world : World σ} {inv : Tick σ → Prop} {maxCycles : Nat}

omit [QuerySystem σ] in
/-- What holds of the agent before a tick, and of its primary lane if that has to be created, holds when the lanes
begin their turns. -/
theorem start_kept (valid : p.Valid)
    (report : ∀ {t : Tick σ} (cycle : Nat) (notices : Array Notice), inv t → inv { t with cycle := cycle, notices := notices })
    (steady : agent.Steady p) (suits : world.Suits p) (hinv : inv ⟨agent, world, 0, #[]⟩)
    (hbegin : ∀ t, agent.lanes.lanes = #[] → Act.createPrimary ⟨agent, world, 0, #[]⟩ = .ok ((), t) → inv t)
    {t t' : Tick σ} (hstart : (if agent.lanes.lanes.isEmpty then Act.createPrimary else pure () : Act σ Unit)
      ⟨agent, world, 0, #[]⟩ = .ok ((), t)) (hturn : Act.beginTurn p 0 t = .ok ((), t')) :
    inv t' ∧ t'.Steady p ∧ 0 < t'.agent.lanes.lanes.size := by
  have hensures := start_ensures valid steady suits
  unfold Act.Ensures at hensures
  rw [hstart] at hensures
  obtain ⟨started, hsize⟩ := hensures
  obtain ⟨notices, hturn'⟩ := Act.beginTurn_eq started hsize
  rw [hturn] at hturn'
  obtain ⟨-, rfl⟩ := Prod.mk.inj (Except.ok.inj hturn')
  have hinv : inv t := by
    split_ifs at hstart with hempty
    · exact hbegin t (Array.isEmpty_iff.mp hempty) hstart
    · obtain ⟨-, rfl⟩ := Prod.mk.inj (Except.ok.inj hstart)
      exact hinv
  exact ⟨report _ _ hinv, ⟨started.toSteady, started.suits⟩, hsize⟩

/-- Whenever a step begins. -/
theorem Visits.kept (valid : p.Valid) (kept : Tick.Kept p inv) (steady : agent.Steady p) (suits : world.Suits p)
    (hinv : inv ⟨agent, world, 0, #[]⟩)
    (hbegin : ∀ t, agent.lanes.lanes = #[] → Act.createPrimary ⟨agent, world, 0, #[]⟩ = .ok ((), t) → inv t)
    {index : Nat} {u : Tick σ} (visits : p.Visits maxCycles agent world index u) :
    inv u ∧ u.Steady p ∧ index < u.agent.lanes.lanes.size := by
  obtain ⟨t, t', hstart, hturn, hvisits⟩ := visits
  obtain ⟨hinv, begun, hsize⟩ := start_kept valid kept.report steady suits hinv hbegin hstart hturn
  exact hvisits.kept valid kept hinv begun hsize

/-- At the end of a tick, if the steps that are visited keep it. -/
theorem tick_visited (valid : p.Valid)
    (report : ∀ {t : Tick σ} (cycle : Nat) (notices : Array Notice), inv t → inv { t with cycle := cycle, notices := notices })
    (step : ∀ {i : Nat} {rootVisited : Bool} {outcome : Outcome} {u u' : Tick σ}, p.Visits maxCycles agent world i u →
      inv u → u.Steady p → i < u.agent.lanes.lanes.size →
      Act.step p i rootVisited { u with cycle := u.cycle + 1 } = .ok (outcome, u') → inv u')
    (steady : agent.Steady p) (hinv : inv ⟨agent, world, 0, #[]⟩)
    (hbegin : ∀ t, agent.lanes.lanes = #[] → Act.createPrimary ⟨agent, world, 0, #[]⟩ = .ok ((), t) → inv t)
    {t : Tick σ} (htick : p.tick maxCycles agent world = .ok t) : inv t := by
  obtain ⟨checked, hlanes⟩ := unit_bind_eq_ok_iff.mp htick
  obtain ⟨t', hrun, hcheck⟩ := bind_eq_ok_iff.mp hlanes
  obtain ⟨-, hsame⟩ := unit_bind_eq_ok_iff.mp hcheck
  obtain rfl := Except.ok.inj hsame
  obtain ⟨⟨⟨⟩, started⟩, hstart, hrun⟩ := bind_eq_ok_iff.mp hrun
  obtain ⟨⟨⟨⟩, begun⟩, hturn, hrun⟩ := bind_eq_ok_iff.mp hrun
  obtain ⟨hinv, begun, hsize⟩ :=
    start_kept valid report steady (World.suits_of_check checked) hinv hbegin hstart hturn
  exact Act.runFrom_visited valid report maxCycles maxCycles
    (fun visits => step ⟨started, _, hstart, hturn, visits⟩) hrun hinv begun hsize

/-- At the end of a tick. -/
theorem tick_kept (valid : p.Valid) (kept : Tick.Kept p inv) (steady : agent.Steady p)
    (hinv : inv ⟨agent, world, 0, #[]⟩)
    (hbegin : ∀ t, agent.lanes.lanes = #[] → Act.createPrimary ⟨agent, world, 0, #[]⟩ = .ok ((), t) → inv t)
    {t : Tick σ} (htick : p.tick maxCycles agent world = .ok t) : inv t :=
  tick_visited valid kept.report (fun _ hinv steady => kept.step (kept.report _ _ hinv) steady.counted) steady hinv
    hbegin htick

end Program

end BehaviorTree
