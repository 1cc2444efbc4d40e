import BehaviorTree.Proofs.Machine.Origins
import BehaviorTree.Proofs.Machine.Slot

/-! Waits measure from their own start. Between two ticks a lane that waits has the time of the tick in which the frame
of the wait was put on top of it, whatever other lanes have done since. At its next turn the wait is over if more time
has passed than its duration, or if its condition holds; otherwise the lane stays exactly as it is. -/

namespace BehaviorTree

open Refusal

/-! ### Times of frames -/

/-- A lane of the id has more than `depth` frames. -/
def Agent.Holds (agent : Agent) (id : LaneId) (depth : Nat) : Prop :=
  ∃ v ∈ agent.lanes.view, v.id = id ∧ depth < v.frames.length

/-- A time for every frame, by the id of its lane and the number of frames below it. -/
abbrev Dates := LaneId → Nat → UInt64

/-- What was missing somewhere has the time `now`, and everything else keeps its time. -/
structure Dates.Renewed (missing : LaneId → Nat → Prop) (now : UInt64) (dates dates' : Dates) : Prop where
  new : ∀ id depth, missing id depth → dates' id depth = now
  old : ∀ id depth, ¬missing id depth → dates' id depth = dates id depth

namespace Dates

variable {missing missing' missing'' : LaneId → Nat → Prop} {now : UInt64} {dates dates' dates'' : Dates}

theorem exists_renewed (missing : LaneId → Nat → Prop) (now : UInt64) (dates : Dates) :
    ∃ dates', Renewed missing now dates dates' := by
  classical
  exact ⟨fun id depth => if missing id depth then now else dates id depth, fun _ _ h => if_pos h, fun _ _ h => if_neg h⟩

theorem Renewed.congr (renewed : Renewed missing now dates dates')
    (h : ∀ id depth, missing id depth ↔ missing' id depth) : Renewed missing' now dates dates' :=
  ⟨fun id depth hmissing => renewed.new id depth ((h id depth).mpr hmissing),
    fun id depth hthere => renewed.old id depth (hthere ∘ (h id depth).mp)⟩

/-- What was missing first, and what was missing later. -/
theorem Renewed.later (renewed : Renewed missing'' now dates dates'') (first : Renewed missing now dates dates')
    (hmissing : ∀ id depth, missing'' id depth ↔ missing id depth ∨ missing' id depth) :
    Renewed missing' now dates' dates'' where
  new id depth h := renewed.new id depth ((hmissing id depth).mpr (.inr h))
  old id depth h := by
    by_cases hfirst : missing id depth
    · rw [renewed.new id depth ((hmissing id depth).mpr (.inl hfirst)), first.new id depth hfirst]
    · rw [renewed.old id depth fun hany => ((hmissing id depth).mp hany).elim hfirst h, first.old id depth hfirst]

end Dates

/-- The step of a run begins without the frame. -/
def Act.Misses {σ : Type} [QuerySystem σ] (p : Program) (budget index : Nat) (rootVisited : Bool) (t : Tick σ)
    (id : LaneId) (depth : Nat) : Prop :=
  ∃ i u, Visits p budget index rootVisited t i u ∧ ¬u.agent.Holds id depth

namespace Program

/-- The frame is put there in the tick: it was missing before, or when one of the steps began. No step takes a frame
from a lane and puts another one in its place. -/
def Renews {σ : Type} [QuerySystem σ] (p : Program) (maxCycles : Nat) (agent : Agent) (world : World σ) (id : LaneId)
    (depth : Nat) : Prop :=
  ¬agent.Holds id depth ∨ ∃ index u, p.Visits maxCycles agent world index u ∧ ¬u.agent.Holds id depth

/-- The agents between two ticks, with the times of the ticks in which their frames were put there. -/
inductive Dated (p : Program) : Agent → Dates → Prop
  | new {capacity block : Nat} {agent : Agent} (dates : Dates) (h : Agent.new capacity block = .ok agent) :
    Dated p agent dates
  | tick {σ : Type} [QuerySystem σ] {maxCycles : Nat} {agent : Agent} {world : World σ} {t : Tick σ}
    {dates dates' : Dates} (dated : Dated p agent dates) (h : p.tick maxCycles agent world = .ok t)
    (renewed : dates.Renewed (p.Renews maxCycles agent world) world.now dates') : Dated p t.agent dates'

end Program

/-! ### Steps -/

namespace Roster

variable {σ : Type} {p : Program} {index : Nat} {now : UInt64} {dates dates' : Dates} {r r' : Roster σ} {k : Kin}

def Holds (r : Roster σ) (id : LaneId) (depth : Nat) : Prop :=
  ∃ k ∈ r.lanes, k.id = id ∧ depth < k.frames.length

/-- Every lane that waits has begun to, and has the time of its top frame. -/
def Timed (p : Program) (dates : Dates) (r : Roster σ) : Prop :=
  ∀ k ∈ r.lanes, ∀ frame goal, p.Waits k.frames frame goal →
    frame.childIndex = 1 ∧ k.waitStart = dates k.id (k.frames.length - 1)

/-- So has every lane but that of `index`, which may have called the wait just now. -/
def Timing (p : Program) (now : UInt64) (dates : Dates) (index : Nat) (r : Roster σ) : Prop :=
  ∀ k ∈ r.lanes, ∀ frame goal, p.Waits k.frames frame goal →
    frame.childIndex = 1 ∧ k.waitStart = dates k.id (k.frames.length - 1) ∨
      frame.childIndex = 0 ∧ dates k.id (k.frames.length - 1) = now ∧ r.ids[index]? = some k.id

theorem Timed.timing (timed : r.Timed p dates) (now : UInt64) (index : Nat) : r.Timing p now dates index :=
  fun k hk frame goal waits => .inl (timed k hk frame goal waits)

theorem holds_top (hk : k ∈ r.lanes) {frame : Frame} {goal : WaitGoal} (waits : p.Waits k.frames frame goal) :
    r.Holds k.id (k.frames.length - 1) :=
  ⟨k, hk, rfl, Nat.sub_lt (List.length_pos_of_mem (List.mem_of_getLast? waits.last)) Nat.one_pos⟩

/-- No other lane has the id. -/
theorem not_holds_length (orderly : r.Orderly) (hk : k ∈ r.lanes) : ¬r.Holds k.id k.frames.length := by
  rintro ⟨c, hc, hid, hlt⟩
  obtain rfl := Kin.eq_of_id orderly.nodup hc hk hid
  exact Nat.lt_irrefl _ hlt

/-- What was there keeps its time, so that a lane which stays is as it was. -/
theorem Timed.renew (timed : r.Timed p dates) (renewed : dates.Renewed (fun id depth => ¬r.Holds id depth) now dates') :
    r.Timed p dates' := by
  intro k hk frame goal waits
  obtain ⟨hbegun, hstart⟩ := timed k hk frame goal waits
  exact ⟨hbegun, hstart.trans (renewed.old _ _ (not_not_intro (holds_top hk waits))).symm⟩

variable [QuerySystem σ]

/-- Only a lane that goes on can have called a wait. -/
theorem Timing.move (valid : p.Valid) (timing : r.Timing p now dates index) (regular : r.Regular p)
    {rootVisited : Bool} {outcome : Outcome} (moves : r.Moves p now index rootVisited outcome r')
    (hk : r.lanes[index]? = some k) (renewed : dates.Renewed (fun id depth => ¬r.Holds id depth) now dates') {k' : Kin}
    (hk' : k' ∈ r'.lanes) {frame : Frame} {goal : WaitGoal} (waits : p.Waits k'.frames frame goal) :
    frame.childIndex = 1 ∧ k'.waitStart = dates' k'.id (k'.frames.length - 1) ∨
      frame.childIndex = 0 ∧ dates' k'.id (k'.frames.length - 1) = now ∧ k'.id = k.id ∧ outcome ≠ .suspend := by
  have orderly := regular.orderly
  have hmem := List.mem_of_getElem? hk
  -- a lane that was there has kept its time
  have hkept {c : Kin} (hc : c ∈ r.lanes) {frame : Frame} {goal : WaitGoal} (waits : p.Waits c.frames frame goal) :
      dates' c.id (c.frames.length - 1) = dates c.id (c.frames.length - 1) :=
    renewed.old _ _ (not_not_intro (holds_top hc waits))
  cases moves.origin valid orderly regular.chained hk hk' with
  | other hold hid =>
    obtain ⟨hbegun, hstart⟩ | ⟨-, -, hplace⟩ := timing k' hold frame goal waits
    · exact .inl ⟨hbegun, hstart.trans (hkept hold waits).symm⟩
    · exact absurd (Option.some.inj (hplace.symm.trans (getElem?_ids hk))) hid
  | new _ hframes hroot => exact absurd waits (Kin.not_waits_start hroot hframes)
  | same hlater =>
    obtain ⟨hbegun, hstart⟩ | ⟨hfirst, -, -⟩ := timing k hmem frame goal waits
    · exact .inl ⟨hbegun, hstart.trans (hkept hmem waits).symm⟩
    · exact absurd hfirst (hlater frame goal waits)
  | elsewhere _ hfree => exact absurd waits (hfree frame goal)
  | called hid hlength hlast hgoes =>
    obtain rfl := Option.some.inj (hlast.symm.trans waits.last)
    refine .inr ⟨rfl, ?_, hid, hgoes⟩
    rw [hid, hlength, Nat.add_sub_cancel]
    exact renewed.new _ _ (not_holds_length orderly hmem)
  | @begun before goal' waits' hfirst =>
    have hframes := Kin.frames_setProgress (List.dropLast_append_getLast? before waits'.last).symm 1
    have hlast := waits.last
    rw [Kin.setWaitStart, hframes, List.getLast?_concat] at hlast
    obtain rfl := Option.some.inj hlast
    obtain ⟨hbegun, -⟩ | ⟨-, hnow, -⟩ := timing k hmem before goal' waits'
    · rw [hfirst] at hbegun
      cases hbegun
    · refine .inl ⟨rfl, ?_⟩
      rw [Kin.setWaitStart, Kin.length_setProgress]
      exact ((hkept hmem waits').trans hnow).symm

theorem Timing.goOn (valid : p.Valid) (timing : r.Timing p now dates index) (regular : r.Regular p)
    {rootVisited : Bool} {outcome : Outcome} (moves : r.Moves p now index rootVisited outcome r')
    (hk : r.lanes[index]? = some k) (renewed : dates.Renewed (fun id depth => ¬r.Holds id depth) now dates') :
    r'.Timing p now dates' index := by
  intro k' hk' frame goal waits
  have timing := timing.move valid regular moves hk renewed hk' waits
  refine timing.imp_right fun ⟨hfirst, hnow, hid, _⟩ => ⟨hfirst, hnow, ?_⟩
  obtain keeps | ⟨_, _, _, r'', _, _, rfl, hnext⟩ := moves.keeps_or regular.orderly
  · rw [keeps.getElem?_ids, getElem?_ids hk, hid]
  · -- the new primary lane has another id
    have hfresh := regular.orderly.fresh k (List.mem_of_getElem? hk)
    rw [lanes_restart, List.mem_singleton] at hk'
    rw [hk'] at hid
    exact absurd (hid.symm.trans hnext) (Nat.ne_of_lt hfresh)

theorem Timing.suspend (valid : p.Valid) (timing : r.Timing p now dates index) (regular : r.Regular p)
    {rootVisited : Bool} (moves : r.Moves p now index rootVisited .suspend r') (hk : r.lanes[index]? = some k)
    (renewed : dates.Renewed (fun id depth => ¬r.Holds id depth) now dates') : r'.Timed p dates' :=
  fun _ hk' _ _ waits => (timing.move valid regular moves hk renewed hk' waits).resolve_right fun h => h.2.2.2 rfl

end Roster

/-! ### Runs -/

variable {σ : Type} {p : Program} {index : Nat} {rootVisited : Bool} {outcome : Outcome} {t t' : Tick σ}
  {dates dates' : Dates}

theorem Tick.holds_roster {id : LaneId} {depth : Nat} : t.roster.Holds id depth ↔ t.agent.Holds id depth := by
  simp [Roster.Holds, Agent.Holds, Tick.roster, LaneStack.kin, LaneStack.kinOf, Kin.ofView]

theorem Agent.holds_roster {agent : Agent} {id : LaneId} {depth : Nat} :
    agent.roster.Holds id depth ↔ agent.Holds id depth := by
  simp [Roster.Holds, Agent.Holds, Agent.roster, LaneStack.kin, LaneStack.kinOf, Kin.ofView]

variable [QuerySystem σ]

/-- A step that returns is a move, after which the tick goes on. -/
theorem Tick.Going.moves (going : t.Going p) (valid : p.Valid) (h : index < t.agent.lanes.lanes.size)
    (hstep : Act.step p index rootVisited { t with cycle := t.cycle + 1 } = .ok (outcome, t')) :
    t'.Going p ∧ t.roster.Moves p t.world.now index rootVisited outcome t'.roster ∧ t'.world.now = t.world.now ∧
      (outcome = .suspend ∨ index < t'.agent.lanes.lanes.size) := by
  obtain ⟨going', -, hkept⟩ := going.step valid h hstep
  have moves := Act.step_moves valid (going.steady valid).counted (going.regular valid).orderly h rootVisited
  obtain ⟨moves, hnow⟩ := moves.of_ok hstep
  exact ⟨going', moves, hnow, hkept⟩

namespace Act

/-- A frame is missing when a run begins or later. -/
theorem misses_succ {budget : Nat} {id : LaneId} {depth : Nat} :
    Misses p (budget + 1) index rootVisited t id depth ↔ ¬t.agent.Holds id depth ∨
      match step p index rootVisited { t with cycle := t.cycle + 1 } with
      | .ok (.goOn, t') => Misses p budget index rootVisited t' id depth
      | .ok (.enterRoot, t') => Misses p budget index true t' id depth
      | .ok (.suspend, t') => index + 1 < t'.agent.lanes.lanes.size ∧
        ∃ t'', beginTurn p (index + 1) t' = .ok ((), t'') ∧ Misses p budget (index + 1) false t'' id depth
      | .error _ => False := by
  constructor
  · rintro ⟨i, u, visits, hmissing⟩
    cases visits with
    | here => exact .inl hmissing
    | goOn hstep hrest | enterRoot hstep hrest =>
      rw [hstep]
      exact .inr ⟨i, u, hrest, hmissing⟩
    | next hstep hmore hturn hrest =>
      rw [hstep]
      exact .inr ⟨hmore, _, hturn, i, u, hrest, hmissing⟩
  · rintro (hmissing | hlater)
    · exact ⟨index, t, .here, hmissing⟩
    · split at hlater
      next hstep =>
        obtain ⟨i, u, hrest, hmissing⟩ := hlater
        exact ⟨i, u, .goOn hstep hrest, hmissing⟩
      next hstep =>
        obtain ⟨i, u, hrest, hmissing⟩ := hlater
        exact ⟨i, u, .enterRoot hstep hrest, hmissing⟩
      next hstep =>
        obtain ⟨hmore, t'', hturn, i, u, hrest, hmissing⟩ := hlater
        exact ⟨i, u, .next hstep hmore hturn hrest, hmissing⟩
      next => exact hlater.elim

/-- After the last step. -/
theorem runFrom_timed (valid : p.Valid) (maxCycles budget : Nat) (timing : t.roster.Timing p t.world.now dates index)
    (going : t.Going p) (h : index < t.agent.lanes.lanes.size)
    (hrun : runFrom p maxCycles budget index rootVisited t = .ok t')
    (renewed : dates.Renewed (Misses p budget index rootVisited t) t.world.now dates') : t'.roster.Timed p dates' := by
  induction budget generalizing index rootVisited t dates with
  | zero => cases hrun
  | succ budget ih =>
    obtain ⟨k, hk⟩ := ((going.steady valid).shows (going.regular valid).orderly h).kin_of
    obtain ⟨between, first⟩ := dates.exists_renewed (fun id depth => ¬t.roster.Holds id depth) t.world.now
    have regular := going.regular valid
    rw [runFrom] at hrun
    cases hstep : Act.step p index rootVisited { t with cycle := t.cycle + 1 } with
    | error fault =>
      rw [hstep] at hrun
      cases hrun
    | ok r =>
      obtain ⟨outcome, u⟩ := r
      obtain ⟨going', moves, hnow, hkept⟩ := going.moves valid h hstep
      rw [hstep] at hrun
      cases outcome with
      | goOn =>
        have timing := hnow ▸ timing.goOn valid regular moves hk first
        refine ih timing going' (by simpa using hkept) hrun (hnow ▸ renewed.later first fun id depth => ?_)
        rw [misses_succ, hstep, Tick.holds_roster]
      | enterRoot =>
        have timing := hnow ▸ timing.goOn valid regular moves hk first
        refine ih timing going' (by simpa using hkept) hrun (hnow ▸ renewed.later first fun id depth => ?_)
        rw [misses_succ, hstep, Tick.holds_roster]
      | suspend =>
        dsimp only at hrun
        split_ifs at hrun with hmore
        · have timed := timing.suspend valid regular moves hk first
          obtain ⟨notices, hturn⟩ := beginTurn_eq (going'.steady valid) hmore
          rw [hturn] at hrun
          dsimp only at hrun
          have begun : Tick.Going p { u with notices := notices } := ⟨going'.lives, going'.suits⟩
          refine ih (t := { u with notices := notices }) (timed.timing _ _) begun hmore hrun
            (hnow ▸ renewed.later first fun id depth => ?_)
          rw [misses_succ, hstep, Tick.holds_roster]
          simp [hmore, hturn]
        · obtain rfl := Except.ok.inj hrun
          refine timing.suspend valid regular moves hk (renewed.congr fun id depth => ?_)
          rw [misses_succ, hstep, Tick.holds_roster]
          simp [hmore]

end Act

namespace Program

variable {agent : Agent} {world : World σ} {maxCycles : Nat} {spawns : Spawns}

/-- When the first lane begins its turn, the agent has the lanes that it had, or the primary one if it had none. -/
theorem start_going (valid : p.Valid) (lives : p.Lives agent spawns) (suits : world.Suits p)
    (hstart : (if agent.lanes.lanes.isEmpty then Act.createPrimary else pure () : Act σ Unit)
      ⟨agent, world, 0, #[]⟩ = .ok ((), t))
    (hturn : Act.beginTurn p 0 t = .ok ((), t')) :
    t'.Going p ∧ 0 < t'.agent.lanes.lanes.size ∧ t'.world.now = world.now ∧
      (t'.roster = Tick.roster ⟨agent, world, 0, #[]⟩ ∨ t'.roster = (Tick.roster ⟨agent, world, 0, #[]⟩).begin) := by
  have turning : agent.Turning (σ := σ) p (fun _ _ _ _ => True) (fun _ _ _ => True) :=
    ⟨fun _ _ _ => trivial, fun {_ _ outcome _ _ _ _} _ _ _ _ => by cases outcome <;> trivial, fun _ _ _ => trivial⟩
  obtain ⟨-, going, hsize⟩ := start_turning valid turning lives suits hstart hturn
  have hensures := start_ensures valid (lives.tallied valid).1 suits
  unfold Act.Ensures at hensures
  rw [hstart] at hensures
  obtain ⟨notices, hturn'⟩ := Act.beginTurn_eq hensures.1 hensures.2
  rw [hturn] at hturn'
  obtain ⟨-, rfl⟩ := Prod.mk.inj (Except.ok.inj hturn')
  refine ⟨going, hsize, ?_⟩
  split_ifs at hstart with hempty
  · obtain ⟨hroster, hnow⟩ :=
      (Act.createPrimary_roster (t := ⟨agent, world, 0, #[]⟩) (Array.isEmpty_iff.mp hempty)).of_ok hstart
    exact ⟨hnow, .inr hroster⟩
  · obtain ⟨-, rfl⟩ := Prod.mk.inj (Except.ok.inj hstart)
    exact ⟨rfl, .inl rfl⟩

/-- The times of the frames are kept along a tick. -/
theorem tick_timed (valid : p.Valid) (lives : p.Lives agent spawns) (timed : agent.roster.Timed p dates)
    (htick : p.tick maxCycles agent world = .ok t)
    (renewed : dates.Renewed (p.Renews maxCycles agent world) world.now dates') : t.agent.roster.Timed p dates' := by
  obtain ⟨checked, hlanes⟩ := unit_bind_eq_ok_iff.mp htick
  obtain ⟨t', hrun, hcheck⟩ := bind_eq_ok_iff.mp hlanes
  obtain ⟨-, hsame⟩ := unit_bind_eq_ok_iff.mp hcheck
  obtain rfl := Except.ok.inj hsame
  obtain ⟨⟨⟨⟩, started⟩, hstart, hrun⟩ := bind_eq_ok_iff.mp hrun
  obtain ⟨⟨⟨⟩, begun⟩, hturn, hrun⟩ := bind_eq_ok_iff.mp hrun
  obtain ⟨going, hsize, hnow, hroster⟩ := start_going valid lives (World.suits_of_check checked) hstart hturn
  obtain ⟨between, first⟩ := dates.exists_renewed (fun id depth => ¬agent.Holds id depth) world.now
  have timed := timed.renew (first.congr fun id depth => not_congr Agent.holds_roster.symm)
  have timed : begun.roster.Timed p between := by
    obtain hroster | hroster := hroster
    · exact hroster ▸ timed
    · -- the primary lane does not wait
      intro k hk frame goal waits
      rw [hroster] at hk
      obtain rfl := List.mem_singleton.mp hk
      obtain ⟨child, hroot⟩ := valid.root
      exact absurd waits (Kin.not_waits_start ⟨_, hroot, .inl rfl⟩ rfl)
  suffices timed : t'.roster.Timed p dates' from timed
  apply Act.runFrom_timed valid maxCycles maxCycles (timed.timing _ _) going hsize hrun
  refine hnow ▸ renewed.later first fun id depth => or_congr_right ⟨?_, ?_⟩
  · rintro ⟨i, u, ⟨started', begun', hstart', hturn', visits⟩, hmissing⟩
    obtain ⟨-, rfl⟩ := Prod.mk.inj (Except.ok.inj (hstart.symm.trans hstart'))
    obtain ⟨-, rfl⟩ := Prod.mk.inj (Except.ok.inj (hturn.symm.trans hturn'))
    exact ⟨i, u, visits, hmissing⟩
  · rintro ⟨i, u, visits, hmissing⟩
    exact ⟨i, u, ⟨started, begun, hstart, hturn, visits⟩, hmissing⟩

omit [QuerySystem σ] in
theorem Dated.reaches {dates : Dates} (dated : p.Dated agent dates) : p.Reaches agent := by
  induction dated with
  | new _ h => exact .new h
  | tick _ h _ ih => exact .tick ih h

omit [QuerySystem σ] in
/-- Every agent has such times. -/
theorem Reaches.dated (reaches : p.Reaches agent) : ∃ dates, p.Dated agent dates := by
  induction reaches with
  | new h => exact ⟨fun _ _ => 0, .new _ h⟩
  | @tick σ _ maxCycles agent world t _ h ih =>
    obtain ⟨dates, dated⟩ := ih
    obtain ⟨dates', renewed⟩ := dates.exists_renewed (p.Renews maxCycles agent world) world.now
    exact ⟨dates', .tick dated h renewed⟩

omit [QuerySystem σ] in
theorem Dated.timed (valid : p.Valid) (dated : p.Dated agent dates) : agent.roster.Timed p dates := by
  induction dated with
  | @new capacity block agent dates h =>
    have hempty : agent.lanes.kin = [] := by
      simp [LaneStack.kin, LaneStack.view, (Agent.empty_of_new h).1]
    intro k hk
    rw [show agent.roster.lanes = [] from hempty] at hk
    cases hk
  | tick dated h renewed ih =>
    obtain ⟨spawns, lives⟩ := dated.reaches.lives valid
    exact tick_timed valid lives ih h renewed

end Program

/-! ### Turns -/

/-- In a run, the lane of `i` begins its turn in `u`, after the turn of another one. -/
inductive Act.Turns (p : Program) : Nat → Nat → Bool → Tick σ → Nat → Tick σ → Prop
  | goOn {budget index i : Nat} {rootVisited : Bool} {t t' u : Tick σ}
    (hstep : step p index rootVisited { t with cycle := t.cycle + 1 } = .ok (.goOn, t'))
    (hrest : Turns p budget index rootVisited t' i u) : Turns p (budget + 1) index rootVisited t i u
  | enterRoot {budget index i : Nat} {rootVisited : Bool} {t t' u : Tick σ}
    (hstep : step p index rootVisited { t with cycle := t.cycle + 1 } = .ok (.enterRoot, t'))
    (hrest : Turns p budget index true t' i u) : Turns p (budget + 1) index rootVisited t i u
  | next {budget index : Nat} {rootVisited : Bool} {t t' u : Tick σ}
    (hstep : step p index rootVisited { t with cycle := t.cycle + 1 } = .ok (.suspend, t'))
    (hmore : index + 1 < t'.agent.lanes.lanes.size) (hturn : beginTurn p (index + 1) t' = .ok ((), u)) :
    Turns p (budget + 1) index rootVisited t (index + 1) u
  | later {budget index i : Nat} {rootVisited : Bool} {t t' t'' u : Tick σ}
    (hstep : step p index rootVisited { t with cycle := t.cycle + 1 } = .ok (.suspend, t'))
    (hmore : index + 1 < t'.agent.lanes.lanes.size) (hturn : beginTurn p (index + 1) t' = .ok ((), t''))
    (hrest : Turns p budget (index + 1) false t'' i u) : Turns p (budget + 1) index rootVisited t i u

/-- In a tick from here, the lane of `index` begins its turn in `u`. -/
def Program.Turns (p : Program) (maxCycles : Nat) (agent : Agent) (world : World σ) (index : Nat) (u : Tick σ) : Prop :=
  world.check p = .ok () ∧ ∃ t t', (if agent.lanes.lanes.isEmpty then Act.createPrimary else pure () : Act σ Unit)
      ⟨agent, world, 0, #[]⟩ = .ok ((), t) ∧
    Act.beginTurn p 0 t = .ok ((), t') ∧ (index = 0 ∧ u = t' ∨ Act.Turns p maxCycles 0 false t' index u)

namespace Roster

variable {r r' : Roster σ} {k k' : Kin} {before : List Kin} {next : LaneId} {now : UInt64}

omit [QuerySystem σ] in
/-- The lanes younger than `current` are as they were before the tick, or were started in it. -/
structure Awaits (before : List Kin) (next current : LaneId) (r : Roster σ) : Prop where
  next_le : next ≤ r.next
  later : ∀ k ∈ r.lanes, current < k.id → k ∈ before ∨ next ≤ k.id

/-- What a lane does leaves those alone that are to come. -/
theorem Awaits.move (valid : p.Valid) (awaits : r.Awaits before next k.id) (regular : r.Regular p)
    (moves : r.Moves p now index rootVisited outcome r') (hk : r.lanes[index]? = some k) :
    r'.Awaits before next k.id where
  next_le := Nat.le_trans awaits.next_le moves.ids.1
  later k' hk' hlater := by
    cases moves.origin valid regular.orderly regular.chained hk hk' with
    | other hold _ => exact awaits.later k' hold hlater
    | new hnew _ _ => exact .inr (Nat.le_trans awaits.next_le hnew)
    | same _ | begun _ _ => exact absurd hlater (Nat.lt_irrefl _)
    | elsewhere hid _ | called hid _ _ _ => exact absurd hlater (hid ▸ Nat.lt_irrefl _)

omit [QuerySystem σ] in
theorem Awaits.mono {current current' : LaneId} (awaits : r.Awaits before next current) (h : current ≤ current') :
    r.Awaits before next current' :=
  ⟨awaits.next_le, fun k hk hlater => awaits.later k hk (Nat.lt_of_le_of_lt h hlater)⟩

/-- The lane that goes on is as old as it was, unless it is a new primary one. -/
theorem Moves.le_id (moves : r.Moves p now index rootVisited outcome r') (regular : r.Regular p)
    (hk : r.lanes[index]? = some k) (hk' : r'.lanes[index]? = some k') : k.id ≤ k'.id := by
  obtain keeps | ⟨_, _, _, r'', _, _, rfl, hnext⟩ := moves.keeps_or regular.orderly
  · have hids := keeps.getElem?_ids
    rw [getElem?_ids hk, getElem?_ids hk'] at hids
    exact Nat.le_of_eq (Option.some.inj hids).symm
  · have hmem := List.mem_of_getElem? hk'
    rw [lanes_restart] at hmem
    obtain rfl := List.mem_singleton.mp hmem
    exact hnext ▸ Nat.le_of_lt (regular.orderly.fresh k (List.mem_of_getElem? hk))

/-- The lane behind it is younger. -/
theorem Moves.lt_id (moves : r.Moves p now index rootVisited outcome r') (regular : r.Regular p)
    (regular' : r'.Regular p) (hk : r.lanes[index]? = some k) (hk' : r'.lanes[index + 1]? = some k') :
    k.id < k'.id := by
  obtain keeps | ⟨_, _, _, r'', _, _, rfl, -⟩ := moves.keeps_or regular.orderly
  · exact lt_of_sorted regular'.sorted (keeps.getElem?_ids.trans (getElem?_ids hk)) (getElem?_ids hk')
  · rw [lanes_restart] at hk'
    cases hk'

end Roster

namespace Act

variable {before : List Kin} {next : LaneId}

/-- When a lane begins its turn, it is as it was before the tick, or was started in it. -/
theorem Turns.untouched (valid : p.Valid) {budget i : Nat} {u : Tick σ} (turns : Turns p budget index rootVisited t i u)
    (going : t.Going p) (h : index < t.agent.lanes.lanes.size) {k : Kin} (hk : t.roster.lanes[index]? = some k)
    (awaits : t.roster.Awaits before next k.id) :
    u.Going p ∧ i < u.agent.lanes.lanes.size ∧ u.world.now = t.world.now ∧
      ∀ c, u.roster.lanes[i]? = some c → c ∈ before ∨ next ≤ c.id := by
  induction turns generalizing k with
  | goOn hstep _ ih | enterRoot hstep _ ih =>
    obtain ⟨going', moves, hnow, hkept⟩ := going.moves valid h hstep
    have regular := going.regular valid
    have h' : _ < _ := hkept.resolve_left nofun
    obtain ⟨k', hk'⟩ := ((going'.steady valid).shows (going'.regular valid).orderly h').kin_of
    have awaits := (awaits.move valid regular moves hk).mono (moves.le_id regular hk hk')
    exact hnow ▸ ih going' h' hk' awaits
  | next hstep hmore hturn =>
    obtain ⟨going', moves, hnow, -⟩ := going.moves valid h hstep
    have regular := going.regular valid
    obtain ⟨notices, k', rfl, hk', -⟩ := going'.turn valid hmore hturn
    refine ⟨⟨going'.lives, going'.suits⟩, hmore, hnow, fun c hc => ?_⟩
    exact (awaits.move valid regular moves hk).later c (List.mem_of_getElem? hc)
      (moves.lt_id regular (going'.regular valid) hk hc)
  | later hstep hmore hturn _ ih =>
    obtain ⟨going', moves, hnow, -⟩ := going.moves valid h hstep
    have regular := going.regular valid
    obtain ⟨notices, k', rfl, hk', -⟩ := going'.turn valid hmore hturn
    have hlt := moves.lt_id regular (going'.regular valid) hk hk'
    have awaits := (awaits.move valid regular moves hk).mono (Nat.le_of_lt hlt)
    exact hnow ▸ ih ⟨going'.lives, going'.suits⟩ hmore hk' awaits

end Act

/-- The lanes of an agent that begin a turn are untouched. -/
theorem Program.Turns.untouched (valid : p.Valid) {agent : Agent} (reaches : p.Reaches agent) {world : World σ}
    {maxCycles : Nat} {u : Tick σ} (turns : p.Turns maxCycles agent world index u) :
    u.Going p ∧ index < u.agent.lanes.lanes.size ∧ u.world.now = world.now ∧
      ∀ c, u.roster.lanes[index]? = some c → c ∈ agent.lanes.kin ∨ agent.nextLane ≤ c.id := by
  obtain ⟨checked, t, t', hstart, hturn, hturns⟩ := turns
  obtain ⟨spawns, lives⟩ := reaches.lives valid
  obtain ⟨going, hsize, hnow, hroster⟩ := start_going valid lives (World.suits_of_check checked) hstart hturn
  have hlanes : ∀ k ∈ t'.roster.lanes, k ∈ agent.lanes.kin ∨ agent.nextLane ≤ k.id := by
    intro k hk
    obtain hroster | hroster := hroster
    · rw [hroster] at hk
      exact .inl hk
    · rw [hroster] at hk
      obtain rfl := List.mem_singleton.mp hk
      exact .inr (Nat.le_refl _)
  have hnext : agent.nextLane ≤ t'.roster.next := by
    obtain hroster | hroster := hroster
    · exact Nat.le_of_eq (congrArg Roster.next hroster).symm
    · exact Nat.le_trans (Nat.le_succ _) (Nat.le_of_eq (congrArg Roster.next hroster).symm)
  obtain ⟨rfl, rfl⟩ | hturns := hturns
  · exact ⟨going, hsize, hnow, fun c hc => hlanes c (List.mem_of_getElem? hc)⟩
  · obtain ⟨k, hk⟩ := ((going.steady valid).shows (going.regular valid).orderly hsize).kin_of
    exact hnow ▸ hturns.untouched valid going hsize hk ⟨hnext, fun c hc _ => hlanes c hc⟩

/-! ### The end of a wait -/

/-- Whether a wait that began at `start` is over: more time has passed than its duration, or its condition holds. -/
def WaitGoal.passed (s : Surroundings) (start now : UInt64) : WaitGoal → Except Fault Bool
  | .duration seconds => (s.evaluateFloat seconds).map fun duration =>
    (Float32.ofBits duration).toFloat < Float.ofBits now - Float.ofBits start
  | .condition holds => s.evaluateBool holds

omit [QuerySystem σ] in
/-- The values of a validated program can be read. -/
theorem WaitGoal.exists_passed (valid : p.Valid) {world : World σ} (suits : world.Suits p) {goal : WaitGoal}
    (hgoal : p.NodeValid (.wait goal)) (start now : UInt64) :
    ∃ passed, goal.passed (world.surroundings p) start now = .ok passed := by
  cases goal with
  | condition holds =>
    exact Surroundings.evaluateBool_ok valid suits (hgoal.values holds (by simp [Node.values])) hgoal.payload
  | duration seconds =>
    obtain ⟨bits, hbits⟩ := Surroundings.evaluateFloat_ok valid suits (hgoal.values seconds (by simp [Node.values]))
      hgoal.payload
    exact ⟨_, congrArg (Except.map _) hbits⟩

namespace Act

omit [QuerySystem σ] in
theorem waitOver_eq (h : index < t.agent.lanes.lanes.size) {goal : WaitGoal} {passed : Bool}
    (hpassed : goal.passed (t.world.surroundings p) t.agent.lanes.lanes[index].waitStart t.world.now = .ok passed) :
    ∃ notices, waitOver p index goal t = .ok (passed, { t with notices := notices }) := by
  cases goal with
  | condition holds => exact ⟨_, evaluateWith_eq hpassed⟩
  | duration seconds =>
    cases hbits : (t.world.surroundings p).evaluateFloat seconds with
    | error fault =>
      rw [WaitGoal.passed, hbits] at hpassed
      cases hpassed
    | ok bits =>
      rw [WaitGoal.passed, hbits] at hpassed
      have hlane := lane_eq (t := { t with notices := t.notices.push (.evaluated seconds) }) h
      refine ⟨t.notices.push (.evaluated seconds), (bind_eq (evaluateWith_eq hbits)).trans ((bind_eq hlane).trans ?_)⟩
      rw [← Except.ok.inj hpassed]
      rfl

variable (rootVisited) in
/-- A wait that has begun either is over and hands control back, or stays as it is until the next turn. -/
theorem step_waits (valid : p.Valid) (steady : t.Steady p) {v : LaneView} (hv : t.agent.lanes.view[index]? = some v)
    {frame : Frame} {goal : WaitGoal} (waits : p.Waits v.frames frame goal) (hlater : frame.childIndex ≠ 0) :
    ∃ passed t', goal.passed (t.world.surroundings p) v.waitStart t.world.now = .ok passed ∧
      step p index rootVisited t = .ok (if passed then .goOn else .suspend, t') ∧
      t'.agent.lanes.view = if passed then t.agent.lanes.view.modify index LaneView.pop else t.agent.lanes.view := by
  obtain ⟨lane, hlane, rfl⟩ := LaneStack.getElem?_view_eq_some_iff.mp hv
  obtain ⟨h, rfl⟩ := Array.getElem?_eq_some_iff.mp hlane
  have hknown := (steady.framed _ _ hv).known frame (List.mem_of_getLast? waits.last)
  have htop : t.agent.lanes.top? index = .ok (some frame) := by
    rw [LaneStack.top?_eq steady.ordered hlane]
    exact congrArg Except.ok waits.last
  obtain ⟨passed, hpassed⟩ := WaitGoal.exists_passed valid steady.suits (valid.node waits.known)
    t.agent.lanes.lanes[index].waitStart t.world.now
  obtain ⟨notices, hwait⟩ := waitOver_eq h hpassed
  have hensures : (wait p index frame goal).Ensures t (fun _ => False) fun outcome t' =>
      outcome = (if passed then .goOn else .suspend) ∧
        t'.agent.lanes.view = if passed then t.agent.lanes.view.modify index LaneView.pop else t.agent.lanes.view := by
    unfold wait
    rw [if_neg hlater]
    refine .bind_of_eq hwait ?_
    cases passed with
    | false =>
      obtain ⟨_, hemit⟩ := emit_eq (t := { t with notices := notices }) hknown h .wait
      exact .bind_of_eq hemit (.pure ⟨rfl, rfl⟩)
    | true =>
      obtain ⟨_, hemit⟩ := emit_eq (t := { t with notices := notices }) hknown h .return
      obtain ⟨top, lanes, hpop, -, hview, -, -⟩ := LaneStack.pop_eq steady.ordered h
      refine .seq (.bind_of_eq hemit (.onLanes (a := ()) ?_ fun _ => hview)) fun _ _ hview => .pure ⟨rfl, hview⟩
      show (t.agent.lanes.pop index).map _ = _
      rw [hpop]
      rfl
  obtain ⟨outcome, t', hstep, rfl, hview⟩ := hensures.ok
  exact ⟨passed, t', hpassed, (step_eq h htop waits.known rootVisited).trans hstep, hview⟩

end Act

/-! ### Waits -/

/-- Between ticks, a lane that waits has begun to, and has the time of the tick in which the frame of the wait was put
on top of it. At its next turn it is as it was then: the frame goes if the wait is over since that time, and otherwise
the lane suspends and stays as it is. -/
theorem Program.waits_timed (accepted : p.validate = .ok ()) :
    (∀ agent, p.Reaches agent ↔ ∃ dates, p.Dated agent dates) ∧
    ∀ agent dates, p.Dated agent dates → ∀ w ∈ agent.lanes.view, ∀ frame goal, p.Waits w.frames frame goal →
      frame.childIndex = 1 ∧ w.waitStart = dates w.id (w.frames.length - 1) ∧
      ∀ {σ : Type} [QuerySystem σ] (world : World σ) maxCycles index (u : Tick σ) v,
        p.Turns maxCycles agent world index u → u.agent.lanes.view[index]? = some v → v.id = w.id →
        v.frames = w.frames ∧ v.waitStart = w.waitStart ∧
        ∃ passed u', goal.passed (u.world.surroundings p) w.waitStart world.now = .ok passed ∧
          Act.step p index false { u with cycle := u.cycle + 1 } = .ok (if passed then .goOn else .suspend, u') ∧
          u'.agent.lanes.view[index]? = some { v with frames := if passed then w.frames.dropLast else w.frames } := by
  have valid : p.Valid := validate_eq_ok_iff.mp accepted
  refine ⟨fun agent => ⟨Reaches.dated, fun ⟨_, dated⟩ => dated.reaches⟩, ?_⟩
  intro agent dates dated w hw frame goal waits
  have hkin : agent.lanes.kinOf w ∈ agent.lanes.kin := List.mem_map_of_mem hw
  obtain ⟨hbegun, hstart⟩ := dated.timed valid _ hkin frame goal waits
  refine ⟨hbegun, hstart, fun world maxCycles index u v turns hv hid => ?_⟩
  obtain ⟨spawns, lives⟩ := dated.reaches.lives valid
  have orderly := (lives.regular valid).orderly
  obtain ⟨going, h, hnow, huntouched⟩ := turns.untouched valid dated.reaches
  have hc : u.roster.lanes[index]? = some (u.agent.lanes.kinOf v) :=
    (LaneStack.getElem?_kin _ _).trans (congrArg (Option.map _) hv)
  obtain hmem | hnew := huntouched _ hc
  · -- the lane has its id alone
    have hsame := Kin.eq_of_id orderly.nodup hmem hkin hid
    have hframes : v.frames = w.frames := congrArg Kin.frames hsame
    have hwait : v.waitStart = w.waitStart := congrArg Kin.waitStart hsame
    have hlater : frame.childIndex ≠ 0 := by
      rw [hbegun]
      decide
    have steady := (going.steady valid).counted
    obtain ⟨passed, u', hpassed, hstep, hview⟩ :=
      Act.step_waits false valid steady hv (hframes ▸ waits) hlater
    refine ⟨hframes, hwait, passed, u', hwait ▸ hnow ▸ hpassed, hstep, ?_⟩
    rw [hview]
    cases passed with
    | false => exact hv.trans (by rw [← hframes]; rfl)
    | true =>
      rw [if_pos rfl, List.getElem?_modify_eq, hv, ← hframes]
      rfl
  · have hfresh : w.id < agent.nextLane := orderly.fresh _ hkin
    exact absurd (show agent.nextLane ≤ w.id from hid ▸ hnew) (Nat.not_le_of_lt hfresh)

namespace Program

/-- Waits for what never comes. -/
def vigil : Program where
  expressions := ⟨[0], #[]⟩
  entries := #[.ofNode .nop, .ofNode (.root ⟨2⟩), .ofNode (.wait (.condition (.constant 0 1)))]
  types := #[]
  lookups := #[]
  blackboardSize := 0

def vigilWorld (now : UInt64) : World QueryBoard :=
  { World.blank vigil (Memory.zeros 0) .empty with now := now }

/-- The end of the first tick. -/
def vigilEnd : Tick QueryBoard :=
  match vigil.tick 20 .fresh (vigilWorld 7) with
  | .ok t => t
  | .error _ => ⟨.fresh, vigilWorld 7, 0, #[]⟩

/-- The beginning of the second one. -/
def vigilTurn : Tick QueryBoard :=
  match Act.beginTurn vigil 0 ⟨vigilEnd.agent, vigilWorld 9, 0, #[]⟩ with
  | .ok ((), t) => t
  | .error _ => vigilEnd

theorem waits_timed_vigil : vigil.validate = .ok () ∧
    vigil.tick 20 .fresh (vigilWorld 7) = .ok vigilEnd ∧
    vigilEnd.agent.lanes.view = [⟨0, none, 7, [⟨⟨1⟩, 1⟩, ⟨⟨2⟩, 1⟩]⟩] ∧
    (∃ dates, vigil.Dated vigilEnd.agent dates ∧ dates 0 1 = 7) ∧
    vigil.Turns 20 vigilEnd.agent (vigilWorld 9) 0 vigilTurn ∧
    ∃ passed u', WaitGoal.passed (vigilTurn.world.surroundings vigil) 7 9 (.condition (.constant 0 1)) = .ok passed ∧
      Act.step vigil 0 false { vigilTurn with cycle := vigilTurn.cycle + 1 } =
        .ok (if passed then .goOn else .suspend, u') ∧
      u'.agent.lanes.view[0]? = some ⟨0, none, 7, if passed then [⟨⟨1⟩, 1⟩] else [⟨⟨1⟩, 1⟩, ⟨⟨2⟩, 1⟩]⟩ := by
  have hreturns : (vigil.tick 20 .fresh (vigilWorld 7)).map (fun _ => ()) = .ok () := by decide +kernel
  obtain ⟨t, htick, -⟩ := map_eq_ok_iff.mp hreturns
  obtain rfl : vigilEnd = t := by rw [vigilEnd, htick]
  have hview : vigilEnd.agent.lanes.view = [⟨0, none, 7, [⟨⟨1⟩, 1⟩, ⟨⟨2⟩, 1⟩]⟩] := by cbv
  have hbegins : (Act.beginTurn vigil 0 ⟨vigilEnd.agent, vigilWorld 9, 0, #[]⟩).map (fun _ => ()) = .ok () := by
    decide +kernel
  obtain ⟨⟨⟨⟩, t⟩, hturn, -⟩ := map_eq_ok_iff.mp hbegins
  obtain rfl : vigilTurn = t := by rw [vigilTurn, hturn]
  have hlanes : vigilTurn.agent.lanes.view[0]? = some ⟨0, none, 7, [⟨⟨1⟩, 1⟩, ⟨⟨2⟩, 1⟩]⟩ := by cbv
  have hstart : vigilEnd.agent.lanes.lanes.isEmpty = false := by decide +kernel
  have waits : vigil.Waits [⟨⟨1⟩, 1⟩, ⟨⟨2⟩, 1⟩] ⟨⟨2⟩, 1⟩ (.condition (.constant 0 1)) := ⟨rfl, rfl⟩
  have reaches : vigil.Reaches vigilEnd.agent := .tick (.new (show Agent.new 32 8 = .ok .fresh from rfl)) htick
  have turns : vigil.Turns 20 vigilEnd.agent (vigilWorld 9) 0 vigilTurn :=
    ⟨by decide +kernel, ⟨vigilEnd.agent, vigilWorld 9, 0, #[]⟩, vigilTurn, by rw [hstart]; rfl, hturn, .inl ⟨rfl, rfl⟩⟩
  obtain ⟨hdated, htimed⟩ := waits_timed (p := vigil) rfl
  obtain ⟨dates, dated⟩ := (hdated _).mp reaches
  obtain ⟨-, hdate, hturns⟩ := htimed _ dates dated _ (hview ▸ List.mem_singleton_self _) _ _ waits
  obtain ⟨-, -, hpassed⟩ := hturns _ 20 0 vigilTurn _ turns hlanes rfl
  exact ⟨rfl, htick, hview, ⟨dates, dated, hdate.symm⟩, turns, hpassed⟩

end Program

end BehaviorTree
