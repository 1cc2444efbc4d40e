import BehaviorTree.Proofs.Machine.Marks

/-! The turns of a tick. Lanes take them in the order of their ids, although lanes are started and removed meanwhile.
As long as the agent does not start over, the lanes up to the current one are those that have had a turn. -/

namespace BehaviorTree

open Landmark (turns restarts)

namespace Roster

variable {σ : Type} {index : Nat} {r r' : Roster σ} {landmarks new : List Landmark}

/-- The turns of a tick while the lane of `index` has its own. -/
structure Fair (index : Nat) (r : Roster σ) (landmarks : List Landmark) : Prop where
  ordered : (turns landmarks).Pairwise (· < ·)
  latest : ∃ id, r.ids[index]? = some id ∧ ∀ turn ∈ turns landmarks, turn ≤ id
  complete : restarts landmarks = [] → turns landmarks = r.ids.take (index + 1)

/-- The turns of a tick when the lane of `index` has suspended. -/
structure Passed (index : Nat) (r : Roster σ) (landmarks : List Landmark) : Prop where
  ordered : (turns landmarks).Pairwise (· < ·)
  later : ∀ id, r.ids[index + 1]? = some id → ∀ turn ∈ turns landmarks, turn < id
  complete : restarts landmarks = [] → turns landmarks = r.ids.take (index + 1)

theorem Fair.start {k : Kin} (hk : r.lanes[0]? = some k) : r.Fair 0 [.began k.id] := by
  have hid := getElem?_ids hk
  refine ⟨List.pairwise_singleton _ _, ⟨k.id, hid, ?_⟩, fun _ => ?_⟩
  · simp [turns]
  · simp [turns, List.take_add_one, hid]

theorem Passed.next (passed : r.Passed index landmarks) {k : Kin} (hk : r.lanes[index + 1]? = some k) :
    r.Fair (index + 1) (landmarks ++ [.began k.id]) := by
  have hid := getElem?_ids hk
  have hturns : turns (landmarks ++ [.began k.id]) = turns landmarks ++ [k.id] := Landmark.turns_append _ _
  have hlater := passed.later k.id hid
  refine ⟨?_, ⟨k.id, hid, fun turn hturn => ?_⟩, fun hrestarts => ?_⟩
  · rw [hturns]
    exact List.pairwise_append.mpr ⟨passed.ordered, List.pairwise_singleton _ _, by simpa using hlater⟩
  · rw [hturns] at hturn
    obtain hold | hnew := List.mem_append.mp hturn
    · exact Nat.le_of_lt (hlater turn hold)
    · exact Nat.le_of_eq (List.mem_singleton.mp hnew)
  · have hnone : restarts landmarks = [] := by simpa [restarts] using hrestarts
    rw [hturns, passed.complete hnone, List.take_add_one (i := index + 1), hid, Option.toList_some]

/-- The lanes behind the one that suspends are younger. -/
theorem Fair.passed (fair : r.Fair index landmarks) (sorted : r.ids.Pairwise (· < ·)) : r.Passed index landmarks where
  ordered := fair.ordered
  later := by
    intro id hid turn hturn
    obtain ⟨current, hcurrent, hlatest⟩ := fair.latest
    exact Nat.lt_of_le_of_lt (hlatest turn hturn) (lt_of_sorted sorted hcurrent hid)
  complete := fair.complete

theorem Fair.keeps (fair : r.Fair index landmarks) (keeps : r.Keeps index r') (hturns : turns new = [])
    (hrestarts : restarts new = []) : r'.Fair index (landmarks ++ new) := by
  have hsame : turns (landmarks ++ new) = turns landmarks := by simp [hturns]
  refine ⟨hsame ▸ fair.ordered, ?_, fun hnone => ?_⟩
  · obtain ⟨id, hid, hlatest⟩ := fair.latest
    exact ⟨id, keeps.getElem?_ids.trans hid, hsame ▸ hlatest⟩
  · rw [hsame, keeps.stay]
    exact fair.complete (by simpa [hrestarts] using hnone)

/-- No lane that is still to come had a turn. -/
theorem Fair.lt_next (fair : r.Fair index landmarks) (orderly : r.Orderly) :
    ∀ turn ∈ turns landmarks, turn < r.next := by
  obtain ⟨id, hid, hlatest⟩ := fair.latest
  exact fun turn hturn => Nat.lt_of_le_of_lt (hlatest turn hturn) (orderly.lt_next hid)

end Roster

variable {σ : Type} [QuerySystem σ] {p : Program} {agent : Agent}

theorem Roster.Fair.turning : agent.Turning (σ := σ) p (fun index _ => Fair index) Passed where
  start _ hk _ := .start hk
  next passed _ hk := passed.next hk
  step := by
    intro index rootVisited outcome r r' landmarks new fair regular regular' marks
    cases marks with
    | yield => exact (fair.keeps (.refl r) rfl rfl).passed regular'.sorted
    | enter hk hframes => exact fair.keeps (.call hk (by simp [hframes]) 1 (.inl (by decide)) _) rfl rfl
    | other _ _ keeps hstay =>
      have fair : r'.Fair index (landmarks ++ []) := fair.keeps keeps rfl rfl
      cases outcome with
      | goOn => exact fair
      | enterRoot => exact absurd rfl hstay
      | suspend => exact fair.passed regular'.sorted
    | @restart k r'' _ _ hnext =>
      have hturns : turns (landmarks ++ [.restarted k.id]) = turns landmarks := by simp [turns]
      have hrestarts : restarts (landmarks ++ [.restarted k.id]) ≠ [] := by simp [restarts]
      by_cases hi : index = 0
      · -- the new primary lane is younger than all that had a turn
        subst hi
        have hlt := hnext ▸ fair.lt_next regular.orderly
        refine ⟨hturns ▸ fair.ordered, ⟨r''.next, by rw [ids_restart]; rfl, fun turn hturn => ?_⟩,
          fun h => absurd h hrestarts⟩
        exact Nat.le_of_lt (hlt turn (hturns ▸ hturn))
      · simp only [hi, if_false]
        refine ⟨hturns ▸ fair.ordered, fun id hid => ?_, fun h => absurd h hrestarts⟩
        simp [ids_restart] at hid

namespace Program

/-- In a tick no lane has two turns, and older lanes have theirs before younger ones. Unless the agent starts over, the
lanes that are left at the end are those that had a turn, each of them once. -/
theorem turns_fair (accepted : p.validate = .ok ()) (reaches : p.Reaches agent) {world : World σ} {maxCycles : Nat}
    {t : Tick σ} (htick : p.tick maxCycles agent world = .ok t) :
    (turns t.landmarks).Pairwise (· < ·) ∧
    (restarts t.landmarks = [] → turns t.landmarks = t.agent.lanes.view.map (·.id) ∧
      ∀ v ∈ t.agent.lanes.view, (turns t.landmarks).count v.id = 1) := by
  have valid : p.Valid := validate_eq_ok_iff.mp accepted
  obtain ⟨spawns, lives⟩ := reaches.lives valid
  obtain ⟨index, passed, hlast⟩ := tick_turning valid Roster.Fair.turning lives htick
  refine ⟨passed.ordered, fun hnone => ?_⟩
  have hturns : turns t.landmarks = t.agent.lanes.view.map (·.id) := by
    have hids : t.roster.ids = t.agent.lanes.view.map (·.id) := t.agent.lanes.ids_kin
    rw [passed.complete hnone, List.take_of_length_le (by simpa [Roster.ids] using hlast), hids]
  refine ⟨hturns, fun v hv => List.count_eq_one_of_mem ?_ (hturns ▸ List.mem_map_of_mem hv)⟩
  exact passed.ordered.imp Nat.ne_of_lt

/-- Starts a lane that is removed before its turn, and another one that waits. -/
def volley : Program where
  expressions := ⟨[0], #[]⟩
  entries := #[.ofNode .nop, .ofNode (.root ⟨2⟩), .ofNode (.sequence #[⟨3⟩, ⟨4⟩]), .ofNode (.parallel ⟨5⟩ ⟨7⟩),
    .ofNode (.parallel ⟨6⟩ ⟨8⟩), .ofNode .nop, .ofNode (.wait (.condition (.constant 0 1))),
    .ofNode (.threadRoot ⟨5⟩ true), .ofNode (.threadRoot ⟨6⟩ true)]
  types := #[]
  lookups := #[]
  blackboardSize := 0

def volleyWorld : World QueryBoard :=
  .blank volley (Memory.zeros 0) .empty

/-- The end of the first tick. -/
def volleyEnd : Tick QueryBoard :=
  match volley.tick 20 .fresh volleyWorld with
  | .ok t => t
  | .error _ => ⟨.fresh, volleyWorld, 0, #[]⟩

theorem turns_fair_volley : volley.validate = .ok () ∧ volley.Reaches .fresh ∧
    volley.tick 20 .fresh volleyWorld = .ok volleyEnd ∧ restarts volleyEnd.landmarks = [] ∧
    turns volleyEnd.landmarks = [0, 2] ∧ volleyEnd.agent.lanes.view.map (·.id) = [0, 2] ∧
    ∀ v ∈ volleyEnd.agent.lanes.view, (turns volleyEnd.landmarks).count v.id = 1 := by
  have reaches : volley.Reaches .fresh := .new (show Agent.new 32 8 = .ok .fresh from rfl)
  have hrun : (volley.tick 20 .fresh volleyWorld).map
      (fun t => (restarts t.landmarks, turns t.landmarks, t.agent.lanes.view.map (·.id))) =
        .ok ([], [0, 2], [0, 2]) := by
    decide +kernel
  obtain ⟨t, htick, hend⟩ := Refusal.map_eq_ok_iff.mp hrun
  obtain rfl : volleyEnd = t := by rw [volleyEnd, htick]
  obtain ⟨hnone, hturns, hids⟩ := by simpa only [Prod.mk.injEq] using hend
  exact ⟨rfl, reaches, htick, hnone, hturns, hids, ((turns_fair rfl reaches htick).2 hnone).2⟩

end Program

end BehaviorTree
