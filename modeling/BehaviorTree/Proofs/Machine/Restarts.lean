import BehaviorTree.Proofs.Machine.Marks

/-! How often the bottom frames of lanes call their children, and how often the agent starts over. The flag that keeps
the root from running twice belongs to the turn of a lane, and outlives the first lane when another one replaces it. -/

namespace BehaviorTree

open Landmark (entries restarts)

/-- How often the root has called its child in a tick, at most, while the lane of `index` has its turn. -/
def rootVisits (index : Nat) (rootVisited : Bool) : Nat :=
  if index = 0 ∧ rootVisited = false then 0 else 1

theorem rootVisits_le (index : Nat) (rootVisited : Bool) : rootVisits index rootVisited ≤ 1 := by
  unfold rootVisits
  split_ifs
  · exact Nat.zero_le 1
  · exact Nat.le_refl 1

theorem rootVisits_true (index : Nat) : rootVisits index true = 1 := by
  simp [rootVisits]

theorem rootVisits_of_ne_zero {index : Nat} (h : index ≠ 0) (rootVisited : Bool) : rootVisits index rootVisited = 1 := by
  simp [rootVisits, h]

/-- The node is a thread root that does not loop. -/
def Program.isOnce (p : Program) (id : NodeId) : Bool :=
  match p.node? id with
  | some (.threadRoot _ false) => true
  | _ => false

/-- The lanes of which the bottom frame is a thread root that does not loop, as often as it called its child. -/
def Program.onces (p : Program) (landmarks : List Landmark) : List LaneId :=
  ((Landmark.entries landmarks).filter fun entry => p.isOnce entry.2).map (·.1)

theorem Program.onces_append (p : Program) (before after : List Landmark) :
    p.onces (before ++ after) = p.onces before ++ p.onces after := by
  simp [onces]

theorem Program.exists_of_isOnce {p : Program} {id : NodeId} (h : p.isOnce id = true) :
    ∃ child, p.node? id = some (.threadRoot child false) := by
  unfold isOnce at h
  split at h
  next child hnode => exact ⟨child, hnode⟩
  next => cases h

namespace Roster

variable {σ : Type} {p : Program} {index : Nat} {rootVisited : Bool} {r r' : Roster σ} {landmarks new : List Landmark}
  {k : Kin}

/-- The first lane is the only one, and is at its root. -/
def Alone (r : Roster σ) : Prop :=
  ∃ k, r.lanes = [k] ∧ k.frames.length = 1

theorem Alone.length_eq_one (alone : r.Alone) (hk : r.lanes[0]? = some k) : k.frames.length = 1 := by
  obtain ⟨only, hlanes, hlength⟩ := alone
  rw [hlanes] at hk
  exact Option.some.inj hk ▸ hlength

/-- What has happened in a tick while a lane has its turn. A failure of the first lane leaves it alone. -/
structure Calm (index : Nat) (rootVisited : Bool) (r : Roster σ) (landmarks : List Landmark) : Prop where
  ordered : ((entries landmarks).map (·.1)).Pairwise (· < ·)
  latest : ∃ id, r.ids[index]? = some id ∧
    ∀ entry ∈ entries landmarks, entry.1 ≤ id ∧ (rootVisited = false → entry.1 < id)
  root : ((entries landmarks).filter (·.2 = .root)).length ≤ rootVisits index rootVisited
  restarts : (restarts landmarks).length ≤ rootVisits index rootVisited ∨
    index = 0 ∧ r.Alone ∧ (restarts landmarks).length ≤ rootVisits index rootVisited + 1

/-- What has happened when that lane has suspended. -/
structure Rested (index : Nat) (r : Roster σ) (landmarks : List Landmark) : Prop where
  ordered : ((entries landmarks).map (·.1)).Pairwise (· < ·)
  later : ∀ id, r.ids[index + 1]? = some id → ∀ entry ∈ entries landmarks, entry.1 < id
  root : ((entries landmarks).filter (·.2 = .root)).length ≤ 1
  restarts : (restarts landmarks).length ≤ 2
  more : ∀ k, r.lanes[index + 1]? = some k → (Landmark.restarts landmarks).length ≤ 1

theorem Calm.restarts_le (calm : r.Calm index rootVisited landmarks) (hk : r.lanes[index]? = some k)
    (habove : 1 < k.frames.length) : (Landmark.restarts landmarks).length ≤ rootVisits index rootVisited := by
  obtain hfew | ⟨rfl, alone, -⟩ := calm.restarts
  · exact hfew
  · have := alone.length_eq_one hk
    omega

theorem Calm.rested (calm : r.Calm index rootVisited landmarks) (sorted : r.ids.Pairwise (· < ·)) :
    r.Rested index landmarks := by
  have hvisits := rootVisits_le index rootVisited
  refine ⟨calm.ordered, fun id hid entry hentry => ?_, Nat.le_trans calm.root hvisits, ?_, fun k hk => ?_⟩
  · obtain ⟨current, hcurrent, hlatest⟩ := calm.latest
    exact Nat.lt_of_le_of_lt (hlatest entry hentry).1 (lt_of_sorted sorted hcurrent hid)
  · obtain hfew | ⟨-, -, hfew⟩ := calm.restarts <;> omega
  · obtain hfew | ⟨rfl, ⟨only, hlanes, -⟩, -⟩ := calm.restarts
    · exact Nat.le_trans hfew hvisits
    · simp [hlanes] at hk

theorem Rested.next (rested : r.Rested index landmarks) (hk : r.lanes[index + 1]? = some k) :
    r.Calm (index + 1) false (landmarks ++ [.began k.id]) := by
  have hentries : entries (landmarks ++ [.began k.id]) = entries landmarks := by simp [entries]
  have hrestarts : Landmark.restarts (landmarks ++ [.began k.id]) = Landmark.restarts landmarks := by
    simp [Landmark.restarts]
  have hvisits := rootVisits_of_ne_zero (Nat.succ_ne_zero index) false
  have hid := getElem?_ids hk
  refine ⟨hentries ▸ rested.ordered, ⟨k.id, hid, fun entry hentry => ?_⟩, ?_, .inl ?_⟩
  · have hlt := rested.later k.id hid entry (hentries ▸ hentry)
    exact ⟨Nat.le_of_lt hlt, fun _ => hlt⟩
  · rw [hentries, hvisits]
    exact rested.root
  · rw [hrestarts, hvisits]
    exact rested.more k hk

theorem Calm.start (hk : r.lanes[0]? = some k) : r.Calm 0 false [.began k.id] :=
  ⟨List.Pairwise.nil, ⟨k.id, getElem?_ids hk, nofun⟩, Nat.zero_le _, .inl (Nat.zero_le _)⟩

/-- A step above the bottom of the lane. -/
theorem Calm.keeps (calm : r.Calm index rootVisited landmarks) (hk : r.lanes[index]? = some k)
    (habove : 1 < k.frames.length) (keeps : r.Keeps index r') : r'.Calm index rootVisited landmarks := by
  obtain ⟨id, hid, hlatest⟩ := calm.latest
  exact ⟨calm.ordered, ⟨id, keeps.getElem?_ids.trans hid, hlatest⟩, calm.root, .inl (calm.restarts_le hk habove)⟩

/-- The bottom frame of the lane calls its child. -/
theorem Calm.enter (calm : r.Calm index false landmarks) (hk : r.lanes[index]? = some k) {id : NodeId}
    (hroot : index ≠ 0 → id ≠ .root) (keeps : r.Keeps index r') :
    r'.Calm index true (landmarks ++ [.entered k.id id]) := by
  have hentries : entries (landmarks ++ [.entered k.id id]) = entries landmarks ++ [(k.id, id)] :=
    Landmark.entries_append _ _
  obtain ⟨current, hcurrent, hlatest⟩ := calm.latest
  obtain rfl := Option.some.inj (hcurrent.symm.trans (getElem?_ids hk))
  refine ⟨?_, ⟨k.id, keeps.getElem?_ids.trans hcurrent, fun entry hentry => ⟨?_, nofun⟩⟩, ?_, .inl ?_⟩
  · rw [hentries, List.map_append]
    refine List.pairwise_append.mpr ⟨calm.ordered, List.pairwise_singleton _ _, fun lane hlane new hnew => ?_⟩
    obtain ⟨entry, hentry, rfl⟩ := List.mem_map.mp hlane
    rw [List.mem_singleton.mp hnew]
    exact (hlatest entry hentry).2 rfl
  · rw [hentries] at hentry
    obtain hold | hnew := List.mem_append.mp hentry
    · exact (hlatest entry hold).1
    · rw [List.mem_singleton.mp hnew]
  · rw [hentries, List.filter_append, List.length_append, rootVisits_true]
    have hbefore := calm.root
    by_cases hi : index = 0
    · have hlast := List.length_filter_le (·.2 = NodeId.root) [(k.id, id)]
      have hnone : rootVisits index false = 0 := by simp [rootVisits, hi]
      simp only [List.length_singleton] at hlast
      omega
    · rw [rootVisits_of_ne_zero hi] at hbefore
      simpa [hroot hi] using hbefore
  · have hrestarts : Landmark.restarts (landmarks ++ [.entered k.id id]) = Landmark.restarts landmarks := by
      simp [Landmark.restarts]
    rw [hrestarts, rootVisits_true]
    obtain hfew | ⟨hi, -, hfew⟩ := calm.restarts
    · exact Nat.le_trans hfew (rootVisits_le index false)
    · have hnone : rootVisits index false = 0 := by simp [rootVisits, hi]
      omega

variable [QuerySystem σ]

/-- A failure that the first lane does not catch. -/
theorem Calm.restart (calm : r.Calm 0 rootVisited landmarks) (orderly : r.Orderly) (hk : r.lanes[0]? = some k)
    (habove : 1 < k.frames.length) (hnext : r'.next = r.next) :
    r'.restart.Calm 0 rootVisited (landmarks ++ [.restarted k.id]) := by
  have hentries : entries (landmarks ++ [.restarted k.id]) = entries landmarks := by simp [entries]
  refine ⟨hentries ▸ calm.ordered, ⟨r'.next, by rw [ids_restart]; rfl, fun entry hentry => ?_⟩, hentries ▸ calm.root,
    .inr ⟨rfl, ⟨_, lanes_restart r', rfl⟩, ?_⟩⟩
  · obtain ⟨id, hid, hlatest⟩ := calm.latest
    have hlt : entry.1 < r'.next :=
      hnext ▸ Nat.lt_of_le_of_lt (hlatest entry (hentries ▸ hentry)).1 (orderly.lt_next hid)
    exact ⟨Nat.le_of_lt hlt, fun _ => hlt⟩
  · rw [Landmark.restarts_append, List.length_append]
    exact Nat.succ_le_succ (calm.restarts_le hk habove)

/-- A failure that another lane does not catch. -/
theorem Calm.restart_rested (calm : r.Calm index rootVisited landmarks) (hk : r.lanes[index]? = some k)
    (habove : 1 < k.frames.length) : r'.restart.Rested index (landmarks ++ [.restarted k.id]) := by
  have hentries : entries (landmarks ++ [.restarted k.id]) = entries landmarks := by simp [entries]
  refine ⟨hentries ▸ calm.ordered, fun id hid => ?_, ?_, ?_, fun k' hk' => ?_⟩
  · simp [ids_restart] at hid
  · rw [hentries]
    exact Nat.le_trans calm.root (rootVisits_le index rootVisited)
  · rw [Landmark.restarts_append, List.length_append]
    exact Nat.succ_le_succ (Nat.le_trans (calm.restarts_le hk habove) (rootVisits_le index rootVisited))
  · simp [lanes_restart] at hk'

omit [QuerySystem σ] in
/-- The root stands at the bottom of the first lane only. -/
theorem Regular.node_ne_root (regular : r.Regular p) (valid : p.Valid) (hi : index ≠ 0) (hk : r.lanes[index]? = some k)
    {frame : Frame} (hframes : k.frames = [frame]) : frame.node ≠ .root := by
  intro hnode
  obtain ⟨id, hparent⟩ := regular.started index k hk hi
  have hbegins := (regular.chained k (List.mem_of_getElem? hk)).root frame.node (by rw [Kin.root?, hframes]; rfl)
  obtain ⟨child, hroot⟩ := valid.root
  rw [hparent, Program.Begins, hnode, hroot] at hbegins
  cases hbegins

theorem Calm.turning (valid : p.Valid) (agent : Agent) : agent.Turning (σ := σ) p Calm Rested where
  start _ hk _ := .start hk
  next rested _ hk := rested.next hk
  step := by
    intro index rootVisited outcome r r' landmarks new calm regular regular' marks
    cases marks with
    | yield =>
      rw [List.append_nil]
      exact calm.rested regular'.sorted
    | enter hk hframes hfirst =>
      subst hfirst
      exact calm.enter hk (fun hi => regular.node_ne_root valid hi hk hframes)
        (.call hk (by simp [hframes]) 1 (.inl (by decide)) _)
    | other hk habove keeps hstay =>
      rw [List.append_nil]
      have calm := calm.keeps hk habove keeps
      cases outcome with
      | goOn => exact calm
      | enterRoot => exact absurd rfl hstay
      | suspend => exact calm.rested regular'.sorted
    | restart hk habove hnext =>
      by_cases hi : index = 0
      · subst hi
        exact calm.restart regular.orderly hk habove hnext
      · simp only [hi, if_false]
        exact calm.restart_rested hk habove

/-! ### Lifetimes -/

/-- A lane is at its root for the last time, if that does not loop. -/
structure Spent (p : Program) (r : Roster σ) (landmarks : List Landmark) : Prop where
  nodup : (p.onces landmarks).Nodup
  begun : ∀ id ∈ p.onces landmarks, ¬ r.Unbegun id

omit [QuerySystem σ] in
theorem Spent.keeps {σ' : Type} {r' : Roster σ'} (spent : r.Spent p landmarks)
    (hunbegun : ∀ id, r'.Unbegun id → r.Unbegun id) (hnew : p.onces new = []) : r'.Spent p (landmarks ++ new) := by
  have hsame : p.onces (landmarks ++ new) = p.onces landmarks := by rw [p.onces_append, hnew, List.append_nil]
  exact ⟨hsame ▸ spent.nodup, fun id hid => mt (hunbegun id) (spent.begun id (hsame ▸ hid))⟩

omit [QuerySystem σ] in
/-- A bottom frame that has called its child is not at its beginning. -/
theorem not_unbegun_enter (orderly : r.Orderly) (hk : r.lanes[index]? = some k) {frame : Frame}
    (hframes : k.frames = [frame]) (child : NodeId) :
    ¬ (r.onLane index fun k => (k.setProgress 1).push (.start child)).Unbegun k.id := by
  rintro (hnext | ⟨k', hk', hid, bottom, hhead, hzero⟩)
  · exact absurd (orderly.fresh k (List.mem_of_getElem? hk)) (Nat.not_lt.mpr hnext)
  · obtain ⟨i, c, hc, rfl⟩ := mem_onLane hk'
    have hsame : c = k := by
      refine Kin.eq_of_id orderly.nodup (List.mem_of_getElem? hc) (List.mem_of_getElem? hk) ?_
      split_ifs at hid <;> exact hid
    subst hsame
    rw [if_pos (orderly.place_inj hk hc), Kin.push, Kin.frames_setProgress (show c.frames = [] ++ [frame] from hframes)]
      at hhead
    obtain rfl := Option.some.inj hhead
    cases hzero

omit [QuerySystem σ] in
theorem Spent.enter (spent : r.Spent p landmarks) (orderly : r.Orderly) (hk : r.lanes[index]? = some k) {frame : Frame}
    (hframes : k.frames = [frame]) (child : NodeId)
    (honce : ∀ child, p.node? frame.node = some (.threadRoot child false) → frame.childIndex = 0) :
    (r.onLane index fun k => (k.setProgress 1).push (.start child)).Spent p
      (landmarks ++ [.entered k.id frame.node]) := by
  have keeps : r.Keeps index (r.onLane index fun k => (k.setProgress 1).push (.start child)) :=
    .call hk (by simp [hframes]) 1 (.inl (by decide)) child
  cases hloops : p.isOnce frame.node with
  | false => exact spent.keeps keeps.unbegun (by simp [Program.onces, entries, hloops])
  | true =>
    obtain ⟨child', hnode⟩ := Program.exists_of_isOnce hloops
    have hnew : k.id ∉ p.onces landmarks := fun hold =>
      spent.begun k.id hold (.inr ⟨k, List.mem_of_getElem? hk, rfl, frame, by rw [hframes]; rfl, honce child' hnode⟩)
    have hlast : p.onces (landmarks ++ [.entered k.id frame.node]) = p.onces landmarks ++ [k.id] := by
      rw [p.onces_append]
      simp [Program.onces, entries, hloops]
    refine ⟨?_, fun id hid => ?_⟩
    · rw [hlast]
      refine List.nodup_append.mpr ⟨spent.nodup, List.nodup_singleton _, fun id hid last hlast heq => ?_⟩
      exact hnew (List.mem_singleton.mp hlast ▸ heq ▸ hid)
    · rw [hlast] at hid
      obtain hold | hlane := List.mem_append.mp hid
      · exact mt (keeps.unbegun id) (spent.begun id hold)
      · rw [List.mem_singleton.mp hlane]
        exact not_unbegun_enter orderly hk hframes child

theorem Spent.turning {agent : Agent} {past : List Landmark} (spent : agent.roster.Spent p past) :
    agent.Turning (σ := σ) p (fun _ _ r landmarks => r.Spent p (past ++ landmarks))
      fun _ r landmarks => r.Spent p (past ++ landmarks) where
  start _ _ hunbegun := spent.keeps hunbegun rfl
  next spent _ _ := by
    rw [← List.append_assoc]
    exact spent.keeps (fun _ => id) rfl
  step := by
    intro index rootVisited outcome r r' landmarks new spent regular regular' marks
    rw [← List.append_assoc]
    cases marks with
    | yield => exact spent.keeps (fun _ => id) rfl
    | enter hk hframes _ honce => exact spent.enter regular.orderly hk hframes _ honce
    | other hk habove keeps hstay =>
      have spent : r'.Spent p (past ++ landmarks ++ []) := spent.keeps keeps.unbegun rfl
      cases outcome with
      | goOn | suspend => exact spent
      | enterRoot => exact absurd rfl hstay
    | @restart k r'' _ _ hnext =>
      have spent : r''.restart.Spent p (past ++ landmarks ++ [.restarted k.id]) :=
        spent.keeps (fun id hid => .inl (hnext ▸ hid.of_restart)) rfl
      split_ifs <;> exact spent

end Roster

/-! ### All ticks -/

/-- The agents between two ticks, with the landmarks of all ticks. -/
inductive Program.Lived (p : Program) : Agent → List Landmark → Prop
  | new {capacity block : Nat} {agent : Agent} (h : Agent.new capacity block = .ok agent) : Lived p agent []
  | tick {σ : Type} [QuerySystem σ] {maxCycles : Nat} {agent : Agent} {world : World σ} {t : Tick σ}
    {past : List Landmark} (lived : Lived p agent past) (h : p.tick maxCycles agent world = .ok t) :
    Lived p t.agent (past ++ t.landmarks)

/-- No root has run too often, neither in a tick nor in the ticks before. -/
structure Tick.Calm {σ : Type} (p : Program) (past : List Landmark) (t : Tick σ) : Prop where
  /-- The bottom frame of a lane calls its child at most once in a tick. -/
  lanes : ((entries t.landmarks).map (·.1)).Nodup
  /-- So does the root, even if the agent starts over. -/
  root : ((entries t.landmarks).filter (·.2 = .root)).length ≤ 1
  /-- A thread root that does not loop calls its child at most once as long as its lane lives. -/
  threads : (p.onces (past ++ t.landmarks)).Nodup
  restarts : (restarts t.landmarks).length ≤ 2

namespace Program

variable {p : Program} {agent : Agent} {past : List Landmark}

theorem Lived.reaches (lived : p.Lived agent past) : p.Reaches agent := by
  induction lived with
  | new h => exact .new h
  | tick _ h ih => exact .tick ih h

theorem Reaches.lived (reaches : p.Reaches agent) : ∃ past, p.Lived agent past := by
  induction reaches with
  | new h => exact ⟨[], .new h⟩
  | tick _ h ih =>
    obtain ⟨past, lived⟩ := ih
    exact ⟨_, lived.tick h⟩

theorem Lived.spent (valid : p.Valid) (lived : p.Lived agent past) : agent.roster.Spent p past := by
  induction lived with
  | new _ => exact ⟨List.nodup_nil, nofun⟩
  | tick lived h ih =>
    obtain ⟨spawns, lives⟩ := lived.reaches.lives valid
    obtain ⟨-, spent, -⟩ := tick_turning valid ih.turning lives h
    exact ⟨spent.nodup, spent.begun⟩

/-- In a tick the bottom frame of every lane calls its child at most once, the root does so at most once even if the
agent starts over, and the agent starts over at most twice. A thread root that does not loop calls its child once. -/
theorem roots_calm (accepted : p.validate = .ok ()) :
    (∀ agent, p.Reaches agent → ∃ past, p.Lived agent past) ∧
    ∀ {σ : Type} [QuerySystem σ] (agent : Agent) (past : List Landmark) (world : World σ) (maxCycles : Nat) (u : Tick σ),
      p.Lived agent past →
      (world.check p = .ok () ∧ ∃ index, p.Visits maxCycles agent world index u) ∨
        p.tick maxCycles agent world = .ok u →
      u.Calm p past := by
  have valid : p.Valid := validate_eq_ok_iff.mp accepted
  refine ⟨fun agent reaches => reaches.lived, ?_⟩
  intro σ _ agent past world maxCycles u lived h
  have spent := (lived.spent valid).turning (σ := σ)
  have calm := Roster.Calm.turning (σ := σ) valid agent
  obtain ⟨spawns, lives⟩ := lived.reaches.lives valid
  obtain ⟨checked, index, visits⟩ | htick := h
  · have suits := World.suits_of_check checked
    obtain ⟨_, spent⟩ := visits.turning valid spent lives suits
    obtain ⟨rootVisited, calm⟩ := visits.turning valid calm lives suits
    have hvisits := rootVisits_le index rootVisited
    refine ⟨calm.ordered.imp Nat.ne_of_lt, Nat.le_trans calm.root hvisits, spent.nodup, ?_⟩
    obtain hfew | ⟨-, -, hfew⟩ := calm.restarts <;> omega
  · obtain ⟨_, spent, -⟩ := tick_turning valid spent lives htick
    obtain ⟨_, rested, -⟩ := tick_turning valid calm lives htick
    exact ⟨rested.ordered.imp Nat.ne_of_lt, rested.root, spent.nodup, rested.restarts⟩

/-- Waits for a thread that runs once, and fails. -/
def blaze : Program where
  expressions := ⟨[1], #[.readVar ⟨0, .bool⟩]⟩
  entries := #[.ofNode .nop, .ofNode (.root ⟨2⟩), .ofNode (.parallel ⟨3⟩ ⟨6⟩), .ofNode (.sequence #[⟨4⟩, ⟨5⟩]),
    .ofNode (.wait (.condition (.output 0 0))), .ofNode .fail, .ofNode (.threadRoot ⟨7⟩ false),
    .ofNode (.writeVar ⟨0, .bool⟩ (.constant 0 1))]
  types := #[]
  lookups := #[]
  blackboardSize := 1

def blazeStart : Tick QueryBoard :=
  ⟨.fresh, .blank blaze (Memory.zeros 1) .empty, 0, #[]⟩

/-- The end of another tick. -/
def blazeAfter (t : Tick QueryBoard) : Tick QueryBoard :=
  match blaze.tick 20 t.agent t.world with
  | .ok t' => t'
  | .error _ => t

def blazeFirst : Tick QueryBoard :=
  blazeAfter blazeStart

def blazeSecond : Tick QueryBoard :=
  blazeAfter blazeFirst

theorem blazeAfter_eq {t : Tick QueryBoard} (h : (blaze.tick 20 t.agent t.world).map (fun _ => ()) = .ok ()) :
    blaze.tick 20 t.agent t.world = .ok (blazeAfter t) := by
  obtain ⟨t', ht, -⟩ := Refusal.map_eq_ok_iff.mp h
  rw [blazeAfter, ht]

/-- The failure of the second tick is repeated in the activation that follows it. -/
theorem roots_calm_blaze : blaze.validate = .ok () ∧ blaze.Lived blazeFirst.agent blazeFirst.landmarks ∧
    blaze.tick 20 blazeFirst.agent blazeFirst.world = .ok blazeSecond ∧ blaze.onces blazeFirst.landmarks = [1] ∧
    Landmark.entries blazeSecond.landmarks = [(2, .root)] ∧ Landmark.restarts blazeSecond.landmarks = [0, 2] ∧
    blazeSecond.Calm blaze blazeFirst.landmarks := by
  have new : blaze.Lived blazeStart.agent [] := .new (show Agent.new 32 8 = .ok .fresh from rfl)
  have hfirst : blaze.tick 20 blazeStart.agent blazeStart.world = .ok blazeFirst :=
    blazeAfter_eq (by decide +kernel)
  have lived : blaze.Lived blazeFirst.agent blazeFirst.landmarks := by
    have hlived := new.tick hfirst
    rwa [List.nil_append] at hlived
  have hsecond : blaze.tick 20 blazeFirst.agent blazeFirst.world = .ok blazeSecond :=
    blazeAfter_eq (by decide +kernel)
  have hend : (Landmark.entries blazeSecond.landmarks, Landmark.restarts blazeSecond.landmarks) =
      ([(2, .root)], [0, 2]) := by decide +kernel
  obtain ⟨hentries, hrestarts⟩ := Prod.mk.inj hend
  have honces : blaze.onces blazeFirst.landmarks = [1] := by
    have hbegun : Landmark.entries blazeFirst.landmarks = [(0, .root), (1, ⟨6⟩)] := by decide +kernel
    rw [onces, hbegun]
    rfl
  exact ⟨rfl, lived, hsecond, honces, hentries, hrestarts, (roots_calm rfl).2 _ _ _ _ _ lived (.inr hsecond)⟩

end Program

end BehaviorTree
