import BehaviorTree.Proofs.Machine.Parallel
import BehaviorTree.Proofs.Machine.Slot

/-! What a failure takes away. A lane loses the frames down to the nearest catch in progress, or all of them; the lanes
that these frames started go with their descendants, and nothing else changes. -/

namespace BehaviorTree

/-- A lane is the other one, or it was started by that or by one of its descendants. -/
def Kin.Descends (lanes : List Kin) : LaneId → LaneId → Prop :=
  Relation.ReflTransGen fun above id => ∃ k ∈ lanes, k.id = id ∧ k.parent = some above

/-- The lane of the id gets these frames. -/
def Kin.cut (id : LaneId) (frames : List Frame) (k : Kin) : Kin :=
  if k.id = id then { k with frames := frames } else k

namespace Kin

variable {lanes : List Kin} {gone : List LaneId} {eldest id above : LaneId} {frames : List Frame}

@[simp] theorem id_cut (id : LaneId) (frames : List Frame) (k : Kin) : (k.cut id frames).id = k.id := by
  unfold cut
  split_ifs <;> rfl

@[simp] theorem parent_cut (id : LaneId) (frames : List Frame) (k : Kin) : (k.cut id frames).parent = k.parent := by
  unfold cut
  split_ifs <;> rfl

theorem cut_cut (id : LaneId) (frames frames' : List Frame) (k : Kin) :
    (k.cut id frames).cut id frames' = k.cut id frames' := by
  by_cases h : k.id = id <;> simp [cut, h]

theorem without_cut (gone : List LaneId) (id : LaneId) (frames : List Frame) (lanes : List Kin) :
    without gone (lanes.map (cut id frames)) = (without gone lanes).map (cut id frames) := by
  simp only [without, List.filter_map, Function.comp_def, id_cut]

/-! ### Descendants -/

theorem Descends.mono {lanes' : List Kin} (descends : Descends lanes above id) (h : lanes ⊆ lanes') :
    Descends lanes' above id :=
  Relation.ReflTransGen.mono (fun _ _ ⟨k, hk, hid, hparent⟩ => ⟨k, h hk, hid, hparent⟩) _ _ descends

/-- Frames have nothing to do with descent. -/
theorem descends_cut (id : LaneId) (frames : List Frame) (lanes : List Kin) :
    Descends (lanes.map (cut id frames)) = Descends lanes := by
  unfold Descends
  congr 1
  funext above below
  simp

/-- The descendants of a lane are a lineage. -/
theorem Lineage.mem_iff (lineage : Lineage lanes eldest gone)
    (younger : ∀ k ∈ lanes, ∀ id, k.parent = some id → id < k.id) : id ∈ gone ↔ Descends lanes eldest id := by
  constructor
  · -- a lane that is gone is younger than the one for which it is gone
    induction id using Nat.strong_induction_on with
    | _ id ih =>
      intro hid
      obtain ⟨k, hk, rfl⟩ := lineage.known id hid
      obtain hself | ⟨above, habove, hparent⟩ := lineage.up k hk hid
      · exact hself ▸ .refl
      · exact (ih above (younger k hk above hparent) habove).tail ⟨k, hk, rfl, hparent⟩
  · intro descends
    induction descends with
    | refl => exact lineage.self
    | tail _ step ih =>
      obtain ⟨k, hk, rfl, hparent⟩ := step
      exact lineage.down k hk _ ih hparent

/-- When a lineage goes, what descends from other lanes descends from them still. -/
theorem Lineage.descends (lineage : Lineage lanes eldest gone) (descends : Descends lanes above id) :
    id ∈ gone ∨ Descends (without gone lanes) above id := by
  induction descends with
  | refl => exact .inr .refl
  | tail _ step ih =>
    obtain ⟨k, hk, rfl, hparent⟩ := step
    by_cases hgone : k.id ∈ gone
    · exact .inl hgone
    · obtain habove | descends := ih
      · exact absurd (lineage.down k hk _ habove hparent) hgone
      · exact .inr (descends.tail ⟨k, mem_without.mpr ⟨hk, hgone⟩, rfl, hparent⟩)

end Kin

namespace Roster

variable {σ : Type} {r : Roster σ} {index : Nat} {k : Kin}

/-- The lane of the id gets these frames. -/
def cut (id : LaneId) (frames : List Frame) (r : Roster σ) : Roster σ :=
  { r with lanes := r.lanes.map (Kin.cut id frames) }

theorem cut_cut (id : LaneId) (frames frames' : List Frame) (r : Roster σ) :
    (r.cut id frames).cut id frames' = r.cut id frames' := by
  simp only [cut, List.map_map]
  congr 2
  funext k
  exact k.cut_cut id frames frames'

/-- Nothing changes for the frames that the lane has. -/
theorem Orderly.cut_eq (orderly : r.Orderly) (hk : r.lanes[index]? = some k) : r.cut k.id k.frames = r := by
  have hself (c : Kin) (hc : c ∈ r.lanes) : c.cut k.id k.frames = c := by
    by_cases h : c.id = k.id
    · obtain rfl := Kin.eq_of_id orderly.nodup hc (List.mem_of_getElem? hk) h
      simp [Kin.cut]
    · simp [Kin.cut, h]
  rw [cut, List.map_congr_left hself, List.map_id']

/-- A lane loses its top frame. -/
theorem Orderly.pop_eq (orderly : r.Orderly) (hk : r.lanes[index]? = some k) :
    r.onLane index Kin.pop = r.cut k.id k.frames.dropLast := by
  rw [Roster.onLane, Kin.modify_eq_map orderly.nodup hk, cut]
  congr 1
  refine List.map_congr_left fun c hc => ?_
  by_cases h : c.id = k.id
  · obtain rfl := Kin.eq_of_id orderly.nodup hc (List.mem_of_getElem? hk) h
    simp [Kin.cut, Kin.pop]
  · simp [Kin.cut, h]

variable [QuerySystem σ]

theorem remove_cut (gone : List LaneId) (id : LaneId) (frames : List Frame) (r : Roster σ) :
    (r.cut id frames).remove gone = (r.remove gone).cut id frames := by
  simp only [remove, cut, Kin.without_cut, withdraw]
  cases r.holder with
  | none => rfl
  | some request =>
    dsimp only
    split_ifs <;> rfl

theorem remove_remove (gone gone' : List LaneId) (r : Roster σ) :
    (r.remove gone).remove gone' = r.remove (gone ++ gone') := by
  cases hholder : r.holder with
  | none => simp [remove, withdraw, hholder, Kin.without_append]
  | some request =>
    by_cases h : request.lane ∈ gone
    · simp [remove, withdraw, hholder, h, Kin.without_append]
    · by_cases h' : request.lane ∈ gone' <;> simp [remove, withdraw, hholder, h, h', Kin.without_append]

theorem remove_nil (r : Roster σ) : r.remove [] = r := by
  have hlanes : Kin.without [] r.lanes = r.lanes := List.filter_eq_self.mpr (by simp)
  rw [remove, hlanes]
  unfold withdraw
  split <;> simp

/-- What a lane still loses after its top frame. -/
theorem Orderly.pop_remove_cut (orderly : r.Orderly) (hk : r.lanes[index]? = some k) (gone : List LaneId)
    (frames : List Frame) :
    ((r.onLane index Kin.pop).remove gone).cut k.id frames = (r.remove gone).cut k.id frames := by
  rw [orderly.pop_eq hk, remove_cut, cut_cut]

omit [QuerySystem σ] in
theorem Orderly.descends_pop (orderly : r.Orderly) (hk : r.lanes[index]? = some k) :
    Kin.Descends (r.onLane index Kin.pop).lanes = Kin.Descends r.lanes := by
  rw [orderly.pop_eq hk]
  exact Kin.descends_cut k.id k.frames.dropLast r.lanes

end Roster

/-! ### What is left of a lane -/

namespace Program

variable {p : Program} {frames below : List Frame} {caught : Bool}

/-- A catch in progress. -/
def Catching (p : Program) (frame : Frame) : Prop :=
  frame.childIndex ≠ 0 ∧ ∃ child, p.node? frame.node = some (.catch child)

theorem Catching.running?_eq {frame : Frame} (h : p.Catching frame) : p.running? frame = none := by
  obtain ⟨-, child, hnode⟩ := h
  simp [running?, thread?, hnode]

/-- What a failure leaves of the frames of a lane, and whether it is caught. -/
inductive Falls (p : Program) : List Frame → Bool → List Frame → Prop
  | lost : Falls p [] false []
  | catch {below : List Frame} {frame : Frame} (h : p.Catching frame) : Falls p (below ++ [frame]) true below
  | pop {frames below : List Frame} {frame : Frame} {caught : Bool} (h : ¬ p.Catching frame)
    (rest : Falls p frames caught below) : Falls p (frames ++ [frame]) caught below

theorem Falls.length_le (falls : p.Falls frames caught below) : below.length ≤ frames.length := by
  induction falls with
  | lost => exact Nat.le_refl _
  | «catch» _ => simp
  | pop _ _ ih => simpa using Nat.le_succ_of_le ih

/-- The nearest catch in progress stops the failure. -/
theorem Falls.of_catching (falls : p.Falls frames caught below) {lower above : List Frame} {catcher : Frame}
    (hframes : frames = lower ++ catcher :: above) (hcatch : p.Catching catcher)
    (habove : ∀ frame ∈ above, ¬ p.Catching frame) : caught = true ∧ below = lower := by
  induction falls generalizing above with
  | lost => simp at hframes
  | «catch» h =>
    obtain rfl | ⟨rest, last, rfl⟩ := List.eq_nil_or_concat above
    · obtain ⟨rfl, -⟩ := List.append_inj' hframes rfl
      exact ⟨rfl, rfl⟩
    · rw [List.concat_eq_append, ← List.cons_append, ← List.append_assoc] at hframes
      obtain ⟨-, hlast⟩ := List.append_inj' hframes rfl
      obtain rfl := List.singleton_inj.mp hlast
      exact absurd h (habove _ (by simp))
  | pop h _ ih =>
    obtain rfl | ⟨rest, last, rfl⟩ := List.eq_nil_or_concat above
    · obtain ⟨-, hlast⟩ := List.append_inj' hframes rfl
      obtain rfl := List.singleton_inj.mp hlast
      exact absurd hcatch h
    · rw [List.concat_eq_append, ← List.cons_append, ← List.append_assoc] at hframes
      obtain ⟨hrest, -⟩ := List.append_inj' hframes rfl
      exact ih hrest fun frame hmem => habove frame (by simp [hmem])

/-- Without a catch in progress the lane is lost. -/
theorem Falls.of_not_catching (falls : p.Falls frames caught below) (h : ∀ frame ∈ frames, ¬ p.Catching frame) :
    caught = false ∧ below = [] := by
  induction falls with
  | lost => exact ⟨rfl, rfl⟩
  | «catch» hcatch => exact absurd hcatch (h _ (by simp))
  | pop _ _ ih => exact ih fun frame hmem => h frame (by simp [hmem])

theorem mem_threads {place : Nat} {thread : NodeId} :
    (place, thread) ∈ p.threads frames ↔ ∃ frame, frames[place]? = some frame ∧ p.running? frame = some thread := by
  simp [threads, List.mem_filterMap, List.mem_zipIdx_iff_getElem?]

end Program

namespace Roster

variable {σ : Type} {p : Program} {spawns : Spawns} {index : Nat} {r r' : Roster σ} {k : Kin} {frame : Frame}
  {node : Node}

/-- What a lane started was started by one of its parallel frames in progress. -/
theorem Fit.running (fit : r.Fit p spawns index) (hk : k ∈ r.lanes) {s : Spawn} (hs : s ∈ spawns.of k) :
    ∃ frame, k.frames[s.place]? = some frame ∧ p.running? frame = some s.thread := by
  rw [← Program.mem_threads, (fit.matched hk).threads]
  exact List.mem_map_of_mem hs

/-- A frame that is no parallel one in progress has started nothing. -/
theorem Fit.place_lt (fit : r.Fit p spawns index) (top : r.Top p index k frame node) (hquiet : p.running? frame = none)
    {s : Spawn} (hs : s ∈ spawns.of k) : s.place < k.frames.length - 1 := by
  obtain ⟨other, hother, hrunning⟩ := fit.running (List.mem_of_getElem? top.lane) hs
  have hlt := (List.getElem?_eq_some_iff.mp hother).1
  have hne : s.place ≠ k.frames.length - 1 := by
    intro hlast
    rw [hlast, ← List.getLast?_eq_getElem?, top.last] at hother
    rw [← Option.some.inj hother, hquiet] at hrunning
    cases hrunning
  omega

theorem Top.not_catching (top : r.Top p index k frame node) (h : node.kind = .catch → frame.childIndex = 0) :
    ¬ p.Catching frame := by
  rintro ⟨hprogress, child, hnode⟩
  obtain rfl := Option.some.inj (top.known.symm.trans hnode)
  exact hprogress (h rfl)

theorem mem_of_pop (spawns : Spawns) (k : Kin) {s : Spawn} :
    s ∈ spawns.of k.pop ↔ s ∈ spawns.of k ∧ s.place < k.frames.length - 1 := by
  rw [Spawns.of_dropLast (show k.pop.id = k.id from rfl) rfl, List.mem_filter, decide_eq_true_iff]

variable [QuerySystem σ]

/-- The lane of which a parallel frame in progress is on top goes with what descends from the lane that it started. -/
theorem Fit.thread_removes (fit : r.Fit p spawns index) {main thread : NodeId}
    (top : r.Top p index k frame (.parallel main thread)) (hprogress : frame.childIndex ≠ 0)
    (releases : r.Releases index thread r') :
    ∃ gone, r' = r.remove gone ∧ r'.lanes[index]? = some k ∧
      (∀ id, id ∈ gone ↔ ∃ s ∈ spawns.of k, k.frames.length - 1 ≤ s.place ∧ Kin.Descends r.lanes s.lane id) ∧
      ∀ above id, Kin.Descends r.lanes above id → id ∈ gone ∨ Kin.Descends r'.lanes above id := by
  obtain ⟨older, s, before, c, hof, hplace, -, hthreads, hchildren, -, started, hroot⟩ := fit.newest top hprogress
  obtain ⟨gone, rfl, lineage, hkept⟩ := releases.youngest fit.orderly top.lane hchildren hroot
  have holder {s' : Spawn} (hs' : s' ∈ older) : s'.place < k.frames.length - 1 := by
    have hlt : (s'.place, s'.thread) ∈ p.threads k.frames.dropLast := hthreads ▸ List.mem_map_of_mem hs'
    simpa using Program.place_lt hlt
  refine ⟨gone, rfl, hkept, fun id => ?_, fun above id descends => ?_⟩
  · rw [lineage.mem_iff fit.orderly.younger, started.lane, hof]
    constructor
    · exact fun descends => ⟨s, by simp, by omega, descends⟩
    · rintro ⟨s', hs', hlow, descends⟩
      obtain hs' | hs' := List.mem_append.mp hs'
      · exact absurd (holder hs') (by omega)
      · exact List.mem_singleton.mp hs' ▸ descends
  · rw [lanes_remove]
    exact lineage.descends descends

/-- A failure takes away the frames down to the nearest catch in progress, the lanes that these started, and the
descendants of those. -/
theorem Unwinds.removes {caught : Bool} (unwinds : r.Unwinds p index caught r') (fit : r.Fit p spawns index)
    (hk : r.lanes[index]? = some k) :
    ∃ below gone, p.Falls k.frames caught below ∧ r' = (r.remove gone).cut k.id below ∧ k.id ∉ gone ∧
      ∀ id, id ∈ gone ↔ ∃ s ∈ spawns.of k, below.length ≤ s.place ∧ Kin.Descends r.lanes s.lane id := by
  induction unwinds generalizing k with
  | @empty r c hc hframes =>
    obtain rfl := Option.some.inj (hk.symm.trans hc)
    refine ⟨k.frames, [], ?_, ?_, List.not_mem_nil, fun id => ?_⟩
    · rw [hframes]
      exact .lost
    · rw [remove_nil, fit.orderly.cut_eq hk]
    · simp [Spawns.of, hframes]
  | @«catch» r c frame child top hprogress =>
    obtain rfl := Option.some.inj (hk.symm.trans top.lane)
    refine ⟨k.frames.dropLast, [], ?_, ?_, List.not_mem_nil, fun id => ?_⟩
    · rw [← List.dropLast_append_getLast? frame top.last, List.dropLast_concat]
      exact .catch ⟨hprogress, child, top.known⟩
    · rw [remove_nil, fit.orderly.pop_eq hk]
    · -- all that the lane started was started below the catch
      simp only [List.not_mem_nil, List.length_dropLast, false_iff]
      rintro ⟨s, hs, hlow, -⟩
      have := fit.place_lt top (top.running?_eq (by simp [Node.kind])) hs
      omega
  | @thread r r₁ r' c frame main thread caught top hprogress releases _ ih =>
    -- the thread goes with its descendants, then the frames below the parallel node are unwound
    obtain rfl := Option.some.inj (hk.symm.trans top.lane)
    obtain ⟨gone, rfl, hkept, hgone, hdescends⟩ := fit.thread_removes top hprogress releases
    have hpop : ((r.remove gone).onLane index Kin.pop).lanes[index]? = some k.pop := by
      rw [Roster.onLane, List.getElem?_modify, hkept]
      simp
    have hstays := List.mem_of_getElem? hkept
    rw [lanes_remove, Kin.mem_without] at hstays
    obtain ⟨below, gone', falls, rfl, hstays', hgone'⟩ := ih (fit.pop_thread top hprogress releases) hpop
    have orderly := fit.orderly.remove gone
    have hlength := falls.length_le
    rw [Kin.pop, List.length_dropLast] at hlength
    refine ⟨below, gone ++ gone', ?_, ?_, List.not_mem_append hstays.2 hstays', fun id => ?_⟩
    · rw [← List.dropLast_append_getLast? frame top.last]
      exact .pop (top.not_catching (by simp [Node.kind])) falls
    · exact (orderly.pop_remove_cut hkept gone' below).trans (by rw [remove_remove])
    · rw [List.mem_append]
      constructor
      · rintro (hid | hid)
        · obtain ⟨s, hs, hlow, descends⟩ := (hgone id).mp hid
          exact ⟨s, hs, Nat.le_trans hlength hlow, descends⟩
        · obtain ⟨s, hs, hlow, descends⟩ := (hgone' id).mp hid
          rw [orderly.descends_pop hkept, lanes_remove] at descends
          exact ⟨s, ((mem_of_pop spawns k).mp hs).1, hlow, descends.mono (List.filter_subset_self _)⟩
      · rintro ⟨s, hs, hlow, descends⟩
        by_cases hplace : s.place < k.frames.length - 1
        · refine (hdescends s.lane id descends).imp_right fun descends => (hgone' id).mpr ?_
          exact ⟨s, (mem_of_pop spawns k).mpr ⟨hs, hplace⟩, hlow, orderly.descends_pop hkept ▸ descends⟩
        · exact .inl ((hgone id).mpr ⟨s, hs, Nat.le_of_not_lt hplace, descends⟩)
  | @skip r r' c frame node caught top hskip _ ih =>
    obtain rfl := Option.some.inj (hk.symm.trans top.lane)
    have hquiet := top.running?_eq fun hkind => hskip (.inr hkind)
    obtain ⟨below, gone, falls, rfl, hstays, hgone⟩ := ih (fit.pop top hquiet (fun _ => ⟨rfl, rfl⟩) rfl) (top.onLane Kin.pop)
    refine ⟨below, gone, ?_, fit.orderly.pop_remove_cut hk gone below, hstays, fun id => ?_⟩
    · rw [← List.dropLast_append_getLast? frame top.last]
      exact .pop (top.not_catching fun hkind => hskip (.inl hkind)) falls
    · rw [hgone, fit.orderly.descends_pop hk]
      refine exists_congr fun s => ?_
      rw [mem_of_pop]
      constructor
      · rintro ⟨⟨hs, -⟩, h⟩
        exact ⟨hs, h⟩
      · rintro ⟨hs, h⟩
        exact ⟨⟨hs, fit.place_lt top hquiet hs⟩, h⟩

/-! ### The query in flight -/

omit [QuerySystem σ] in
/-- The lane that asked the query in flight is still there. -/
def Held (r : Roster σ) : Prop :=
  ∀ request, r.holder = some request → request.lane ∈ r.lanes.map (·.id)

namespace Held

omit [QuerySystem σ] in
theorem onLane (held : r.Held) (index : Nat) {f : Kin → Kin} (hsame : ∀ c, Kin.Same c (f c)) : (r.onLane index f).Held :=
  fun request h => ids_onLane index r hsame ▸ held request h

theorem remove (held : r.Held) (gone : List LaneId) : (r.remove gone).Held := by
  intro request h
  cases hholder : r.holder with
  | none => cases (remove_holder_of_none hholder).symm.trans h
  | some other =>
    obtain ⟨hkept, hstays⟩ | ⟨hnone, -⟩ := remove_holder gone hholder
    · obtain rfl := Option.some.inj (hkept.symm.trans h)
      obtain ⟨k, hk, hid⟩ := List.mem_map.mp (held other hholder)
      rw [lanes_remove]
      exact List.mem_map.mpr ⟨k, Kin.mem_without.mpr ⟨hk, hid ▸ hstays⟩, hid⟩
    · cases hnone.symm.trans h

theorem releases {thread : NodeId} (held : r.Held) (releases : r.Releases index thread r') : r'.Held := by
  cases releases with
  | nothing _ _ => exact held
  | lane _ _ _ _ _ _ _ => exact held.remove _

theorem unwinds {caught : Bool} (unwinds : r.Unwinds p index caught r') (held : r.Held) : r'.Held := by
  induction unwinds with
  | empty _ _ => exact held
  | «catch» _ _ => exact held.onLane index fun _ => ⟨rfl, rfl⟩
  | thread _ _ releases _ ih => exact ih ((held.releases releases).onLane index fun _ => ⟨rfl, rfl⟩)
  | skip _ _ _ ih => exact ih (held.onLane index fun _ => ⟨rfl, rfl⟩)

theorem polls {request : QueryRequest} {outcome : Outcome} (held : r.Held) (polls : r.Polls index request outcome r') :
    r'.Held := by
  cases polls with
  | pending _ => exact held
  | complete _ => exact fun other h => nomatch h

end Held

theorem Moves.held {now : UInt64} {rootVisited : Bool} {outcome : Outcome}
    (moves : r.Moves p now index rootVisited outcome r') (held : r.Held) : r'.Held := by
  cases moves with
  | yield _ _ _ _ | wait _ _ | blocked _ _ _ => exact held
  | enter _ _ _ _ | call _ _ _ | finish _ _ _ | beginWait _ _ | passWait _ _ _ =>
    exact held.onLane index fun _ => ⟨rfl, rfl⟩
  | poll _ _ _ polls => exact held.polls polls
  | @ask k _ id _ _ _ top _ _ polls =>
    refine Held.polls (fun request h => ?_) polls
    obtain rfl := Option.some.inj h
    exact List.mem_map.mpr ⟨_, List.mem_of_getElem? (top.onLane (Kin.setProgress 1)), rfl⟩
  | @fork k frame main thread _ _ _ =>
    have begun := held.onLane index (Kin.same_setProgress 1)
    have spawned : ((r.onLane index (Kin.setProgress 1)).spawn k.id thread).Held := by
      intro request h
      rw [Roster.spawn, List.map_append]
      exact List.mem_append_left _ (begun request h)
    exact spawned.onLane index fun _ => ⟨rfl, rfl⟩
  | join _ _ _ releases => exact (held.releases releases).onLane index fun _ => ⟨rfl, rfl⟩
  | «catch» _ _ unwinds => exact Held.unwinds unwinds (held.onLane index fun _ => ⟨rfl, rfl⟩)
  | @restart _ _ _ r' _ _ _ =>
    intro request h
    cases (restart_holder r').symm.trans h

/-- What becomes of the query in flight when lanes go: it is withdrawn with the lane that asked it, and stays
otherwise. -/
structure Withdraws (gone : LaneId → Prop) (r r' : Roster σ) : Prop where
  idle : r.holder = none → r'.holder = none ∧ r'.queries = r.queries
  withdrawn : ∀ request, r.holder = some request → gone request.lane →
    r'.holder = none ∧ r'.queries = QuerySystem.cancel r.queries request
  kept : ∀ request, r.holder = some request → ¬ gone request.lane →
    r'.holder = some request ∧ r'.queries = r.queries

theorem withdraws_withdraw (gone : LaneId → Prop) [DecidablePred gone] (r : Roster σ) :
    r.Withdraws gone (r.withdraw gone) where
  idle h := by simp [withdraw, h]
  withdrawn request h hgone := by simp [withdraw, h, hgone]
  kept request h hkept := by simp [withdraw, h, hkept]

theorem withdraws_remove_cut (gone : List LaneId) (id : LaneId) (frames : List Frame) (r : Roster σ) :
    r.Withdraws (· ∈ gone) ((r.remove gone).cut id frames) :=
  have withdraws := withdraws_withdraw (· ∈ gone) { r with lanes := Kin.without gone r.lanes }
  ⟨withdraws.idle, withdraws.withdrawn, withdraws.kept⟩

/-- All lanes go, whatever has gone before. -/
theorem restart_remove_cut (gone : List LaneId) (id : LaneId) (frames : List Frame) (r : Roster σ) :
    ((r.remove gone).cut id frames).restart = r.restart := by
  cases hholder : r.holder with
  | none => simp [restart, begin, remove, cut, withdraw, hholder]
  | some request =>
    by_cases h : request.lane ∈ gone <;> simp [restart, begin, remove, cut, withdraw, hholder, h]

end Roster

end BehaviorTree
