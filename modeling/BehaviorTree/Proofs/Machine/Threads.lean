import BehaviorTree.Proofs.Machine.Moves
import BehaviorTree.Proofs.Machine.Runs

/-! Structured parallelism. The parallel frames in progress of a lane, bottom first, correspond to the lanes that it
owns, in their order, and each of them finds the very lane that it started. -/

namespace BehaviorTree

open Refusal

/-- A lane that a parallel frame started: the place of the frame in its lane, the node at which the started lane
begins, and the id that it was given. -/
structure Spawn where
  place : Nat
  thread : NodeId
  lane : LaneId
  deriving DecidableEq

/-- What the parallel frames of each lane started, bottom first. -/
abbrev Spawns := LaneId → List Spawn

namespace Program

variable (p : Program)

/-- The thread of a parallel node. -/
def thread? (id : NodeId) : Option NodeId :=
  match p.node? id with
  | some (.parallel _ thread) => some thread
  | _ => none

/-- The thread of a parallel frame in progress. -/
def running? (frame : Frame) : Option NodeId :=
  if frame.childIndex = 0 then none else p.thread? frame.node

/-- The places and the threads of the parallel frames in progress, bottom first. -/
def threads (frames : List Frame) : List (Nat × NodeId) :=
  frames.zipIdx.filterMap fun (frame, place) => (p.running? frame).map (place, ·)

variable {p}

theorem thread?_eq_some {id thread : NodeId} :
    p.thread? id = some thread ↔ ∃ main, p.node? id = some (.parallel main thread) := by
  unfold thread?
  constructor
  · intro h
    split at h
    next main other hnode =>
      obtain rfl := Option.some.inj h
      exact ⟨main, hnode⟩
    next => cases h
  · rintro ⟨main, h⟩
    rw [h]

theorem threads_append (frames : List Frame) (frame : Frame) :
    p.threads (frames ++ [frame]) =
      p.threads frames ++ ((p.running? frame).map (frames.length, ·)).toList := by
  simp only [threads, List.zipIdx_append, List.filterMap_append, Nat.zero_add, List.zipIdx_singleton]
  cases h : p.running? frame <;> simp [h]

theorem threads_of_quiet (frames : List Frame) {frame : Frame} (h : p.running? frame = none) :
    p.threads (frames ++ [frame]) = p.threads frames := by
  rw [threads_append, h]
  exact List.append_nil _

/-- A frame that has not begun is not in progress. -/
theorem running?_start (id : NodeId) : p.running? (.start id) = none :=
  if_pos rfl

theorem place_lt {frames : List Frame} {x : Nat × NodeId} (h : x ∈ p.threads frames) : x.1 < frames.length := by
  obtain ⟨⟨frame, place⟩, hmem, hx⟩ := List.mem_filterMap.mp h
  obtain ⟨thread, -, rfl⟩ := Option.map_eq_some_iff.mp hx
  have := List.snd_lt_of_mem_zipIdx hmem
  simpa using this

end Program

/-- The bottom of a lane stays as long as the lane has frames. -/
def Kin.KeepsRoot (k k' : Kin) : Prop :=
  ∀ node, k'.root? = some node → k.root? = some node

namespace Spawns

/-- What the frames that a lane has now started. -/
def of (spawns : Spawns) (k : Kin) : List Spawn :=
  (spawns k.id).filter (·.place < k.frames.length)

/-- A lane that loses its top frame loses what that started. -/
theorem of_dropLast {spawns : Spawns} {k k' : Kin} (hid : k'.id = k.id) (h : k'.frames = k.frames.dropLast) :
    spawns.of k' = (spawns.of k).filter (·.place < k.frames.length - 1) := by
  simp only [of, hid, h, List.length_dropLast, List.filter_filter]
  congr 1
  funext s
  rw [← Bool.decide_and, decide_eq_decide]
  omega

theorem place_lt_of_full {spawns : Spawns} {k : Kin} (full : spawns.of k = spawns k.id) {s : Spawn}
    (h : s ∈ spawns k.id) : s.place < k.frames.length :=
  of_decide_eq_true (List.mem_filter.mp (full.symm ▸ h : s ∈ spawns.of k)).2

/-- A lane that gets frames starts nothing by that. -/
theorem of_grow {spawns : Spawns} {k k' : Kin} (full : spawns.of k = spawns k.id) (hid : k'.id = k.id)
    (h : k.frames.length ≤ k'.frames.length) : spawns.of k' = spawns.of k := by
  rw [full, of, hid, List.filter_eq_self]
  exact fun s hs => decide_eq_true (Nat.lt_of_lt_of_le (place_lt_of_full full hs) h)

end Spawns

/-- A list that ends with `a` goes with a list that ends with what `a` goes with. -/
theorem Kin.forall₂_concat_left {α β : Type} {rel : α → β → Prop} {before : List α} {a : α} {items : List β}
    (h : List.Forall₂ rel (before ++ [a]) items) :
    ∃ before' b, items = before' ++ [b] ∧ List.Forall₂ rel before before' ∧ rel a b := by
  rw [← List.forall₂_reverse_iff, List.reverse_append] at h
  obtain ⟨b, rest, hab, hrest, hitems⟩ := List.forall₂_cons_left_iff.mp h
  refine ⟨rest.reverse, b, ?_, ?_, hab⟩
  · rw [← List.reverse_reverse items, hitems, List.reverse_cons]
  · rw [← List.forall₂_reverse_iff, List.reverse_reverse]
    exact hrest

/-- The lane that a frame started, at the node where it began. -/
structure Spawn.Started (s : Spawn) (k : Kin) : Prop where
  lane : k.id = s.lane
  root : ∀ node, k.root? = some node → node = s.thread

/-- The parallel frames in progress of a lane and its children stand in the same order as what was started. -/
structure Kin.Matched (p : Program) (spawns : Spawns) (lanes : List Kin) (k : Kin) : Prop where
  threads : p.threads k.frames = (spawns.of k).map fun s => (s.place, s.thread)
  children : List.Forall₂ Spawn.Started (spawns.of k) (Kin.children lanes k.id)

namespace Kin

variable {p : Program} {spawns : Spawns} {lanes : List Kin} {k : Kin} {index : Nat}

/-- A lane that is changed in place is still the one that was started. -/
theorem started_modify {started : List Spawn} {id : LaneId} {f : Kin → Kin} (nodup : (lanes.map (·.id)).Nodup)
    (hk : lanes[index]? = some k) (hsame : ∀ c, Kin.Same c (f c)) (hroot : k.KeepsRoot (f k))
    (h : List.Forall₂ Spawn.Started started (children lanes id)) :
    List.Forall₂ Spawn.Started started (children (lanes.modify index f) id) := by
  have hparent (c : Kin) : (if c.id = k.id then f c else c).parent = c.parent := by
    split_ifs
    · exact (hsame c).2
    · rfl
  rw [modify_eq_map nodup hk, children_map _ hparent, List.forall₂_map_right_iff]
  obtain ⟨hlength, hzip⟩ := List.forall₂_iff_zip.mp h
  refine List.forall₂_iff_zip.mpr ⟨hlength, fun {s c} hmem => ?_⟩
  have started := hzip hmem
  have hc := (List.of_mem_zip hmem).2
  split_ifs with hid
  · obtain rfl := eq_of_id nodup (mem_children.mp hc).1 (List.mem_of_getElem? hk) hid
    exact ⟨(hsame c).1.trans started.lane, fun node hnode => started.root node (hroot node hnode)⟩
  · exact started

theorem same_setProgress (progress : UInt16) (k : Kin) : Same k (k.setProgress progress) :=
  ⟨rfl, rfl⟩

theorem frames_setProgress {lower : List Frame} {frame : Frame} (h : k.frames = lower ++ [frame]) (progress : UInt16) :
    (k.setProgress progress).frames = lower ++ [⟨frame.node, progress⟩] := by
  simp [setProgress, h]

theorem root?_setProgress (progress : UInt16) (k : Kin) : (k.setProgress progress).root? = k.root? := by
  obtain hempty | ⟨lower, frame, hframes⟩ := List.eq_nil_or_concat k.frames
  · simp [root?, setProgress, hempty]
  · rw [root?, frames_setProgress (by simpa using hframes), root?, hframes]
    cases lower <;> rfl

theorem root?_push {k : Kin} (h : k.frames ≠ []) (frame : Frame) : (k.push frame).root? = k.root? := by
  rw [root?, push, root?, List.head?_append_of_ne_nil _ h]

theorem keepsRoot_of_eq {k' : Kin} (h : k'.root? = k.root?) : k.KeepsRoot k' :=
  fun _ hnode => h ▸ hnode

/-- A lane that loses its top frame. -/
theorem keepsRoot_of_dropLast {k' : Kin} (h : k'.frames = k.frames.dropLast) : k.KeepsRoot k' := by
  intro node hnode
  rw [root?, h] at hnode
  rw [root?]
  cases hframes : k.frames with
  | nil => simp [hframes] at hnode
  | cons bottom rest =>
    cases rest with
    | nil => simp [hframes] at hnode
    | cons second rest => simpa [hframes] using hnode

end Kin

namespace Roster

variable {σ : Type} [QuerySystem σ] {p : Program} {spawns : Spawns} {index : Nat} {r r' : Roster σ}

/-- The state of lanes within a step of one of them, which alone may be without frames, as far as the others are
concerned. -/
structure Near (p : Program) (spawns : Spawns) (index : Nat) (r : Roster σ) : Prop where
  orderly : r.Orderly
  others : ∀ k ∈ r.lanes, r.lanes[index]? ≠ some k → k.Matched p spawns r.lanes
  occupied : ∀ k ∈ r.lanes, k.frames = [] → r.lanes[index]? = some k

/-- The state of all lanes within a step of one of them. -/
structure Fit (p : Program) (spawns : Spawns) (index : Nat) (r : Roster σ) : Prop extends r.Near p spawns index where
  self : ∀ k, r.lanes[index]? = some k → k.Matched p spawns r.lanes

omit [QuerySystem σ] in
/-- The lane that makes the step is changed in place. -/
theorem Near.change (near : r.Near p spawns index) {k : Kin} (hk : r.lanes[index]? = some k) {f : Kin → Kin}
    (hsame : ∀ c, Kin.Same c (f c)) (hroot : k.KeepsRoot (f k)) :
    (r.onLane index f).Near p spawns index := by
  have hplace : (r.onLane index f).lanes[index]? = some (f k) := by
    rw [Roster.onLane, List.getElem?_modify, hk]
    simp
  refine ⟨near.orderly.onLane index hsame, fun c' hc' hne => ?_, fun c' hc' hempty => ?_⟩
  · obtain ⟨i, c, hc, rfl⟩ := mem_onLane hc'
    split_ifs at hne ⊢ with hi
    · subst hi
      obtain rfl := Option.some.inj (hk.symm.trans hc)
      exact absurd hplace hne
    · have hother : r.lanes[index]? ≠ some c := fun hself => hi (near.orderly.place_inj hself hc)
      have matched := near.others c (List.mem_of_getElem? hc) hother
      exact ⟨matched.threads, Kin.started_modify near.orderly.nodup hk hsame hroot matched.children⟩
  · obtain ⟨i, c, hc, rfl⟩ := mem_onLane hc'
    split_ifs at hempty ⊢ with hi
    · subst hi
      obtain rfl := Option.some.inj (hk.symm.trans hc)
      exact hplace
    · exact absurd (near.orderly.place_inj (near.occupied c (List.mem_of_getElem? hc) hempty) hc) hi

omit [QuerySystem σ] in
/-- The lane that makes the step becomes what it started. -/
theorem Near.onLane (near : r.Near p spawns index) {k : Kin} (hk : r.lanes[index]? = some k) {f : Kin → Kin}
    (hsame : ∀ c, Kin.Same c (f c)) (hroot : k.KeepsRoot (f k))
    (hself : (f k).Matched p spawns (r.onLane index f).lanes) : (r.onLane index f).Fit p spawns index := by
  refine ⟨near.change hk hsame hroot, fun k' hk' => ?_⟩
  rw [Roster.onLane, List.getElem?_modify, hk] at hk'
  obtain rfl : f k = k' := by simpa using hk'
  exact hself

namespace Fit

variable {k : Kin} {frame : Frame} {node : Node} {main thread : NodeId}

omit [QuerySystem σ]

theorem matched (fit : r.Fit p spawns index) {k : Kin} (hk : k ∈ r.lanes) : k.Matched p spawns r.lanes := by
  by_cases h : r.lanes[index]? = some k
  · exact fit.self k h
  · exact fit.others k hk h

/-- What a lane started does not change when its frames keep the parallel ones in progress. -/
theorem change (fit : r.Fit p spawns index) (hk : r.lanes[index]? = some k) {f : Kin → Kin}
    (hsame : ∀ c, Kin.Same c (f c)) (hroot : k.KeepsRoot (f k)) (hthreads : p.threads (f k).frames = p.threads k.frames)
    (hof : spawns.of (f k) = spawns.of k) : (r.onLane index f).Fit p spawns index := by
  have matched := fit.matched (List.mem_of_getElem? hk)
  refine fit.onLane hk hsame hroot ⟨by rw [hthreads, hof]; exact matched.threads, ?_⟩
  rw [hof, (hsame k).1]
  exact Kin.started_modify fit.orderly.nodup hk hsame hroot matched.children

/-- A frame that is no parallel one in progress leaves without a trace. -/
theorem pop (fit : r.Fit p spawns index) (top : r.Top p index k frame node) (hquiet : p.running? frame = none)
    {f : Kin → Kin} (hsame : ∀ c, Kin.Same c (f c)) (hf : (f k).frames = k.frames.dropLast) :
    (r.onLane index f).Fit p spawns index := by
  have hframes : k.frames = k.frames.dropLast ++ [frame] := (List.dropLast_append_getLast? frame top.last).symm
  have hthreads : p.threads (f k).frames = p.threads k.frames := by
    rw [hf]
    conv_rhs => rw [hframes]
    exact (Program.threads_of_quiet _ hquiet).symm
  have hof : spawns.of (f k) = spawns.of k := by
    rw [Spawns.of_dropLast (hsame k).1 hf, List.filter_eq_self]
    intro s hs
    have hmem : (s.place, s.thread) ∈ p.threads (f k).frames := by
      rw [hthreads, (fit.matched (List.mem_of_getElem? top.lane)).threads]
      exact List.mem_map_of_mem hs
    have := Program.place_lt hmem
    rw [hf, List.length_dropLast] at this
    simpa using this
  exact fit.change top.lane hsame (Kin.keepsRoot_of_dropLast hf) hthreads hof

/-- What a parallel frame in progress on top of its lane started is the last that the lane started, and the
youngest child of the lane. -/
theorem newest (fit : r.Fit p spawns index) (top : r.Top p index k frame (.parallel main thread))
    (hprogress : frame.childIndex ≠ 0) :
    ∃ older s before c, spawns.of k = older ++ [s] ∧ s.place + 1 = k.frames.length ∧ s.thread = thread ∧
      p.threads k.frames.dropLast = older.map (fun s => (s.place, s.thread)) ∧
      Kin.children r.lanes k.id = before ++ [c] ∧ List.Forall₂ Spawn.Started older before ∧ s.Started c ∧
      c.root? = some thread := by
  have matched := fit.matched (List.mem_of_getElem? top.lane)
  have hframes : k.frames = k.frames.dropLast ++ [frame] := (List.dropLast_append_getLast? frame top.last).symm
  have hrunning : p.running? frame = some thread := by
    rw [Program.running?, if_neg hprogress]
    exact Program.thread?_eq_some.mpr ⟨main, top.known⟩
  have hthreads := matched.threads
  rw [hframes, Program.threads_append, hrunning] at hthreads
  obtain ⟨older, last, hof, holder, hlast⟩ := List.map_eq_append_iff.mp hthreads.symm
  obtain ⟨s, rfl, hs⟩ : ∃ s, last = [s] ∧ (s.place, s.thread) = (k.frames.dropLast.length, thread) := by
    simpa [List.map_eq_singleton_iff] using hlast
  simp only [Prod.mk.injEq, List.length_dropLast] at hs
  obtain ⟨before, c, hchildren, hbefore, started⟩ := Kin.forall₂_concat_left (hof ▸ matched.children)
  have hpos := List.length_pos_of_mem (List.mem_of_getLast? top.last)
  refine ⟨older, s, before, c, hof, by omega, hs.2, holder.symm, hchildren, hbefore, started, ?_⟩
  have hmem : c ∈ Kin.children r.lanes k.id := by simp [hchildren]
  obtain ⟨hc, hparent⟩ := Kin.mem_children.mp hmem
  cases hroot : c.root? with
  | none =>
    -- a child is not the lane itself, which alone may be without frames
    have hself := fit.occupied c hc (by simpa [Kin.root?] using hroot)
    have hyounger := fit.orderly.younger c hc _ hparent
    rw [Option.some.inj (hself.symm.trans top.lane)] at hyounger
    exact absurd hyounger (Nat.lt_irrefl _)
  | some bottom =>
    rw [started.root bottom hroot, hs.2]

end Fit

omit [QuerySystem σ] in
/-- The lane that is found is the youngest child, if that began at the root that is looked for. -/
theorem Orderly.youngest (orderly : r.Orderly) {k c c' : Kin} {thread : NodeId} {before : List Kin}
    (hchildren : Kin.children r.lanes k.id = before ++ [c]) (hroot : c.root? = some thread) {owned : Nat}
    (hc' : r.lanes[owned]? = some c') (hparent : c'.parent = some k.id)
    (hlast : ∀ (j : Nat) (d : Kin), r.lanes[j]? = some d → owned < j → d.parent = some k.id → d.root? ≠ some thread) :
    c' = c := by
  have hmem : c ∈ Kin.children r.lanes k.id := by simp [hchildren]
  obtain ⟨hc, hcparent⟩ := Kin.mem_children.mp hmem
  obtain ⟨i, hi⟩ := List.mem_iff_getElem?.mp hc
  obtain hlt | rfl | hlt := Nat.lt_trichotomy owned i
  · exact absurd hroot (hlast i c hi hlt hcparent)
  · exact Option.some.inj (hc'.symm.trans hi)
  · exact absurd hparent (Kin.not_child_of_last hchildren orderly.nodup hi hc' hlt)

/-- The lane that goes is the youngest child, if that began at the root that is looked for. -/
theorem Releases.youngest {k c : Kin} {thread : NodeId} {before : List Kin} (releases : r.Releases index thread r')
    (orderly : r.Orderly) (hk : r.lanes[index]? = some k) (hchildren : Kin.children r.lanes k.id = before ++ [c])
    (hroot : c.root? = some thread) :
    ∃ gone, r' = r.remove gone ∧ Kin.Lineage r.lanes c.id gone ∧ (r.remove gone).lanes[index]? = some k := by
  cases releases with
  | nothing hk' hmissed =>
    obtain rfl := Option.some.inj (hk.symm.trans hk')
    have hmem : c ∈ Kin.children r.lanes k.id := by simp [hchildren]
    exact absurd hroot (hmissed c hmem)
  | @lane k' c' owned gone hk' hc' hparent hroot' hlast lineage hkept =>
    obtain rfl := Option.some.inj (hk.symm.trans hk')
    obtain rfl := orderly.youngest hchildren hroot hc' hparent hlast
    exact ⟨gone, rfl, lineage, hkept⟩

/-- The descendants of a child go; the other lanes keep their children. -/
theorem Near.remove (near : r.Near p spawns index) {k c : Kin} (hk : r.lanes[index]? = some k) {gone : List LaneId}
    (hc : c ∈ Kin.children r.lanes k.id) (lineage : Kin.Lineage r.lanes c.id gone)
    (hkept : (r.remove gone).lanes[index]? = some k) : (r.remove gone).Near p spawns index := by
  have hlanes : (r.remove gone).lanes = Kin.without gone r.lanes := by
    rw [Roster.remove, withdraw_lanes]
  obtain ⟨hc, hparent⟩ := Kin.mem_children.mp hc
  refine ⟨near.orderly.remove gone, fun k' hk' hne => ?_, fun k' hk' hempty => ?_⟩
  · rw [hlanes] at hk' ⊢
    obtain ⟨hmem, hstays⟩ := Kin.mem_without.mp hk'
    have hother : k' ≠ k := fun heq => hne (heq ▸ hkept)
    have hplace : r.lanes[index]? ≠ some k' := fun h => hother (Option.some.inj (h.symm.trans hk))
    have matched := near.others k' hmem hplace
    refine ⟨matched.threads, ?_⟩
    have hchildren : Kin.children (Kin.without gone r.lanes) k'.id = Kin.children r.lanes k'.id := by
      rw [Kin.children_without, Kin.without, List.filter_eq_self]
      intro d hd
      obtain ⟨hd, hdparent⟩ := Kin.mem_children.mp hd
      simp only [decide_eq_true_eq]
      intro hgone
      obtain hself | ⟨id, hid, hup⟩ := lineage.up d hd hgone
      · rw [Kin.eq_of_id near.orderly.nodup hd hc hself, hparent] at hdparent
        exact hother (Kin.eq_of_id near.orderly.nodup hmem (List.mem_of_getElem? hk) (Option.some.inj hdparent).symm)
      · rw [hdparent] at hup
        exact hstays (Option.some.inj hup ▸ hid)
    rw [hchildren]
    exact matched.children
  · rw [hlanes] at hk'
    have hplace := near.occupied k' (Kin.mem_without.mp hk').1 hempty
    rw [hkept, Option.some.inj (hk.symm.trans hplace)]

/-- A parallel frame in progress leaves with the lane that it started. -/
theorem Fit.pop_thread (fit : r.Fit p spawns index) {k : Kin} {frame : Frame} {main thread : NodeId}
    (top : r.Top p index k frame (.parallel main thread)) (hprogress : frame.childIndex ≠ 0)
    (releases : r.Releases index thread r') : (r'.onLane index Kin.pop).Fit p spawns index := by
  have hk := top.lane
  obtain ⟨older, s, before, c, hof, hplace, -, hthreads, hchildren, holder, -, hroot⟩ := fit.newest top hprogress
  obtain ⟨gone, rfl, lineage, hkept⟩ := releases.youngest fit.orderly hk hchildren hroot
  have hmem : c ∈ Kin.children r.lanes k.id := by simp [hchildren]
  have near := fit.toNear.remove hk hmem lineage hkept
  have hlanes : (r.remove gone).lanes = Kin.without gone r.lanes := by
    rw [Roster.remove, withdraw_lanes]
  have hrest : Kin.children (r.remove gone).lanes k.id = before := by
    have hstays : k.id ∉ gone := by
      have := List.mem_of_getElem? hkept
      rw [hlanes] at this
      exact (Kin.mem_without.mp this).2
    have nodup : ((before ++ [c]).map (·.id)).Nodup := by
      rw [← hchildren]
      exact fit.orderly.nodup.sublist (List.filter_sublist.map _)
    rw [List.map_append, List.nodup_append] at nodup
    rw [hlanes, Kin.children_without, hchildren, Kin.without, List.filter_append]
    have hlast : [c].filter (fun k => decide (k.id ∉ gone)) = [] := by simp [lineage.self]
    rw [hlast, List.append_nil, List.filter_eq_self]
    intro d hd
    have hdmem : d ∈ Kin.children r.lanes k.id := by simp [hchildren, hd]
    obtain ⟨hdlane, hdparent⟩ := Kin.mem_children.mp hdmem
    simp only [decide_eq_true_eq]
    intro hgone
    obtain hself | ⟨id, hid, hup⟩ := lineage.up d hdlane hgone
    · exact nodup.2.2 d.id (List.mem_map_of_mem hd) c.id (by simp) hself
    · rw [hdparent] at hup
      exact hstays (Option.some.inj hup ▸ hid)
  have hofpop : spawns.of k.pop = older := by
    rw [Spawns.of_dropLast (show k.pop.id = k.id from rfl) rfl, hof, List.filter_append]
    have hlast : [s].filter (fun s => decide (s.place < k.frames.length - 1)) = [] := by
      have hlow : ¬ s.place < k.frames.length - 1 := by omega
      simp [hlow]
    rw [hlast, List.append_nil, List.filter_eq_self]
    intro s' hs'
    have hlt : (s'.place, s'.thread) ∈ p.threads k.frames.dropLast := hthreads ▸ List.mem_map_of_mem hs'
    have := Program.place_lt hlt
    rw [List.length_dropLast] at this
    simpa using this
  have hkeeps : k.KeepsRoot k.pop := Kin.keepsRoot_of_dropLast rfl
  refine near.onLane hkept (fun _ => ⟨rfl, rfl⟩) hkeeps ⟨by rw [hofpop]; exact hthreads, ?_⟩
  rw [hofpop]
  exact Kin.started_modify near.orderly.nodup hkept (fun _ => ⟨rfl, rfl⟩) hkeeps (hrest ▸ holder)

end Roster

end BehaviorTree
