import BehaviorTree.Proofs.Machine.Removal

/-! The shared arena against one list of frames for each lane. Lanes are driven by operations, and what can be
seen of a sequence of operations is the answer to each of them and, after it, every lane with its live frames.
Nothing of this tells the arena from separate stacks, however large it is and by how much it grows, as long as
it can grow. -/

namespace BehaviorTree

open Refusal

inductive LaneOp
  | createPrimary (root : NodeId) (id : LaneId)
  | spawn (owner : Nat) (root : NodeId) (id : LaneId)
  | push (index : Nat) (frame : Frame)
  | pop (index : Nat)
  | top (index : Nat)
  | setChildIndex (index : Nat) (childIndex : UInt16)
  | truncate (index depth : Nat)
  | setWaitStart (index : Nat) (time : UInt64)
  | findOwned (owner : Nat) (root : NodeId)
  | abort (index : Nat)
  | reset
  deriving DecidableEq, Repr

/-- The lane that an operation on this many lanes puts a frame on. -/
def LaneOp.grown? (lanes : Nat) : LaneOp → Option Nat
  | createPrimary _ _ => some 0
  | spawn _ _ _ => some lanes
  | push index _ => some index
  | _ => none

/-- What an operation returns. Removed lanes are returned without their place in the arena. -/
inductive LaneAnswer
  | done
  | frame (top : Option Frame)
  | changed (b : Bool)
  | spawned (index : Nat)
  | found (index : Option Nat)
  | removed (lanes : List Lane)
  deriving DecidableEq, Repr

/-- A lane without its place in the arena. -/
def Lane.placeless (lane : Lane) : Lane :=
  { lane with offset := 0 }

section

variable {σ : Type} (perform : σ → LaneOp → Except Fault (LaneAnswer × σ)) (states : σ → List (Lane × List Frame))

/-- The answers to operations, each with the lanes after it and their live frames, up to the first refusal. -/
def laneTrace (s : σ) : List LaneOp → List (Except Fault (LaneAnswer × List (Lane × List Frame)))
  | [] => []
  | op :: ops =>
    match perform s op with
    | .ok (answer, s') => .ok (answer, states s') :: laneTrace s' ops
    | .error fault => [.error fault]

variable {perform states} {s s' : σ} {op : LaneOp} {ops : List LaneOp}

theorem laneTrace_cons_ok {answer : LaneAnswer} (h : perform s op = .ok (answer, s')) :
    laneTrace perform states s (op :: ops) = .ok (answer, states s') :: laneTrace perform states s' ops := by
  rw [laneTrace, h]

theorem laneTrace_cons_error {fault : Fault} (h : perform s op = .error fault) :
    laneTrace perform states s (op :: ops) = [.error fault] := by
  rw [laneTrace, h]

end

namespace LaneStack

def perform (s : LaneStack) : LaneOp → Except Fault (LaneAnswer × LaneStack)
  | .createPrimary root id => (s.createPrimary root id).map (.done, ·)
  | .spawn owner root lane => (s.spawn owner root lane).map (Prod.map .spawned id)
  | .push index frame => (s.push index frame).map (.done, ·)
  | .pop index => (s.pop index).map (Prod.map .frame id)
  | .top index => (s.top? index).map (.frame ·, s)
  | .setChildIndex index childIndex => (s.setChildIndex index childIndex).map (Prod.map .changed id)
  | .truncate index depth => (s.truncate index depth).map (.done, ·)
  | .setWaitStart index time => (s.setWaitStart index time).map (.done, ·)
  | .findOwned owner root => .ok (.found (s.findOwned? owner root), s)
  | .abort index => (s.abort index).map (Prod.map (.removed <| ·.map Lane.placeless) id)
  | .reset => .ok (.done, s.reset)

/-- The lanes with their live frames. -/
def states (s : LaneStack) : List (Lane × List Frame) :=
  s.lanes.toList.map fun lane => (lane.placeless, s.liveFrames lane)

def trace : LaneStack → List LaneOp → List (Except Fault (LaneAnswer × List (Lane × List Frame))) :=
  laneTrace perform states

/-- The lanes after a sequence of operations. -/
def after (s : LaneStack) (ops : List LaneOp) : Except Fault LaneStack :=
  ops.foldlM (fun s op => (s.perform op).map (·.2)) s

end LaneStack

namespace LaneView

def truncate (depth : Nat) (v : LaneView) : LaneView :=
  { v with frames := v.frames.take depth }

/-- The lane above a removed one moves down by one place. -/
def shiftOwner (removed : Nat) (v : LaneView) : LaneView :=
  { v with owner := v.owner.map fun owner => if removed < owner then owner - 1 else owner }

def lane (v : LaneView) : Lane :=
  ⟨v.id, 0, v.frames.length, v.owner, v.waitStart⟩

end LaneView

/-- One list of frames for each lane. -/
abbrev Stacks := List LaneView

namespace Stacks

/-- Answers from one stack and changes it. -/
def touch (views : Stacks) (index : Nat) (answer : LaneView → LaneAnswer) (f : LaneView → LaneView) :
    Except Fault (LaneAnswer × Stacks) :=
  if h : index < views.length then .ok (answer views[index], views.modify index f) else .error .outOfRange

/-- The newest of the stacks of which `p` holds. -/
def newest? (views : Stacks) (p : LaneView → Bool) : Option Nat :=
  (List.range views.length).reverse.find? fun i => views[i]?.any p

def remove (views : Stacks) (index : Nat) : Stacks :=
  (views.eraseIdx index).map (LaneView.shiftOwner index)

/-- Removes a stack and, first, those that it owns, the newest first. Every step removes one, and `fuel` counts
them. -/
def abortFrom : (fuel : Nat) → Stacks → (index : Nat) → List Lane × Stacks
  | 0, views, _ => ([], views)
  | fuel + 1, views, index =>
    match views.newest? (·.owner = some index) with
    | some owned =>
      let (gone, views) := abortFrom fuel views owned
      let (later, views) := abortFrom fuel views index
      (gone ++ later, views)
    | none =>
      match views[index]? with
      | some v => ([v.lane], views.remove index)
      | none => ([], views)

def perform (views : Stacks) : LaneOp → Except Fault (LaneAnswer × Stacks)
  | .createPrimary root id =>
    if views = [] then .ok (.done, [⟨id, none, 0, [.start root]⟩]) else .error .primaryExists
  | .spawn owner root id =>
    if owner < views.length then
      .ok (.spawned views.length, views ++ [⟨id, some owner, 0, [.start root]⟩])
    else .error .missingOwner
  | .push index frame => views.touch index (fun _ => .done) (LaneView.push frame)
  | .pop index => views.touch index (.frame ·.frames.getLast?) LaneView.pop
  | .top index => views.touch index (.frame ·.frames.getLast?) id
  | .setChildIndex index childIndex =>
    views.touch index (fun v => .changed !v.frames.isEmpty) (LaneView.setProgress childIndex)
  | .truncate index depth => views.touch index (fun _ => .done) (LaneView.truncate depth)
  | .setWaitStart index time => views.touch index (fun _ => .done) (LaneView.setWaitStart time)
  | .findOwned owner root =>
    .ok (.found (views.newest? fun v => v.owner = some owner ∧ v.frames.head?.map (·.node) = some root), views)
  | .abort index =>
    if index = 0 then .error .abortedPrimary
    else if index < views.length then .ok (Prod.map .removed id (views.abortFrom views.length index))
    else .error (.abortedMissing index)
  | .reset => .ok (.done, [])

def states (views : Stacks) : List (Lane × List Frame) :=
  views.map fun v => (v.lane, v.frames)

def trace : Stacks → List LaneOp → List (Except Fault (LaneAnswer × List (Lane × List Frame))) :=
  laneTrace perform states

end Stacks

namespace LaneStack

variable {s s' : LaneStack}

/-! ### What is seen -/

theorem lane_viewOf (ord : s.Ordered) {i : Nat} {lane : Lane} (h : s.lanes[i]? = some lane) :
    (s.viewOf lane).lane = lane.placeless := by
  rw [LaneView.lane, viewOf, ord.length_liveFrames h, Lane.placeless]

theorem states_eq (ord : s.Ordered) : s.states = Stacks.states s.view := by
  rw [states, Stacks.states, view, List.map_map, List.map_inj_left]
  intro lane hmem
  obtain ⟨i, hi⟩ := List.mem_iff_getElem?.mp hmem
  rw [Function.comp, lane_viewOf ord (by simpa using hi), viewOf]

theorem frames_eq (s : LaneStack) (i : Nat) :
    s.frames i = (s.view[i]?.map LaneView.frames).elim (.error .outOfRange) .ok := by
  rw [frames, lane, getElem?_view]
  cases s.lanes[i]? <;> rfl

theorem findNewest?_view {p : Lane → Bool} {q : LaneView → Bool}
    (h : ∀ (i : Nat) (lane : Lane), s.lanes[i]? = some lane → q (s.viewOf lane) = p lane) :
    Stacks.newest? s.view q = s.findNewest? p := by
  rw [Stacks.newest?, findNewest?, length_view]
  congr 1
  funext i
  rw [getElem?_view]
  cases hlane : s.lanes[i]? with
  | none => rfl
  | some lane => exact h i lane hlane

theorem view_remove {index : Nat} (h : index < s.lanes.size) : (s.remove index).view = Stacks.remove s.view index := by
  apply List.ext_getElem?
  intro i
  rw [getElem?_view_remove h, Stacks.remove, List.getElem?_map, List.getElem?_eraseIdx]
  split_ifs <;> rfl

theorem view_eq_nil_iff : s.view = [] ↔ s.lanes = #[] := by
  rw [view, List.map_eq_nil_iff, Array.toList_eq_nil_iff]

theorem lane_of_size_le {i : Nat} (h : s.lanes.size ≤ i) : s.lane i = .error .outOfRange := by
  rw [lane, Array.getElem?_eq_none h]

/-! ### One operation -/

/-- Nothing that is seen of an operation tells the arena from separate stacks, unless the arena cannot grow any
further. -/
inductive Mirrors (s : LaneStack) :
    Except Fault (LaneAnswer × LaneStack) → Except Fault (LaneAnswer × Stacks) → Prop
  | full {expected : Except Fault (LaneAnswer × Stacks)} (h : maxFrames < s.arena.size + s.block) :
    Mirrors s (.error .tooLarge) expected
  | refused (fault : Fault) : Mirrors s (.error fault) (.error fault)
  | done {answer : LaneAnswer} {s' : LaneStack} (ordered : s'.Ordered) (block : s'.block = s.block)
    (room : s'.arena.size ≤ s.arena.size + s.block) : Mirrors s (.ok (answer, s')) (.ok (answer, s'.view))

/-- What changes one lane changes one stack. -/
theorem Mirrors.touch {index : Nat} {answer : LaneView → LaneAnswer} {f : LaneView → LaneView}
    {result : Except Fault (LaneAnswer × LaneStack)}
    (hmissing : s.lanes.size ≤ index → result = .error .outOfRange)
    (hlane : ∀ lane, s.lanes[index]? = some lane →
      result = .error .tooLarge ∧ maxFrames < s.arena.size + s.block ∨
      ∃ s', result = .ok (answer (s.viewOf lane), s') ∧ s'.Ordered ∧ s'.view = s.view.modify index f ∧
        s'.block = s.block ∧ s'.arena.size ≤ s.arena.size + s.block) :
    Mirrors s result (Stacks.touch s.view index answer f) := by
  rw [Stacks.touch]
  by_cases h : index < s.lanes.size
  · have hstack : index < s.view.length := by simpa using h
    have hview : s.view[index] = s.viewOf s.lanes[index] := by
      simp [view]
    rw [dif_pos hstack, hview]
    obtain ⟨rfl, hfull⟩ | ⟨s', rfl, ord', hchanged, hblock, hsize⟩ := hlane _ (Array.getElem?_eq_getElem h)
    · exact .full hfull
    · exact hchanged ▸ .done ord' hblock hsize
  · rw [dif_neg (by simpa using h), hmissing (by omega)]
    exact .refused _

theorem push_mirrors (ord : s.Ordered) (index : Nat) (frame : Frame) :
    Mirrors s (s.perform (.push index frame)) (Stacks.perform s.view (.push index frame)) := by
  rw [perform, Stacks.perform]
  refine .touch (fun h => by rw [push, lane_of_size_le h]; rfl) fun lane hlane => ?_
  obtain ⟨hpush, hfull⟩ | ⟨s', hpush, ord', hview, hblock, hsize⟩ :=
    push_eq ord (Array.getElem?_eq_some_iff.mp hlane).1 frame
  · exact .inl ⟨by rw [hpush]; rfl, hfull⟩
  · exact .inr ⟨s', by rw [hpush]; rfl, ord', hview, hblock, hsize⟩

theorem top?_of_pop {index : Nat} {top : Option Frame} (h : s.pop index = .ok (top, s')) : s.top? index = .ok top := by
  rw [pop, bind_eq_ok_iff] at h
  obtain ⟨_ | frame, htop, ⟨⟩⟩ := h <;> exact htop

theorem pop_mirrors (ord : s.Ordered) (index : Nat) :
    Mirrors s (s.perform (.pop index)) (Stacks.perform s.view (.pop index)) := by
  rw [perform, Stacks.perform]
  refine .touch (fun h => by rw [pop, top?, lane_of_size_le h]; rfl) fun lane hlane => .inr ?_
  obtain ⟨top, s', hpop, ord', hview, harena, hblock⟩ := pop_eq ord (Array.getElem?_eq_some_iff.mp hlane).1
  have htop : .ok (s.liveFrames lane).getLast? = Except.ok top := (top?_eq ord hlane).symm.trans (top?_of_pop hpop)
  obtain rfl := Except.ok.inj htop
  exact ⟨s', by rw [hpop]; rfl, ord', hview, hblock, by rw [harena]; exact Nat.le_add_right _ _⟩

theorem top_mirrors (ord : s.Ordered) (index : Nat) :
    Mirrors s (s.perform (.top index)) (Stacks.perform s.view (.top index)) := by
  rw [perform, Stacks.perform]
  refine .touch (fun h => by rw [top?, lane_of_size_le h]; rfl) fun lane hlane => .inr ?_
  exact ⟨s, by rw [top?_eq ord hlane]; rfl, ord, (List.modify_id index s.view).symm, rfl, Nat.le_add_right _ _⟩

theorem changed_of_setChildIndex {index : Nat} {childIndex : UInt16} {b : Bool} {lane : Lane}
    (hlane : s.lanes[index]? = some lane) (h : s.setChildIndex index childIndex = .ok (b, s')) :
    b = decide (0 < lane.count) := by
  rw [setChildIndex, lane_of_getElem? hlane] at h
  change (if 0 < lane.count then _ else _) = _ at h
  split_ifs at h with hcount
  all_goals obtain ⟨rfl, -⟩ := Prod.mk.inj (Except.ok.inj h); simp [hcount]

theorem setChildIndex_mirrors (ord : s.Ordered) (index : Nat) (childIndex : UInt16) :
    Mirrors s (s.perform (.setChildIndex index childIndex)) (Stacks.perform s.view (.setChildIndex index childIndex)) := by
  rw [perform, Stacks.perform]
  refine .touch (fun h => by rw [setChildIndex, lane_of_size_le h]; rfl) fun lane hlane => .inr ?_
  obtain ⟨b, s', hset, ord', hview, hsize, hblock⟩ :=
    setChildIndex_eq ord (Array.getElem?_eq_some_iff.mp hlane).1 childIndex
  have hb : b = !(s.viewOf lane).frames.isEmpty := by
    rw [changed_of_setChildIndex hlane hset, ← ord.length_liveFrames hlane, viewOf]
    cases s.liveFrames lane <;> rfl
  exact ⟨s', by rw [hset, hb]; rfl, ord', hview, hblock, by omega⟩

theorem truncate_eq (ord : s.Ordered) {index : Nat} (h : index < s.lanes.size) (depth : Nat) :
    ∃ s', s.truncate index depth = .ok s' ∧ s'.Ordered ∧ s'.view = s.view.modify index (LaneView.truncate depth) ∧
      s'.arena = s.arena ∧ s'.block = s.block := by
  have hlane := Array.getElem?_eq_getElem h
  have hroom (lane : Lane) (h : s.lanes[index]? = some lane) : lane.offset + min lane.count depth ≤ s.regionEnd index := by
    have := ord.room index lane h
    omega
  rw [truncate, lane_of_getElem? hlane]
  refine ⟨_, rfl, ord.modifyLane fun lane h => ⟨rfl, hroom lane h, rfl⟩, ?_, rfl, rfl⟩
  refine view_eq_modify ord hlane (by rw [getElem?_modifyLane, if_pos rfl, hlane]; rfl)
    (fun i hi => by rw [getElem?_modifyLane, if_neg (Ne.symm hi)]) (fun _ _ => rfl) ?_
  simp only [viewOf, LaneView.truncate, LaneView.mk.injEq, true_and]
  rw [liveFrames_eq, liveFrames_eq, List.take_take, Nat.min_comm]
  rfl

theorem truncate_mirrors (ord : s.Ordered) (index depth : Nat) :
    Mirrors s (s.perform (.truncate index depth)) (Stacks.perform s.view (.truncate index depth)) := by
  rw [perform, Stacks.perform]
  refine .touch (fun h => by rw [truncate, lane_of_size_le h]; rfl) fun lane hlane => .inr ?_
  obtain ⟨s', htruncate, ord', hview, harena, hblock⟩ := truncate_eq ord (Array.getElem?_eq_some_iff.mp hlane).1 depth
  exact ⟨s', by rw [htruncate]; rfl, ord', hview, hblock, by rw [harena]; exact Nat.le_add_right _ _⟩

theorem setWaitStart_mirrors (ord : s.Ordered) (index : Nat) (time : UInt64) :
    Mirrors s (s.perform (.setWaitStart index time)) (Stacks.perform s.view (.setWaitStart index time)) := by
  rw [perform, Stacks.perform]
  refine .touch (fun h => by rw [setWaitStart, lane_of_size_le h]; rfl) fun lane hlane => .inr ?_
  obtain ⟨s', hset, ord', hview, harena, hblock⟩ :=
    setWaitStart_eq ord (Array.getElem?_eq_some_iff.mp hlane).1 time
  exact ⟨s', by rw [hset]; rfl, ord', hview, hblock, by rw [harena]; exact Nat.le_add_right _ _⟩

theorem createPrimary_mirrors (root : NodeId) (id : LaneId) :
    Mirrors s (s.perform (.createPrimary root id)) (Stacks.perform s.view (.createPrimary root id)) := by
  rw [Stacks.perform]
  by_cases h : s.lanes = #[]
  · rw [if_pos (view_eq_nil_iff.mpr h)]
    obtain ⟨hcreate, hfull⟩ | ⟨s', hcreate, ord', hview, hblock, hsize⟩ := createPrimary_eq h root id
    · rw [perform, hcreate]
      exact .full hfull
    · rw [perform, hcreate, ← hview]
      exact .done ord' hblock hsize
  · have hopen : s.openPrimary id = .error .primaryExists := by
      rw [openPrimary, if_neg (by simpa using h)]
    rw [if_neg (mt view_eq_nil_iff.mp h), perform, createPrimary, hopen]
    exact .refused _

theorem spawn_mirrors (ord : s.Ordered) (owner : Nat) (root : NodeId) (id : LaneId) :
    Mirrors s (s.perform (.spawn owner root id)) (Stacks.perform s.view (.spawn owner root id)) := by
  rw [Stacks.perform, length_view]
  by_cases h : owner < s.lanes.size
  · rw [if_pos h]
    obtain ⟨hspawn, hfull⟩ | ⟨s', hspawn, ord', hview, hblock, hsize⟩ := spawn_eq ord h root id
    · rw [perform, hspawn]
      exact .full hfull
    · rw [perform, hspawn, ← hview]
      exact .done ord' hblock hsize
  · have hopen : s.openOwned owner id = .error .missingOwner := by
      rw [openOwned, if_neg h]
    rw [if_neg h, perform, spawn, hopen]
    exact .refused _

theorem findOwned_mirrors (ord : s.Ordered) (owner : Nat) (root : NodeId) :
    Mirrors s (s.perform (.findOwned owner root)) (Stacks.perform s.view (.findOwned owner root)) := by
  have hfound : Stacks.newest? s.view (fun v => v.owner = some owner ∧ v.frames.head?.map (·.node) = some root) =
      s.findOwned? owner root :=
    findNewest?_view fun i lane hlane => by rw [bottom?_eq ord hlane]; rfl
  rw [Stacks.perform, hfound, perform]
  exact .done ord rfl (Nat.le_add_right _ _)

/-- The same lanes go in the same order, whatever their places in the arena. -/
theorem abortInto_view (fuel : Nat) {s : LaneStack} (ord : s.Ordered) {index : Nat} (hpos : 0 < index)
    (h : index < s.lanes.size) (hfuel : s.lanes.size - index ≤ fuel) (removed : Array Lane) :
    (abortInto fuel s index removed).1.toList.map Lane.placeless =
        removed.toList.map Lane.placeless ++ (Stacks.abortFrom fuel s.view index).1 ∧
      (abortInto fuel s index removed).2.view = (Stacks.abortFrom fuel s.view index).2 := by
  induction fuel generalizing s index removed with
  | zero => omega
  | succ fuel ih =>
    have hsearch : Stacks.newest? s.view (·.owner = some index) = s.findNewest? (·.owner = some index) :=
      findNewest?_view fun _ _ _ => rfl
    rw [abortInto, Stacks.abortFrom, hsearch]
    cases hfind : s.findNewest? (·.owner = some index) with
    | none =>
      have hlane := Array.getElem?_eq_getElem h
      simp only [hlane, getElem?_view, Option.map_some, Array.toList_push, List.map_append, List.map_singleton,
        lane_viewOf ord hlane, view_remove h, and_self]
    | some owned =>
      obtain ⟨lane, hlane, howner⟩ := findNewest?_eq_some hfind
      have hbound := (Array.getElem?_eq_some_iff.mp hlane).1
      have hlt := ord.owned_pos hlane (by simpa using howner)
      have pruned := abortInto_pruned fuel ord (by omega) hbound (by omega) removed
      obtain ⟨hgone, hview⟩ := ih ord (by omega) hbound (by omega) removed
      have hstays : index < (abortInto fuel s owned removed).2.lanes.size := by
        have hsame := pruned.below index hlt
        rw [Array.getElem?_eq_getElem h] at hsame
        exact (Array.getElem?_eq_some_iff.mp hsame).1
      have hfewer := pruned.fewer
      obtain ⟨hlater, hrest⟩ := ih pruned.ordered hpos hstays (by omega) (abortInto fuel s owned removed).1
      simp only [← hview]
      exact ⟨by rw [hlater, hgone, List.append_assoc], hrest⟩

theorem abort_mirrors (ord : s.Ordered) (index : Nat) :
    Mirrors s (s.perform (.abort index)) (Stacks.perform s.view (.abort index)) := by
  rw [Stacks.perform, perform, abort, length_view]
  split_ifs with hzero h
  · exact .refused _
  · obtain ⟨hgone, hview⟩ := abortInto_view s.lanes.size ord (Nat.pos_of_ne_zero hzero) h (Nat.sub_le _ _) #[]
    have pruned := abortInto_pruned s.lanes.size ord (Nat.pos_of_ne_zero hzero) h (Nat.sub_le _ _) #[]
    have hexpected : Stacks.abortFrom s.lanes.size s.view index =
        ((abortInto s.lanes.size s index #[]).1.toList.map Lane.placeless, (abortInto s.lanes.size s index #[]).2.view) := by
      rw [hgone, hview]
      rfl
    rw [hexpected]
    exact .done pruned.ordered pruned.block
      (Nat.le_trans (Nat.le_of_eq (congrArg Array.size pruned.arena)) (Nat.le_add_right _ _))
  · exact .refused _

theorem perform_mirrors (ord : s.Ordered) (op : LaneOp) : Mirrors s (s.perform op) (Stacks.perform s.view op) := by
  cases op with
  | createPrimary root id => exact createPrimary_mirrors root id
  | spawn owner root id => exact spawn_mirrors ord owner root id
  | push index frame => exact push_mirrors ord index frame
  | pop index => exact pop_mirrors ord index
  | top index => exact top_mirrors ord index
  | setChildIndex index childIndex => exact setChildIndex_mirrors ord index childIndex
  | truncate index depth => exact truncate_mirrors ord index depth
  | setWaitStart index time => exact setWaitStart_mirrors ord index time
  | findOwned owner root => exact findOwned_mirrors ord owner root
  | abort index => exact abort_mirrors ord index
  | reset => exact .done (Ordered.of_isEmpty rfl) rfl (Nat.le_add_right _ _)

/-! ### Sequences of operations -/

/-- Operations are seen to do what they do to separate stacks, up to one for which the arena cannot grow. -/
theorem trace_eq (ord : s.Ordered) (ops : List LaneOp) :
    s.trace ops = Stacks.trace s.view ops ∨
      maxFrames < s.arena.size + ops.length * s.block ∧
        ∃ before, before <+: Stacks.trace s.view ops ∧ s.trace ops = before ++ [.error .tooLarge] := by
  induction ops generalizing s with
  | nil => exact .inl rfl
  | cons op ops ih =>
    have hlength : (op :: ops).length * s.block = ops.length * s.block + s.block := Nat.succ_mul _ _
    have hmirrors := perform_mirrors ord op
    generalize hresult : s.perform op = result at hmirrors
    generalize hexpected : Stacks.perform s.view op = expected at hmirrors
    cases hmirrors with
    | full hfull => exact .inr ⟨by omega, [], List.nil_prefix, laneTrace_cons_error hresult⟩
    | refused fault => exact .inl ((laneTrace_cons_error hresult).trans (laneTrace_cons_error hexpected).symm)
    | @done answer s' ord' hblock hroom =>
      have hseen : s.trace (op :: ops) = .ok (answer, s'.states) :: s'.trace ops := laneTrace_cons_ok hresult
      have hstacks : Stacks.trace s.view (op :: ops) = .ok (answer, s'.states) :: Stacks.trace s'.view ops :=
        states_eq ord' ▸ laneTrace_cons_ok hexpected
      rw [hseen, hstacks]
      obtain hsame | ⟨hfull, before, hbefore, htrace⟩ := ih ord'
      · exact .inl (by rw [hsame])
      · rw [hblock] at hfull
        exact .inr ⟨by omega, _ :: before, List.cons_prefix_cons.mpr ⟨rfl, hbefore⟩, by rw [htrace]; rfl⟩

theorem Ordered.perform (ord : s.Ordered) {op : LaneOp} {answer : LaneAnswer} (h : s.perform op = .ok (answer, s')) :
    s'.Ordered ∧ Stacks.perform s.view op = .ok (answer, s'.view) := by
  have hmirrors := perform_mirrors ord op
  rw [h] at hmirrors
  generalize hexpected : Stacks.perform s.view op = expected at hmirrors
  cases hmirrors with
  | done ord' => exact ⟨ord', rfl⟩

theorem Ordered.after (ord : s.Ordered) {ops : List LaneOp} (h : s.after ops = .ok s') : s'.Ordered := by
  induction ops generalizing s with
  | nil =>
    obtain rfl := Except.ok.inj h
    exact ord
  | cons op ops ih =>
    rw [LaneStack.after, List.foldlM_cons, bind_eq_ok_iff] at h
    obtain ⟨r, hr, hrest⟩ := h
    obtain ⟨⟨answer, r'⟩, hperform, rfl⟩ := map_eq_ok_iff.mp hr
    exact ih (ord.perform hperform).1 hrest

end LaneStack

/-- A stack that grows leaves the others alone. -/
theorem Stacks.getElem?_of_grown {views views' : Stacks} {op : LaneOp} {answer : LaneAnswer} {index : Nat}
    (hgrown : op.grown? views.length = some index) (h : views.perform op = .ok (answer, views')) {i : Nat}
    (hi : i ≠ index) : views'[i]? = views[i]? := by
  cases op with
  | createPrimary root id =>
    obtain rfl := Option.some.inj hgrown
    rw [perform] at h
    split_ifs at h with hnil
    obtain ⟨-, rfl⟩ := Prod.mk.inj (Except.ok.inj h)
    rw [hnil, List.getElem?_nil, List.getElem?_eq_none (by simp; omega)]
  | spawn owner root id =>
    obtain rfl := Option.some.inj hgrown
    rw [perform] at h
    split_ifs at h
    obtain ⟨-, rfl⟩ := Prod.mk.inj (Except.ok.inj h)
    by_cases hlt : i < views.length
    · rw [List.getElem?_append_left hlt]
    · rw [List.getElem?_eq_none (by rw [List.length_append, List.length_singleton]; omega),
        List.getElem?_eq_none (Nat.le_of_not_lt hlt)]
  | push target frame =>
    obtain rfl := Option.some.inj hgrown
    rw [perform, touch] at h
    split_ifs at h
    obtain ⟨-, rfl⟩ := Prod.mk.inj (Except.ok.inj h)
    rw [List.getElem?_modify]
    simp [Ne.symm hi]
  | _ => exact nomatch hgrown

namespace LaneStack

variable {s s' : LaneStack}

theorem frames_of_grown (ord : s.Ordered) {op : LaneOp} {answer : LaneAnswer} {index : Nat}
    (hgrown : op.grown? s.lanes.size = some index) (h : s.perform op = .ok (answer, s')) {i : Nat} (hi : i ≠ index) :
    s'.frames i = s.frames i := by
  have hview := Stacks.getElem?_of_grown (by rwa [length_view]) (ord.perform h).2 hi
  rw [frames_eq, frames_eq, hview]

theorem new_eq_ok {capacity block : Nat} (h : new capacity block = .ok s) :
    s.lanes = #[] ∧ s.arena.size = capacity ∧ s.block = block := by
  rw [new] at h
  split_ifs at h
  obtain rfl := Except.ok.inj h
  exact ⟨rfl, Array.size_replicate, rfl⟩

/-- An arena of any size that grows by any number of frames is seen as separate stacks, and lanes that grow leave
the frames of all others alone. Only memory can run out: the operation that fails for it is the last one. -/
theorem trace_new {capacity block : Nat} {s : LaneStack} (h : new capacity block = .ok s) (ops : List LaneOp) :
    (s.trace ops = Stacks.trace [] ops ∨
      maxFrames < capacity + ops.length * block ∧
        ∃ before, before <+: Stacks.trace [] ops ∧ s.trace ops = before ++ [.error .tooLarge]) ∧
    (∀ (capacity' block' : Nat) (s' : LaneStack), new capacity' block' = .ok s' →
      capacity + ops.length * block ≤ maxFrames → capacity' + ops.length * block' ≤ maxFrames →
      s'.trace ops = s.trace ops) ∧
    ∀ r, s.after ops = .ok r → ∀ (op : LaneOp) (answer : LaneAnswer) (r' : LaneStack) (index : Nat),
      op.grown? r.lanes.size = some index → r.perform op = .ok (answer, r') →
      ∀ i, i ≠ index → r'.frames i = r.frames i := by
  have hstacks {capacity block : Nat} {s : LaneStack} (h : new capacity block = .ok s) :
      s.trace ops = Stacks.trace [] ops ∨
        maxFrames < capacity + ops.length * block ∧
          ∃ before, before <+: Stacks.trace [] ops ∧ s.trace ops = before ++ [.error .tooLarge] := by
    obtain ⟨hlanes, rfl, rfl⟩ := new_eq_ok h
    have htrace := trace_eq (Ordered.of_isEmpty hlanes) ops
    rwa [view_eq_nil_iff.mpr hlanes] at htrace
  refine ⟨hstacks h, fun capacity' block' s' h' hfits hfits' => ?_, fun r hr op answer r' index hgrown hop i hi => ?_⟩
  · obtain hsame | ⟨hfull, -⟩ := hstacks h
    · obtain hsame' | ⟨hfull', -⟩ := hstacks h'
      · rw [hsame', hsame]
      · omega
    · omega
  · obtain ⟨hlanes, -, -⟩ := new_eq_ok h
    exact frames_of_grown ((Ordered.of_isEmpty hlanes).after hr) hgrown hop hi

/-- Two lanes that take turns in growing, one that is owned by the second, and an abort. -/
def collisions : List LaneOp :=
  [.createPrimary ⟨0⟩ 0, .spawn 0 ⟨3⟩ 1, .push 1 ⟨⟨4⟩, 0⟩, .push 0 ⟨⟨1⟩, 0⟩, .push 1 ⟨⟨5⟩, 2⟩, .spawn 1 ⟨6⟩ 2,
    .push 0 ⟨⟨2⟩, 1⟩, .setChildIndex 1 7, .findOwned 1 ⟨6⟩, .truncate 1 2, .abort 1, .push 0 ⟨⟨8⟩, 0⟩, .pop 0]

/-- No operation is refused in an arena without any room to begin with, which grows frame by frame, and a larger
arena is seen to do the same. -/
theorem trace_new_collisions :
    ∃ s s', new 0 1 = .ok s ∧ new 32 8 = .ok s' ∧ s.trace collisions = Stacks.trace [] collisions ∧
      s'.trace collisions = s.trace collisions ∧ (Stacks.trace [] collisions).all (·.isOk) := by
  obtain ⟨hstacks, hsame, -⟩ := @trace_new 0 1 _ rfl collisions
  refine ⟨_, _, rfl, rfl, ?_, hsame 32 8 _ rfl (by decide) (by decide), by decide⟩
  obtain hstacks | ⟨hfull, -⟩ := hstacks
  · exact hstacks
  · exact absurd hfull (by decide)

end LaneStack

end BehaviorTree
