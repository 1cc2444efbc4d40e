import BehaviorTree.Machine.Step
import BehaviorTree.Proofs.Machine.Evaluation
import BehaviorTree.Proofs.Machine.Removal

/-! Sound ticks: every lane has frames of nodes that exist, a root at the bottom, and memory that suits
the program. Each part of a step keeps a tick sound, and is refused only when ids or memory run out. -/

namespace BehaviorTree

open Refusal

namespace Act

variable {σ α β : Type}

/-- What an act leads to: `post` if it returns, `refused` if it is refused. -/
def Ensures (act : Act σ α) (t : Tick σ) (refused : Fault → Prop) (post : α → Tick σ → Prop) : Prop :=
  match act t with
  | .ok (a, t') => post a t'
  | .error fault => refused fault

namespace Ensures

variable {t : Tick σ} {refused : Fault → Prop} {post : α → Tick σ → Prop}

theorem of_eq {act : Act σ α} {a : α} {t' : Tick σ} (h : act t = .ok (a, t')) (hpost : post a t') :
    act.Ensures t refused post := by
  rw [Ensures, h]
  exact hpost

theorem of_error {act : Act σ α} {fault : Fault} (h : act t = .error fault) (hrefused : refused fault) :
    act.Ensures t refused post := by
  rw [Ensures, h]
  exact hrefused

theorem pure {a : α} (h : post a t) : (Pure.pure a : Act σ α).Ensures t refused post :=
  h

theorem bind {act : Act σ α} {next : α → Act σ β} {last : β → Tick σ → Prop}
    (h : act.Ensures t refused fun a t' => (next a).Ensures t' refused last) :
    (act >>= next).Ensures t refused last := by
  unfold Ensures at h ⊢
  show match (act t >>= fun r => next r.1 r.2) with
    | .ok (a, t') => last a t'
    | .error fault => refused fault
  cases hact : act t with
  | error fault => rwa [hact] at h
  | ok r => rwa [hact] at h

theorem mono {act : Act σ α} {post' : α → Tick σ → Prop} (h : act.Ensures t refused post)
    (himp : ∀ a t', post a t' → post' a t') : act.Ensures t refused post' := by
  unfold Ensures at h ⊢
  split at h
  next heq => exact himp _ _ h
  next heq => exact h

/-- An act that is never refused. -/
theorem ok {act : Act σ α} (h : act.Ensures t (fun _ => False) post) : ∃ a t', act t = .ok (a, t') ∧ post a t' := by
  unfold Ensures at h
  split at h
  next a t' heq => exact ⟨a, t', heq, h⟩
  next => exact h.elim

/-- An act that is known to return, before others. -/
theorem bind_of_eq {act : Act σ α} {next : α → Act σ β} {last : β → Tick σ → Prop} {a : α} {t' : Tick σ}
    (h : act t = .ok (a, t')) (hnext : (next a).Ensures t' refused last) :
    (act >>= next).Ensures t refused last :=
  bind (of_eq h hnext)

theorem seq {act : Act σ α} {next : α → Act σ β} {last : β → Tick σ → Prop} (h : act.Ensures t refused post)
    (hnext : ∀ a t', post a t' → (next a).Ensures t' refused last) :
    (act >>= next).Ensures t refused last :=
  bind (h.mono hnext)

theorem onLanes {index : Nat} {f : LaneStack → Except Fault (α × LaneStack)} {a : α} {lanes : LaneStack}
    (h : f t.agent.lanes = .ok (a, lanes))
    (hpost : ∀ notices, post a ⟨⟨lanes, t.agent.holder, t.agent.nextLane⟩, t.world, t.cycle, notices⟩) :
    (Act.onLanes index f).Ensures t refused post := by
  have hact : Act.onLanes index f t = putLanes index t.agent.lanes.arena.size t.agent.holder t.agent.nextLane
      t.world t.cycle t.notices (.ok (a, lanes)) := by
    rw [← h]
    rfl
  exact of_eq hact (hpost _)

theorem onLanes_error {index : Nat} {f : LaneStack → Except Fault (α × LaneStack)} {fault : Fault}
    (h : f t.agent.lanes = .error fault) (hrefused : refused fault) :
    (Act.onLanes index f).Ensures t refused post := by
  have hact : Act.onLanes index f t = putLanes index t.agent.lanes.arena.size t.agent.holder t.agent.nextLane
      t.world t.cycle t.notices (.error fault) := by
    rw [← h]
    rfl
  exact of_error hact hrefused

/-- A loop keeps what every turn of it keeps. -/
theorem forM {items : List α} {f : α → Act σ Unit} {inv : Tick σ → Prop} (hinv : inv t)
    (hf : ∀ a ∈ items, ∀ t, inv t → (f a).Ensures t refused fun _ => inv) :
    (items.forM f).Ensures t refused fun _ => inv := by
  induction items generalizing t with
  | nil => exact pure hinv
  | cons a items ih =>
    rw [List.forM_eq_forM, List.forM_cons]
    exact seq (hf a (by simp) t hinv) fun _ t hinv => ih hinv fun b hb => hf b (by simp [hb])

end Ensures

end Act

/-! ### Sound ticks -/

/-- A node at which a lane may begin. -/
def Program.IsLaneRoot (p : Program) (id : NodeId) : Prop :=
  ∃ node, p.node? id = some node ∧ (node.kind = .root ∨ node.kind = .threadRoot)

/-- Frames of nodes that exist, above a root. -/
structure Program.Framed (p : Program) (frames : List Frame) : Prop where
  known : ∀ frame ∈ frames, frame.node.toNat < p.size
  bottom : ∀ frame, frames.head? = some frame → p.IsLaneRoot frame.node

namespace Program.Framed

variable {p : Program} {frames frames' : List Frame}

/-- How far the nodes got does not matter. -/
theorem of_nodes (framed : p.Framed frames) (h : frames'.map (·.node) = frames.map (·.node)) : p.Framed frames' := by
  constructor
  · intro frame hmem
    have hnode : frame.node ∈ frames.map (·.node) := h ▸ List.mem_map_of_mem hmem
    obtain ⟨old, hold, hsame⟩ := List.mem_map.mp hnode
    exact hsame ▸ framed.known old hold
  · intro frame hhead
    have hnode : (frames.map (·.node)).head? = some frame.node := by
      rw [← h, List.head?_map, hhead]
      rfl
    rw [List.head?_map] at hnode
    obtain ⟨old, hold, hsame⟩ := Option.map_eq_some_iff.mp hnode
    exact hsame ▸ framed.bottom old hold

theorem dropLast (framed : p.Framed frames) : p.Framed frames.dropLast := by
  refine ⟨fun frame hmem => framed.known frame (List.mem_of_mem_dropLast hmem), ?_⟩
  intro frame hhead
  refine framed.bottom frame ?_
  cases frames with
  | nil => exact hhead
  | cons first rest =>
    cases rest with
    | nil => simp at hhead
    | cons second rest => exact hhead

theorem append (framed : p.Framed frames) (hne : frames ≠ []) {frame : Frame} (h : frame.node.toNat < p.size) :
    p.Framed (frames ++ [frame]) := by
  constructor
  · intro other hmem
    obtain hold | hnew := List.mem_append.mp hmem
    · exact framed.known other hold
    · rw [List.mem_singleton.mp hnew]
      exact h
  · intro other hhead
    rw [List.head?_append_of_ne_nil _ hne] at hhead
    exact framed.bottom other hhead

/-- A lane that begins at a root. -/
theorem start {root : NodeId} (h : p.IsLaneRoot root) : p.Framed [.start root] := by
  constructor
  · intro frame hmem
    obtain ⟨node, hnode, _⟩ := h
    obtain ⟨entry, hentry, _⟩ := Option.map_eq_some_iff.mp hnode
    rw [List.mem_singleton.mp hmem]
    exact (Array.getElem?_eq_some_iff.mp hentry).1
  · intro frame hhead
    rw [← Option.some.inj hhead]
    exact h

end Program.Framed

theorem LaneView.setProgress_nodes (childIndex : UInt16) (v : LaneView) :
    (v.setProgress childIndex).frames.map (·.node) = v.frames.map (·.node) := by
  obtain ⟨id, owner, waitStart, frames⟩ := v
  cases frames using List.reverseRecOn with
  | nil => rfl
  | append_singleton rest last => simp [setProgress]

/-- The lanes and the memory of a tick are sound, and the lane that has its turn has at least `depth`
frames. It may take `ids` more ids and `blocks` more blocks before it is rightly refused. -/
structure Tick.Sound {σ : Type} (p : Program) (refused : Fault → Prop) (index depth ids blocks : Nat)
    (t : Tick σ) : Prop where
  ordered : t.agent.lanes.Ordered
  suits : t.world.Suits p
  framed : ∀ (i : Nat) (v : LaneView), t.agent.lanes.view[i]? = some v → p.Framed v.frames
  occupied : ∀ (i : Nat) (v : LaneView), t.agent.lanes.view[i]? = some v → i ≠ index → v.frames ≠ []
  deep : ∃ v, t.agent.lanes.view[index]? = some v ∧ depth ≤ v.frames.length
  overflow : 0x100000000 ≤ t.agent.nextLane + ids → refused .overflow
  tooLarge : LaneStack.maxFrames < t.agent.lanes.arena.size + blocks * t.agent.lanes.block → refused .tooLarge

namespace Tick.Sound

variable {σ : Type} {p : Program} {refused : Fault → Prop} {index depth ids blocks : Nat} {t t' : Tick σ}

theorem index_lt (sound : t.Sound p refused index depth ids blocks) : index < t.agent.lanes.lanes.size := by
  obtain ⟨v, hv, _⟩ := sound.deep
  rw [← LaneStack.length_view]
  exact (List.getElem?_eq_some_iff.mp hv).1

/-- Only the lanes, the memory and the supply of ids matter. -/
theorem of_same (sound : t.Sound p refused index depth ids blocks) (hlanes : t'.agent.lanes = t.agent.lanes)
    (hids : t'.agent.nextLane = t.agent.nextLane) (hsuits : t'.world.Suits p) :
    t'.Sound p refused index depth ids blocks := by
  obtain ⟨⟨lanes, holder, nextLane⟩, world, cycle, notices⟩ := t'
  subst hlanes hids
  exact ⟨sound.ordered, hsuits, sound.framed, sound.occupied, sound.deep, sound.overflow, sound.tooLarge⟩

theorem mono (sound : t.Sound p refused index depth ids blocks) {depth' ids' blocks' : Nat} (hdepth : depth' ≤ depth)
    (hids : ids' ≤ ids) (hblocks : blocks' ≤ blocks) : t.Sound p refused index depth' ids' blocks' := by
  obtain ⟨v, hv, hdeep⟩ := sound.deep
  refine ⟨sound.ordered, sound.suits, sound.framed, sound.occupied, ⟨v, hv, Nat.le_trans hdepth hdeep⟩, ?_, ?_⟩
  · intro h
    exact sound.overflow (Nat.le_trans h (Nat.add_le_add_left hids _))
  · intro h
    have := Nat.mul_le_mul_right t.agent.lanes.block hblocks
    exact sound.tooLarge (by omega)

/-- What one lane does with its own frames leaves the others sound. -/
theorem modify (sound : t.Sound p refused index depth ids blocks) {lanes : LaneStack} {g : LaneView → LaneView}
    {depth' blocks' : Nat} (ord : lanes.Ordered) (hview : lanes.view = t.agent.lanes.view.modify index g)
    (hg : ∀ v, p.Framed v.frames → depth ≤ v.frames.length → p.Framed (g v).frames ∧ depth' ≤ (g v).frames.length)
    (hroom : lanes.arena.size + blocks' * lanes.block ≤
      t.agent.lanes.arena.size + blocks * t.agent.lanes.block)
    (holder : Option QueryRequest) (cycle : Nat) (notices : Array Notice) :
    Tick.Sound p refused index depth' ids blocks' ⟨⟨lanes, holder, t.agent.nextLane⟩, t.world, cycle, notices⟩ := by
  obtain ⟨top, htop, hdeep⟩ := sound.deep
  have hself := hg top (sound.framed _ _ htop) hdeep
  have hget (i : Nat) : lanes.view[i]? = (if index = i then g else id) <$> t.agent.lanes.view[i]? := by
    rw [hview, List.getElem?_modify]
    split_ifs <;> rfl
  refine ⟨ord, sound.suits, ?_, ?_, ?_, sound.overflow, fun h => sound.tooLarge (Nat.lt_of_lt_of_le h hroom)⟩
  · intro i v hv
    rw [hget] at hv
    obtain ⟨old, hold, rfl⟩ := Option.map_eq_some_iff.mp hv
    split_ifs with hi
    · subst hi
      obtain rfl := Option.some.inj (htop.symm.trans hold)
      exact hself.1
    · exact sound.framed i old hold
  · intro i v hv hi
    rw [hget, if_neg (Ne.symm hi)] at hv
    exact sound.occupied i v (by simpa using hv) hi
  · exact ⟨g top, by rw [hget, if_pos rfl, htop]; rfl, hself.2⟩

end Tick.Sound

/-- What comes of a field that is wider than a scalar. There is not even a place for more than eight bytes. -/
def FieldWrite.refusal (field : FieldWrite) : Fault :=
  if field.length.toNat ≤ 8 then .scalarTooLong field.length.toNat else .outOfRange

/-- The first field of a node that is wider than a scalar. -/
def Node.wideField? : Node → Option FieldWrite
  | .writeField _ fields => fields.find? (4 < ·.length.toNat)
  | _ => none

namespace Act

variable {σ : Type} {p : Program} {refused : Fault → Prop} {index depth ids blocks : Nat} {t : Tick σ}

/-! ### Lanes -/

theorem lane_apply (index : Nat) (t : Tick σ) : lane index t = (t.agent.lanes.lane index).map (·, t) := by
  show (t.agent.lanes.lane index >>= fun l => Except.ok (l, t)) = _
  cases t.agent.lanes.lane index <;> rfl

theorem top?_apply (index : Nat) (t : Tick σ) : top? index t = (t.agent.lanes.top? index).map (·, t) := by
  show (t.agent.lanes.top? index >>= fun l => Except.ok (l, t)) = _
  cases t.agent.lanes.top? index <;> rfl

theorem lane_eq (h : index < t.agent.lanes.lanes.size) :
    lane index t = .ok (t.agent.lanes.lanes[index], t) := by
  rw [lane_apply, LaneStack.lane_of_getElem? (Array.getElem?_eq_getElem h)]
  rfl

theorem setChildIndex_ensures (sound : t.Sound p refused index depth ids blocks) (childIndex : UInt16) :
    (setChildIndex index childIndex).Ensures t refused fun _ t' => t'.Sound p refused index depth ids blocks := by
  obtain ⟨b, lanes, hset, ord, hview, harena, hblock⟩ :=
    LaneStack.setChildIndex_eq sound.ordered sound.index_lt childIndex
  refine .onLanes (a := ()) (by rw [hset]; rfl) fun notices => sound.modify ord hview ?_ ?_ _ _ _
  · intro v framed hdeep
    have hnodes := v.setProgress_nodes childIndex
    have hlength := congrArg List.length hnodes
    simp only [List.length_map] at hlength
    exact ⟨framed.of_nodes hnodes, hlength ▸ hdeep⟩
  · rw [harena, hblock]

theorem setWaitStart_ensures (sound : t.Sound p refused index depth ids blocks) (time : UInt64) :
    (onLanes index fun s => (s.setWaitStart index time).map ((), ·)).Ensures t refused fun _ t' =>
      t'.Sound p refused index depth ids blocks := by
  obtain ⟨lanes, hset, ord, hview, harena, hblock⟩ := LaneStack.setWaitStart_eq sound.ordered sound.index_lt time
  refine .onLanes (a := ()) (by rw [hset]; rfl) fun notices => sound.modify ord hview ?_ ?_ _ _ _
  · intro v framed hdeep
    exact ⟨framed, hdeep⟩
  · rw [harena, hblock]

theorem pop_ensures (sound : t.Sound p refused index (depth + 1) ids blocks) :
    (pop index).Ensures t refused fun _ t' => t'.Sound p refused index depth ids blocks := by
  obtain ⟨top, lanes, hpop, ord, hview, harena, hblock⟩ := LaneStack.pop_eq sound.ordered sound.index_lt
  refine .onLanes (a := ()) (by rw [hpop]; rfl) fun notices => sound.modify ord hview ?_ ?_ _ _ _
  · intro v framed hdeep
    refine ⟨framed.dropLast, ?_⟩
    rw [LaneView.pop, List.length_dropLast]
    omega
  · rw [harena, hblock]

theorem push_ensures (sound : t.Sound p refused index (depth + 1) ids (blocks + 1)) {child : NodeId}
    (hchild : child.toNat < p.size) :
    (push index (.start child)).Ensures t refused fun _ t' => t'.Sound p refused index (depth + 2) ids blocks := by
  obtain ⟨herror, hfull⟩ | ⟨lanes, hpush, ord, hview, hblock, harena⟩ :=
    LaneStack.push_eq sound.ordered sound.index_lt (.start child)
  · refine .onLanes_error (by rw [herror]; rfl) (sound.tooLarge ?_)
    have := Nat.zero_le (blocks * t.agent.lanes.block)
    rw [Nat.add_one_mul]
    omega
  · refine .onLanes (a := ()) (by rw [hpush]; rfl) fun notices => sound.modify ord hview ?_ ?_ _ _ _
    · intro v framed hdeep
      have hne : v.frames ≠ [] := List.ne_nil_of_length_pos (by omega)
      refine ⟨framed.append hne hchild, ?_⟩
      rw [LaneView.push, List.length_append, List.length_singleton]
      omega
    · rw [hblock, Nat.add_one_mul]
      omega

/-! ### Reports -/

theorem node_eq {id : NodeId} {node : Node} (h : p.node? id = some node) :
    Act.node p id t = .ok (node, t) := by
  rw [Act.node, h]
  rfl

theorem notice_ensures (sound : t.Sound p refused index depth ids blocks) (n : Notice) :
    (notice n).Ensures t refused fun _ t' => t'.Sound p refused index depth ids blocks :=
  .of_eq rfl (sound.of_same rfl rfl sound.suits)

theorem emitFor_eq {id : NodeId} (h : id.toNat < p.size) (event : EventKind) (laneId : LaneId) (frames : Nat) :
    ∃ notices, emitFor p id event laneId frames t = .ok ((), { t with notices := notices }) := by
  obtain ⟨node, hnode⟩ := Program.node?_of_lt h
  refine ⟨t.notices.push (.traced ⟨id, node.kind, event, laneId, frames, t.cycle⟩), ?_⟩
  show (Act.node p id t >>= _) = _
  rw [node_eq hnode]
  rfl

theorem emit_eq {id : NodeId} (hid : id.toNat < p.size) (h : index < t.agent.lanes.lanes.size) (event : EventKind) :
    ∃ notices, emit p index id event t = .ok ((), { t with notices := notices }) := by
  obtain ⟨notices, hemit⟩ := emitFor_eq hid event t.agent.lanes.lanes[index].id t.agent.lanes.lanes[index].count
  refine ⟨notices, ?_⟩
  show (lane index t >>= _) = _
  rw [lane_eq h]
  exact hemit

theorem emitFor_ensures (sound : t.Sound p refused index depth ids blocks) {id : NodeId} (h : id.toNat < p.size)
    (event : EventKind) (laneId : LaneId) (frames : Nat) :
    (emitFor p id event laneId frames).Ensures t refused fun _ t' =>
      t'.Sound p refused index depth ids blocks := by
  obtain ⟨notices, hemit⟩ := emitFor_eq h event laneId frames
  exact .of_eq hemit (sound.of_same rfl rfl sound.suits)

theorem emit_ensures (sound : t.Sound p refused index depth ids blocks) {id : NodeId} (h : id.toNat < p.size)
    (event : EventKind) :
    (emit p index id event).Ensures t refused fun _ t' => t'.Sound p refused index depth ids blocks := by
  obtain ⟨notices, hemit⟩ := emit_eq h sound.index_lt event
  exact .of_eq hemit (sound.of_same rfl rfl sound.suits)

theorem call_ensures (sound : t.Sound p refused index (depth + 1) ids (blocks + 1)) {caller child : NodeId}
    (hcaller : caller.toNat < p.size) (hchild : child.toNat < p.size) (progress : UInt16) :
    (call p index caller progress child).Ensures t refused fun _ t' =>
      t'.Sound p refused index (depth + 2) ids blocks := by
  refine .seq (setChildIndex_ensures sound progress) fun _ t sound => ?_
  refine .seq (emit_ensures sound hcaller .call) fun _ t sound => ?_
  exact push_ensures sound hchild

theorem finish_ensures (sound : t.Sound p refused index (depth + 1) ids blocks) {id : NodeId} (h : id.toNat < p.size) :
    (finish p index id).Ensures t refused fun _ t' => t'.Sound p refused index depth ids blocks :=
  .seq (emit_ensures sound h .return) fun _ _ sound => pop_ensures sound

/-! ### Values -/

theorem evaluateWith_eq {α : Type} {value : ValueRef} {read : Surroundings → ValueRef → Except Fault α} {a : α}
    (h : read (t.world.surroundings p) value = .ok a) :
    evaluateWith p value read t = .ok (a, { t with notices := t.notices.push (.evaluated value) }) := by
  show (read (t.world.surroundings p) value >>= fun a => Except.ok (a, _)) = _
  rw [h]
  rfl

theorem evaluateWith_ensures {α : Type} (sound : t.Sound p refused index depth ids blocks) {value : ValueRef}
    {read : Surroundings → ValueRef → Except Fault α} {a : α} (h : read (t.world.surroundings p) value = .ok a) :
    (evaluateWith p value read).Ensures t refused fun b t' =>
      b = a ∧ t'.Sound p refused index depth ids blocks :=
  .of_eq (evaluateWith_eq h) ⟨rfl, sound.of_same rfl rfl sound.suits⟩

theorem evaluateBool_ensures (valid : p.Valid) (sound : t.Sound p refused index depth ids blocks) {value : ValueRef}
    (href : p.RefValid p.expressions.operations.size value) (hsize : p.HasSize value ValueType.bool.size) :
    (evaluateBool p value).Ensures t refused fun _ t' => t'.Sound p refused index depth ids blocks := by
  obtain ⟨b, hb⟩ := Surroundings.evaluateBool_ok valid sound.suits href hsize
  exact (evaluateWith_ensures sound hb).mono fun _ _ h => h.2

theorem choose_ensures (valid : p.Valid) (sound : t.Sound p refused index depth ids blocks) {branches : List Branch}
    (hrefs : ∀ b ∈ branches, p.RefValid p.expressions.operations.size b.guard ∧
      p.HasSize b.guard ValueType.bool.size ∧ b.child.toNat < p.size)
    (progress : Nat) (hcount : progress + branches.length < 0x10000) :
    (choose p branches progress).Ensures t refused fun choice t' =>
      t'.Sound p refused index depth ids blocks ∧ ∀ c, choice = some c → c.2.toNat < p.size := by
  induction branches generalizing progress t with
  | nil => exact .pure ⟨sound, fun c hc => nomatch hc⟩
  | cons branch rest ih =>
    obtain ⟨href, hsize, hchild⟩ := hrefs branch (by simp)
    rw [List.length_cons] at hcount
    refine .seq (evaluateBool_ensures valid sound href hsize) fun holds t sound => ?_
    cases holds with
    | true =>
      have hfits : progress % 0x10000 + 1 < 0x10000 := by omega
      rw [if_pos rfl, if_pos hfits]
      refine .pure ⟨sound, ?_⟩
      rintro c ⟨⟩
      exact hchild
    | false => exact ih sound (fun b hb => hrefs b (by simp [hb])) (progress + 1) (by omega)

/-! ### Memory -/

theorem onWorld_eq {f : World σ → Except Fault (World σ)} {world : World σ} (h : f t.world = .ok world) :
    onWorld f t = .ok ((), { t with world := world }) := by
  show ((f t.world >>= fun world => Except.ok (world, t)) >>= fun r => Except.ok ((), { r.2 with world := r.1 })) = _
  rw [h]
  rfl

theorem onWorld_ensures {f : World σ → Except Fault (World σ)} (h : ∃ world, f t.world = .ok world ∧ world.Suits p) :
    (onWorld f).Ensures t refused fun _ t' => t'.agent = t.agent ∧ t'.world.Suits p := by
  obtain ⟨world, hworld, suits⟩ := h
  exact .of_eq (onWorld_eq hworld) ⟨rfl, suits⟩

/-- An act on memory keeps the lanes sound. -/
theorem Ensures.sound {act : Act σ Unit}
    (h : act.Ensures t refused fun _ t' => t'.agent = t.agent ∧ t'.world.Suits p)
    (sound : t.Sound p refused index depth ids blocks) :
    act.Ensures t refused fun _ t' => t'.Sound p refused index depth ids blocks :=
  h.mono fun _ _ h => sound.of_same (by rw [h.1]) (by rw [h.1]) h.2

theorem suits_of_overwrite {world : World σ} (suits : world.Suits p) {offset : Nat} {bytes : Bytes}
    (h : offset + bytes.length ≤ p.blackboardSize.toNat) :
    ∃ board, world.blackboard.overwrite offset bytes = .ok board ∧ { world with blackboard := board }.Suits p := by
  obtain ⟨board, hboard, hsize⟩ := Memory.overwrite_of_le (Nat.le_trans h suits.blackboard)
  refine ⟨board, hboard, suits.components, suits.lookups, ?_⟩
  show _ ≤ board.size
  rw [hsize]
  exact suits.blackboard

theorem suits_of_setStore {world : World σ} (suits : world.Suits p) {i : Nat} {store : Storage}
    (h : world.components[i]? = some store) (data : Memory) (hsize : data.size = store.data.size) :
    { world with components := world.components.setIfInBounds i { store with data := data } }.Suits p := by
  refine ⟨?_, suits.lookups, suits.blackboard⟩
  intro j type htype
  obtain ⟨old, hold, hroom⟩ := suits.components j type htype
  rw [Array.getElem?_setIfInBounds]
  split_ifs with hij hbound
  · subst hij
    obtain rfl := Option.some.inj (h.symm.trans hold)
    exact ⟨_, rfl, hsize ▸ hroom⟩
  · exact absurd (hij ▸ (Array.getElem?_eq_some_iff.mp h).1) hbound
  · exact ⟨old, hold, hroom⟩

/-- What a write of one field needs of the program. -/
structure FieldWritable (p : Program) (component : UInt16) (field : FieldWrite) : Prop where
  place : ∃ type, p.types[component.toNat]? = some type ∧
    Program.FieldValid type field.offset field.length.toNat
  value : p.RefValid p.expressions.operations.size field.value
  size : p.HasSize field.value field.length.toNat

theorem fieldWritable_of_valid {component : UInt16} {fields : List FieldWrite}
    (valid : p.NodeValid (.writeField component fields)) : ∀ field ∈ fields, FieldWritable p component field := by
  intro field hmem
  obtain ⟨type, htype, hfields⟩ := valid.payload
  exact ⟨⟨type, htype, (hfields field hmem).1⟩, valid.values _ (List.mem_map_of_mem hmem), (hfields field hmem).2⟩

theorem writeField_ensures (valid : p.Valid) (suits : t.world.Suits p) {component : UInt16} {field : FieldWrite}
    (writable : FieldWritable p component field) (hshort : field.length.toNat ≤ 4) :
    (writeField p component field).Ensures t refused fun _ t' => t'.agent = t.agent ∧ t'.world.Suits p := by
  obtain ⟨bytes, hbytes, hlength⟩ := Surroundings.evaluate_ok valid suits writable.value writable.size hshort
  obtain ⟨type, htype, hfield⟩ := writable.place
  obtain ⟨store, hstore, hroom⟩ := suits.components _ _ htype
  have hfits : field.offset.toNat + bytes.length ≤ store.data.size := by
    rw [hlength]
    exact Nat.le_trans hfield hroom
  obtain ⟨data, hdata, hdataSize⟩ := Memory.overwrite_of_le hfits
  unfold writeField
  rw [if_pos (by omega)]
  refine .bind_of_eq (evaluateWith_eq hbytes) (onWorld_ensures ⟨_, ?_, suits_of_setStore suits hstore data hdataSize⟩)
  simp only [hstore, hdata]
  rfl

theorem writeField_wide {component : UInt16} {field : FieldWrite} (writable : FieldWritable p component field)
    (hwide : 4 < field.length.toNat) : writeField p component field t = .error field.refusal := by
  unfold writeField FieldWrite.refusal
  split_ifs with h
  · show ((t.world.surroundings p).evaluate field.value field.length.toNat >>= _) >>= _ = _
    rw [Surroundings.evaluate_wide t.world writable.value writable.size hwide]
    rfl
  · rfl

/-- Fields are stored one after the other, up to the first that is wider than a scalar. -/
theorem writeFields_eq (valid : p.Valid) {t : Tick σ} (suits : t.world.Suits p) {component : UInt16}
    {fields : List FieldWrite} (writable : ∀ field ∈ fields, FieldWritable p component field) :
    match fields.find? (4 < ·.length.toNat) with
    | none => ∃ t', fields.forM (writeField p component) t = .ok ((), t') ∧ t'.agent = t.agent ∧ t'.world.Suits p
    | some field => fields.forM (writeField p component) t = .error field.refusal := by
  induction fields generalizing t with
  | nil => exact ⟨t, rfl, rfl, suits⟩
  | cons field rest ih =>
    rw [List.find?_cons]
    by_cases hwide : 4 < field.length.toNat
    · simp only [hwide, decide_true]
      rw [List.forM_eq_forM, List.forM_cons]
      show (writeField p component field t >>= _) = _
      rw [writeField_wide (writable field (by simp)) hwide]
      rfl
    · simp only [hwide, decide_false]
      obtain ⟨⟨⟩, t', hfirst, hagent, suits'⟩ :=
        (writeField_ensures valid suits (writable field (by simp)) (Nat.le_of_not_lt hwide)).ok
      have hrest := ih suits' fun other hother => writable other (by simp [hother])
      have hforM : (field :: rest).forM (writeField p component) t = rest.forM (writeField p component) t' := by
        rw [List.forM_eq_forM, List.forM_cons]
        show (writeField p component field t >>= _) = _
        rw [hfirst]
        rfl
      rw [hforM, ← hagent]
      exact hrest

theorem writeVar_ensures (valid : p.Valid) (sound : t.Sound p refused index depth ids blocks) {slot : VarSlot}
    {value : ValueRef} (hslot : p.VarValid slot) (href : p.RefValid p.expressions.operations.size value)
    (hsize : p.HasSize value slot.length) :
    (writeVar p slot value).Ensures t refused fun _ t' => t'.Sound p refused index depth ids blocks := by
  obtain ⟨bytes, hbytes, hlength⟩ :=
    Surroundings.evaluate_ok valid sound.suits href hsize (Surroundings.size_le_four slot.type)
  refine .seq (evaluateWith_ensures sound hbytes) ?_
  rintro bytes t ⟨rfl, sound⟩
  obtain ⟨board, hboard, suits⟩ := suits_of_overwrite sound.suits (by rw [hlength]; exact hslot)
  exact (onWorld_ensures ⟨_, by rw [hboard]; rfl, suits⟩).sound sound

theorem length_queryResult (type : ValueType) (count : UInt32) : (queryResult type count).bytes.length = type.size := by
  cases type <;> simp [queryResult, Constant.bytes, ValueType.size, Bytes.littleEndian]

theorem write_ensures (sound : t.Sound p refused index depth ids blocks) {slot : VarSlot} (hslot : p.VarValid slot)
    (count : UInt32) :
    (write slot (queryResult slot.type count)).Ensures t refused fun _ t' =>
      t'.Sound p refused index depth ids blocks := by
  have htype : (queryResult slot.type count).type = slot.type := by
    cases slot.type <;> rfl
  have hsuits : slot.Suits (queryResult slot.type count).type := .inr (by rw [htype]; rfl)
  have hlength : (queryResult slot.type count).bytes.length = slot.length := length_queryResult slot.type count
  obtain ⟨board, hboard, suits⟩ := suits_of_overwrite sound.suits (by rw [hlength]; exact hslot)
  exact (onWorld_ensures ⟨_, by rw [VarSlot.write, if_pos hsuits, hboard]; rfl, suits⟩).sound sound

end Act

end BehaviorTree
