import BehaviorTree.Proofs.Machine.Sound

/-! Steps of a sound tick. Whatever node is on top of a lane, the step leaves the tick sound; it is refused
only when ids or memory run out, or when the node stores a constant that is no scalar. -/

namespace BehaviorTree

open Refusal

/-- Every lane of an agent is sound and has a frame. -/
structure Agent.Steady (p : Program) (agent : Agent) : Prop where
  ordered : agent.lanes.Ordered
  framed : ∀ (i : Nat) (v : LaneView), agent.lanes.view[i]? = some v → p.Framed v.frames
  occupied : ∀ (i : Nat) (v : LaneView), agent.lanes.view[i]? = some v → v.frames ≠ []

/-- A steady agent in a world that suits the program. -/
structure Tick.Steady {σ : Type} (p : Program) (t : Tick σ) : Prop extends t.agent.Steady p where
  suits : t.world.Suits p

/-- The faults of an agent that has no more ids for lanes, or no more memory for frames. A step takes at
most one id and two blocks. -/
def Agent.Exhausted (agent : Agent) : Fault → Prop
  | .overflow => 0x100000000 ≤ agent.nextLane + 1
  | .tooLarge => LaneStack.maxFrames < agent.lanes.arena.size + 2 * agent.lanes.block
  | _ => False

/-- The lane that had its turn is still there unless it is suspended. -/
def Tick.Settled {σ : Type} (p : Program) (index : Nat) (outcome : Outcome) (t : Tick σ) : Prop :=
  t.Steady p ∧ (outcome = .suspend ∨ index < t.agent.lanes.lanes.size)

namespace Tick.Sound

variable {σ : Type} {p : Program} {refused : Fault → Prop} {index depth ids blocks : Nat} {t : Tick σ}

/-- The frame on top of the lane is the last one of its list. -/
theorem last_of_top (sound : t.Sound p refused index depth ids blocks) {top : Option Frame}
    (h : t.agent.lanes.top? index = .ok top) :
    ∃ v, t.agent.lanes.view[index]? = some v ∧ v.frames.getLast? = top := by
  obtain ⟨v, hv, _⟩ := sound.deep
  obtain ⟨lane, hlane, rfl⟩ := LaneStack.getElem?_view_eq_some_iff.mp hv
  rw [LaneStack.top?_eq sound.ordered hlane] at h
  exact ⟨_, hv, Except.ok.inj h⟩

/-- The lane has as many frames as are seen of it. -/
theorem deepen (sound : t.Sound p refused index depth ids blocks) {v : LaneView}
    (hv : t.agent.lanes.view[index]? = some v) {depth' : Nat} (h : depth' ≤ v.frames.length) :
    t.Sound p refused index depth' ids blocks :=
  ⟨sound.ordered, sound.suits, sound.framed, sound.occupied, ⟨v, hv, h⟩, sound.overflow, sound.tooLarge⟩

theorem of_top (sound : t.Sound p refused index depth ids blocks) {frame : Frame}
    (h : t.agent.lanes.top? index = .ok (some frame)) :
    t.Sound p refused index 1 ids blocks ∧ frame.node.toNat < p.size := by
  obtain ⟨v, hv, hlast⟩ := sound.last_of_top h
  have hmem := List.mem_of_getLast? hlast
  exact ⟨sound.deepen hv (List.length_pos_of_mem hmem), (sound.framed _ _ hv).known frame hmem⟩

/-- A node that is no root has the root of its lane below it. -/
theorem above_root (sound : t.Sound p refused index depth ids blocks) {frame : Frame}
    (h : t.agent.lanes.top? index = .ok (some frame)) (hroot : ¬ p.IsLaneRoot frame.node) :
    t.Sound p refused index 2 ids blocks := by
  obtain ⟨v, hv, hlast⟩ := sound.last_of_top h
  have framed := sound.framed _ _ hv
  refine sound.deepen hv ?_
  match hframes : v.frames with
  | [] => simp [hframes] at hlast
  | [only] =>
    rw [hframes] at hlast framed
    obtain rfl : only = frame := by simpa using hlast
    exact absurd (framed.bottom only rfl) hroot
  | first :: second :: rest => simp

theorem ne_nil (sound : t.Sound p refused index (depth + 1) ids blocks) {i : Nat} {v : LaneView}
    (hv : t.agent.lanes.view[i]? = some v) : v.frames ≠ [] := by
  by_cases hi : i = index
  · obtain ⟨top, htop, hdeep⟩ := sound.deep
    obtain rfl := Option.some.inj (htop.symm.trans (hi ▸ hv))
    exact List.ne_nil_of_length_pos (by omega)
  · exact sound.occupied i v hv hi

theorem steady (sound : t.Sound p refused index (depth + 1) ids blocks) : t.Steady p :=
  ⟨⟨sound.ordered, sound.framed, fun _ _ hv => sound.ne_nil hv⟩, sound.suits⟩

/-- Lanes above the one that has its turn may go. -/
theorem pruned (sound : t.Sound p refused index (depth + 1) ids blocks) {owned : Nat} {lanes : LaneStack}
    (pruned : LaneStack.Pruned owned t.agent.lanes lanes) (hlt : index < owned)
    (holder : Option QueryRequest) (cycle : Nat) (notices : Array Notice) :
    Tick.Sound p refused index (depth + 1) ids blocks
      ⟨⟨lanes, holder, t.agent.nextLane⟩, t.world, cycle, notices⟩ := by
  have hold (i : Nat) (v : LaneView) (hv : lanes.view[i]? = some v) :
      ∃ (j : Nat) (old : LaneView), t.agent.lanes.view[j]? = some old ∧ old.frames = v.frames := by
    obtain ⟨lane, hlane, rfl⟩ := LaneStack.getElem?_view_eq_some_iff.mp hv
    obtain ⟨j, old, hold, hsame⟩ := pruned.rest i lane hlane
    refine ⟨j, _, LaneStack.getElem?_view_eq_some_iff.mpr ⟨old, hold, rfl⟩, ?_⟩
    rw [hsame]
    simp only [LaneStack.viewOf, LaneStack.liveFrames, pruned.arena]
  obtain ⟨top, htop, hdeep⟩ := sound.deep
  refine ⟨pruned.ordered, sound.suits, ?_, ?_, ⟨top, ?_, hdeep⟩, sound.overflow, ?_⟩
  · intro i v hv
    obtain ⟨j, old, hj, hframes⟩ := hold i v hv
    exact hframes ▸ sound.framed j old hj
  · intro i v hv _
    obtain ⟨j, old, hj, hframes⟩ := hold i v hv
    exact hframes ▸ sound.ne_nil hj
  · rw [LaneStack.getElem?_view, pruned.below index hlt, ← htop, LaneStack.getElem?_view]
    congr 1
    funext lane
    simp only [LaneStack.viewOf, LaneStack.liveFrames, pruned.arena]
  · simp only [pruned.arena, pruned.block]
    exact sound.tooLarge

end Tick.Sound

namespace Act

variable {σ : Type} {p : Program} {refused : Fault → Prop} {index depth ids blocks : Nat} {t : Tick σ}

/-! ### Starting and removing lanes -/

theorem freshLane_of_lt (h : t.agent.nextLane + 1 < 0x100000000) :
    freshLane t = .ok (t.agent.nextLane, { t with agent := { t.agent with nextLane := t.agent.nextLane + 1 } }) := by
  simp only [freshLane, bind, StateT.bind, get, getThe, MonadStateOf.get, StateT.get, pure, Except.pure, Except.bind, h,
    if_true]
  rfl

theorem freshLane_of_le (h : 0x100000000 ≤ t.agent.nextLane + 1) : freshLane t = .error .overflow := by
  simp only [freshLane, bind, StateT.bind, get, getThe, MonadStateOf.get, StateT.get, pure, Except.pure, Except.bind,
    Nat.not_lt.mpr h, if_false]
  rfl

theorem freshLane_ensures (sound : t.Sound p refused index depth (ids + 1) blocks) :
    freshLane.Ensures t refused fun _ t' => t'.Sound p refused index depth ids blocks := by
  by_cases h : t.agent.nextLane + 1 < 0x100000000
  · refine .of_eq (freshLane_of_lt h)
      ⟨sound.ordered, sound.suits, sound.framed, sound.occupied, sound.deep, ?_, sound.tooLarge⟩
    intro hids
    exact sound.overflow (by rw [Nat.add_comm ids 1, ← Nat.add_assoc]; exact hids)
  · refine .of_error (freshLane_of_le (Nat.le_of_not_lt h)) (sound.overflow ?_)
    exact Nat.le_trans (Nat.le_of_not_lt h) (Nat.add_le_add_left (Nat.le_add_left 1 ids) _)

theorem spawn_ensures (sound : t.Sound p refused index depth ids (blocks + 1)) {place : Nat} {thread : NodeId}
    {id : LaneId} (hthread : p.IsLaneRoot thread) :
    (onLanes place fun s => s.spawn index thread id).Ensures t refused fun _ t' =>
      t'.Sound p refused index depth ids blocks := by
  obtain ⟨herror, hfull⟩ | ⟨lanes, hspawn, ord, hview, hblock, harena⟩ :=
    LaneStack.spawn_eq sound.ordered sound.index_lt thread id
  · refine .onLanes_error herror (sound.tooLarge ?_)
    rw [Nat.add_one_mul]
    omega
  · refine .onLanes hspawn fun notices => ?_
    have hget (i : Nat) (v : LaneView) (hv : lanes.view[i]? = some v) :
        t.agent.lanes.view[i]? = some v ∨ v.frames = [.start thread] := by
      rw [hview, List.getElem?_append] at hv
      split_ifs at hv
      · exact .inl hv
      · obtain ⟨hi, rfl⟩ := List.getElem?_eq_some_iff.mp hv
        simp
    obtain ⟨top, htop, hdeep⟩ := sound.deep
    refine ⟨ord, sound.suits, ?_, ?_, ⟨top, ?_, hdeep⟩, sound.overflow, ?_⟩
    · intro i v hv
      obtain hold | hnew := hget i v hv
      · exact sound.framed i v hold
      · rw [hnew]
        exact .start hthread
    · intro i v hv hi
      obtain hold | hnew := hget i v hv
      · exact sound.occupied i v hold hi
      · simp [hnew]
    · rw [hview, List.getElem?_append_left (List.getElem?_eq_some_iff.mp htop).1, htop]
    · intro h
      refine sound.tooLarge ?_
      simp only [hblock] at h
      rw [Nat.add_one_mul]
      omega

/-- The primary lane alone, at the root of the program. -/
theorem createPrimary_ensures (valid : p.Valid) {t : Tick σ} (hlanes : t.agent.lanes.lanes = #[])
    (hsuits : t.world.Suits p) (hids : 0x100000000 ≤ t.agent.nextLane + 1 → refused .overflow)
    (hblocks : LaneStack.maxFrames < t.agent.lanes.arena.size + t.agent.lanes.block → refused .tooLarge) :
    createPrimary.Ensures t refused fun _ t' => t'.Steady p ∧ t'.agent.lanes.lanes.size = 1 := by
  by_cases h : t.agent.nextLane + 1 < 0x100000000
  · refine .bind_of_eq (freshLane_of_lt h) ?_
    obtain ⟨herror, hfull⟩ | ⟨lanes, hcreate, ord, hview, -⟩ :=
      LaneStack.createPrimary_eq hlanes .root t.agent.nextLane
    · exact .onLanes_error (by simp only [herror]; rfl) (hblocks hfull)
    · refine .onLanes (a := ()) (by simp only [hcreate]; rfl) fun notices => ⟨⟨⟨ord, ?_, ?_⟩, hsuits⟩, ?_⟩
      · intro i v hv
        rw [hview] at hv
        obtain ⟨hi, rfl⟩ := List.getElem?_eq_some_iff.mp hv
        obtain ⟨child, hroot⟩ := valid.root
        simpa using Program.Framed.start ⟨_, hroot, .inl rfl⟩
      · intro i v hv
        rw [hview] at hv
        obtain ⟨hi, rfl⟩ := List.getElem?_eq_some_iff.mp hv
        simp
      · rw [← LaneStack.length_view, hview]
        rfl
  · refine .bind (.of_error (freshLane_of_le (Nat.le_of_not_lt h)) (hids (Nat.le_of_not_lt h)))

/-! ### Nodes without queries -/

theorem setHolder_ensures (sound : t.Sound p refused index depth ids blocks) (holder : Option QueryRequest) :
    (setHolder holder).Ensures t refused fun _ t' => t'.Sound p refused index depth ids blocks :=
  .of_eq rfl (sound.of_same rfl rfl sound.suits)

theorem waitOver_ensures (valid : p.Valid) (sound : t.Sound p refused index depth ids blocks) {goal : WaitGoal}
    (hgoal : p.NodeValid (.wait goal)) :
    (waitOver p index goal).Ensures t refused fun _ t' => t'.Sound p refused index depth ids blocks := by
  cases goal with
  | condition holds =>
    exact evaluateBool_ensures valid sound (hgoal.values holds (by simp [Node.values])) hgoal.payload
  | duration seconds =>
    obtain ⟨bits, hbits⟩ := Surroundings.evaluateFloat_ok valid sound.suits
      (hgoal.values seconds (by simp [Node.values])) hgoal.payload
    refine .seq (evaluateWith_ensures sound hbits) fun _ t h => ?_
    exact .bind_of_eq (lane_eq h.2.index_lt) (.bind_of_eq rfl (.pure h.2))

theorem wait_ensures (valid : p.Valid) (sound : t.Sound p refused index 2 ids blocks) {frame : Frame}
    (h : frame.node.toNat < p.size) {goal : WaitGoal} (hgoal : p.NodeValid (.wait goal)) :
    (wait p index frame goal).Ensures t refused fun outcome t' => t'.Settled p index outcome := by
  have hrest {t : Tick σ} (sound : t.Sound p refused index 2 ids blocks) :
      (do
        if ← waitOver p index goal then
          finish p index frame.node
          return .goOn
        else
          emit p index frame.node .wait
          return .suspend : Act σ Outcome).Ensures t refused fun outcome t' => t'.Settled p index outcome := by
    refine .seq (waitOver_ensures valid sound hgoal) fun passed t sound => ?_
    cases passed with
    | true => exact .seq (finish_ensures sound h) fun _ t sound => .pure ⟨sound.steady, .inr sound.index_lt⟩
    | false => exact .seq (emit_ensures sound h .wait) fun _ t sound => .pure ⟨sound.steady, .inl rfl⟩
  unfold wait
  split_ifs with hfirst
  · refine .seq (setChildIndex_ensures sound 1) fun _ t sound => .bind_of_eq rfl ?_
    exact .seq (setWaitStart_ensures sound _) fun _ t sound => hrest sound
  · exact hrest sound

theorem single_ensures (sound : t.Sound p refused index 2 ids (blocks + 1)) {frame : Frame}
    (h : frame.node.toNat < p.size) {child : NodeId} (hchild : child.toNat < p.size) :
    (single p index frame child).Ensures t refused fun _ t' => t'.Sound p refused index 1 ids blocks := by
  unfold single
  split_ifs
  · exact (call_ensures sound h hchild 1).mono fun _ t sound => sound.mono (by omega) (Nat.le_refl _) (Nat.le_refl _)
  · exact (finish_ensures sound h).mono fun _ t sound => sound.mono (Nat.le_refl _) (Nat.le_refl _) (by omega)

theorem laneRoot_ensures (sound : t.Sound p refused index 1 ids (blocks + 1)) {frame : Frame}
    (h : frame.node.toNat < p.size) {child : NodeId} (hchild : child.toNat < p.size) (once rootVisited : Bool) :
    (laneRoot p index frame child once rootVisited).Ensures t refused fun outcome t' =>
      t'.Settled p index outcome := by
  unfold laneRoot
  split_ifs
  · exact .seq (emit_ensures sound h .yield) fun _ t sound => .pure ⟨sound.steady, .inl rfl⟩
  · exact .seq (call_ensures sound h hchild 1) fun _ t sound => .pure ⟨sound.steady, .inr sound.index_lt⟩

theorem andGoOn_ensures {act : Act σ Unit}
    (h : act.Ensures t refused fun _ t' => t'.Sound p refused index (depth + 1) ids blocks) :
    (andGoOn act).Ensures t refused fun outcome t' => t'.Settled p index outcome :=
  .seq h fun _ _ sound => .pure ⟨sound.steady, .inr sound.index_lt⟩

section Queries

variable [QuerySystem σ]

theorem abort_ensures (sound : t.Sound p refused index (depth + 1) ids blocks) {id : NodeId} (h : id.toNat < p.size)
    {owned : Nat} (hlt : index < owned) (hbound : owned < t.agent.lanes.lanes.size) :
    (abort p index id owned).Ensures t refused fun _ t' => t'.Sound p refused index (depth + 1) ids blocks := by
  obtain ⟨removed, lanes, habort, pruned⟩ := LaneStack.abort_eq sound.ordered (by omega) hbound
  refine .bind_of_eq (lane_eq sound.index_lt) (.bind ?_)
  refine .onLanes habort fun notices => .forM (sound.pruned pruned hlt _ _ notices) fun lane _ t sound => ?_
  refine .bind_of_eq rfl ?_
  cases t.agent.holder with
  | none => exact emitFor_ensures sound h .abort _ _
  | some request =>
    by_cases hlane : request.lane = lane.id
    · simp only [hlane, if_true]
      refine .bind_of_eq rfl (.bind_of_eq (onWorld_eq rfl) (emitFor_ensures ?_ h .abort _ _))
      exact sound.of_same rfl rfl ⟨sound.suits.components, sound.suits.lookups, sound.suits.blackboard⟩
    · simp only [hlane, if_false]
      exact emitFor_ensures sound h .abort _ _

theorem abortThread_ensures (sound : t.Sound p refused index (depth + 1) ids blocks) {id : NodeId}
    (h : id.toNat < p.size) (thread : NodeId) :
    (abortThread p index id thread).Ensures t refused fun _ t' =>
      t'.Sound p refused index (depth + 1) ids blocks := by
  refine .bind_of_eq rfl ?_
  cases hfind : t.agent.lanes.findOwned? index thread with
  | none => exact .pure sound
  | some owned =>
    obtain ⟨hlt, hbound⟩ := LaneStack.findOwned?_eq_some sound.ordered hfind
    exact abort_ensures sound h hlt hbound

/-! ### Failure -/

/-- Starting over leaves the primary lane alone. -/
theorem restart_ensures (valid : p.Valid) (sound : t.Sound p refused index depth 1 (blocks + 1)) :
    (restart index).Ensures t refused fun outcome t' => t'.Settled p index outcome := by
  have hstart {t' : Tick σ} (hagent : t'.agent.nextLane = t.agent.nextLane) (hlanes : t'.agent.lanes = t.agent.lanes)
      (hsuits : t'.world.Suits p) :
      (do
        onLanes index fun s => .ok ((), s.reset)
        createPrimary
        return if index = 0 then .goOn else .suspend : Act σ Outcome).Ensures t' refused fun outcome t' =>
          t'.Settled p index outcome := by
    refine .bind (.onLanes rfl fun notices => ?_)
    refine .seq (createPrimary_ensures valid rfl hsuits ?_ ?_) fun _ t h => .pure ⟨h.1, ?_⟩
    · rw [hagent]
      exact sound.overflow
    · rw [hlanes]
      intro hfull
      refine sound.tooLarge ?_
      rw [Nat.add_one_mul]
      simp only [LaneStack.reset] at hfull
      omega
    · by_cases hindex : index = 0
      · exact .inr (by rw [h.2, hindex]; decide)
      · exact .inl (by rw [if_neg hindex])
  refine .bind_of_eq (lane_eq sound.index_lt) (.bind_of_eq rfl (.bind_of_eq rfl ?_))
  simp only
  cases t.agent.holder with
  | none => exact hstart rfl rfl sound.suits
  | some request =>
    refine .bind_of_eq rfl (.bind_of_eq (onWorld_eq rfl) (hstart rfl rfl ?_))
    exact ⟨sound.suits.components, sound.suits.lookups, sound.suits.blackboard⟩

/-- Unwinding ends right above a frame, or with no frame left. -/
theorem unwind_ensures (sound : t.Sound p refused index 0 ids blocks) (fuel : Nat) :
    (unwind p index fuel).Ensures t refused fun caught t' =>
      t'.Sound p refused index (if caught then 1 else 0) ids blocks := by
  induction fuel generalizing t with
  | zero => exact .pure sound
  | succ fuel ih =>
    unfold unwind
    obtain ⟨v, hv, _⟩ := sound.deep
    obtain ⟨lane, hlane, rfl⟩ := LaneStack.getElem?_view_eq_some_iff.mp hv
    have htop := LaneStack.top?_eq sound.ordered hlane
    refine .bind_of_eq (by rw [top?_apply, htop]; rfl) ?_
    cases hlast : (t.agent.lanes.liveFrames lane).getLast? with
    | none => exact .pure sound
    | some frame =>
      rw [hlast] at htop
      obtain ⟨sound, hknown⟩ := sound.of_top htop
      obtain ⟨node, hnode⟩ := Program.node?_of_lt hknown
      have hskip : (do pop index; unwind p index fuel : Act σ Bool).Ensures t refused fun caught t' =>
          t'.Sound p refused index (if caught then 1 else 0) ids blocks :=
        .seq (pop_ensures sound) fun _ t sound => ih sound
      refine .bind_of_eq (node_eq hnode) ?_
      split
      next child hchild =>
        have hroot : ¬ p.IsLaneRoot frame.node := by
          rintro ⟨other, hother, hkind⟩
          obtain rfl := Option.some.inj (hnode.symm.trans hother)
          simp [Node.kind] at hkind
        refine .seq (emit_ensures (sound.above_root htop hroot) hknown .catch) fun _ t sound => ?_
        exact .seq (pop_ensures sound) fun _ t sound => .pure sound
      next main thread hthread =>
        exact .seq (abortThread_ensures sound hknown thread) fun _ t sound =>
          .seq (pop_ensures sound) fun _ t sound => ih sound
      next => exact hskip

theorem fail_ensures (valid : p.Valid) (sound : t.Sound p refused index 1 1 (blocks + 1)) {id : NodeId}
    (h : id.toNat < p.size) :
    (fail p index id).Ensures t refused fun outcome t' => t'.Settled p index outcome := by
  refine .seq (emit_ensures sound h .fail) fun _ t sound => .seq (pop_ensures sound) fun _ t sound => ?_
  refine .bind_of_eq (lane_eq sound.index_lt) (.seq (unwind_ensures sound _) fun caught t sound => ?_)
  cases caught with
  | true => exact .pure ⟨sound.steady, .inr sound.index_lt⟩
  | false => exact restart_ensures valid sound

/-! ### Nodes -/

theorem poll_ensures (sound : t.Sound p refused index depth ids blocks) (request : QueryRequest) :
    (poll request).Ensures t refused fun _ t' => t'.Sound p refused index depth ids blocks :=
  .of_eq rfl (sound.of_same rfl rfl ⟨sound.suits.components, sound.suits.lookups, sound.suits.blackboard⟩)

theorem submit_ensures (sound : t.Sound p refused index depth ids blocks) (request : QueryRequest) :
    (submit request).Ensures t refused fun _ t' => t'.Sound p refused index depth ids blocks :=
  .seq (notice_ensures sound _) fun _ _ sound =>
    .of_eq (onWorld_eq rfl) (sound.of_same rfl rfl
      ⟨sound.suits.components, sound.suits.lookups, sound.suits.blackboard⟩)

theorem polls_ensures (sound : t.Sound p refused index 2 ids blocks) {frame : Frame} (h : frame.node.toNat < p.size)
    {result : VarSlot} (hresult : p.VarValid result) (request : QueryRequest) :
    (do
      match ← poll request with
      | .complete count =>
        write result (queryResult result.type count)
        setHolder none
        finish p index frame.node
        return .goOn
      | .pending =>
        emit p index frame.node .wait
        return .suspend : Act σ Outcome).Ensures t refused fun outcome t' => t'.Settled p index outcome := by
  refine .seq (poll_ensures sound request) fun status t sound => ?_
  cases status with
  | pending =>
    exact .seq (emit_ensures sound h .wait) fun _ t sound => .pure ⟨sound.steady, .inl rfl⟩
  | complete count =>
    refine .seq (write_ensures sound hresult count) fun _ t sound => ?_
    refine .seq (setHolder_ensures sound none) fun _ t sound => ?_
    exact .seq (finish_ensures sound h) fun _ t sound => .pure ⟨sound.steady, .inr sound.index_lt⟩

theorem query_ensures (sound : t.Sound p refused index 2 ids blocks) {frame : Frame}
    (h : frame.node.toNat < p.size) {result : VarSlot} (hresult : p.VarValid result) (id : UInt16) :
    (query p index frame id result).Ensures t refused fun outcome t' => t'.Settled p index outcome := by
  refine .bind_of_eq (lane_eq sound.index_lt) (.bind_of_eq rfl ?_)
  dsimp only
  split_ifs with hbusy hfree
  · exact .seq (emit_ensures sound h .wait) fun _ t sound => .pure ⟨sound.steady, .inl rfl⟩
  · refine .seq (setHolder_ensures sound _) fun _ t sound => ?_
    refine .seq (setChildIndex_ensures sound 1) fun _ t sound => ?_
    exact .seq (submit_ensures sound _) fun _ t sound => polls_ensures sound h hresult _
  · exact polls_ensures sound h hresult _

theorem parallel_ensures (sound : t.Sound p refused index 2 (ids + 1) (blocks + 2)) {frame : Frame}
    (h : frame.node.toNat < p.size) {main thread : NodeId} (hmain : main.toNat < p.size)
    (hthread : p.IsLaneRoot thread) :
    (parallel p index frame main thread).Ensures t refused fun _ t' => t'.Sound p refused index 1 ids blocks := by
  unfold parallel
  split_ifs
  · refine .seq (setChildIndex_ensures sound 1) fun _ t sound => ?_
    refine .seq (freshLane_ensures sound) fun id t sound => .bind_of_eq rfl ?_
    refine .seq (spawn_ensures sound hthread) fun place t sound => ?_
    refine .seq (notice_ensures sound _) fun _ t sound => ?_
    refine .bind_of_eq (lane_eq sound.index_lt) ?_
    refine .seq (emitFor_ensures sound h .spawn _ _) fun _ t sound => ?_
    exact (call_ensures sound h hmain 1).mono fun _ t sound => sound.mono (by omega) (Nat.le_refl _) (Nat.le_refl _)
  · refine .seq (abortThread_ensures sound h thread) fun _ t sound => ?_
    exact (finish_ensures sound h).mono fun _ t sound => sound.mono (Nat.le_refl _) (by omega) (by omega)

/-- A node that stores no wide field. Only a root may be alone in its lane. -/
theorem stepNode_ensures (valid : p.Valid) (sound : t.Sound p refused index 1 1 2) {frame : Frame} {node : Node}
    (hnode : p.node? frame.node = some node) (hknown : frame.node.toNat < p.size)
    (habove : ¬ p.IsLaneRoot frame.node → t.Sound p refused index 2 1 2) {isBottom : Bool}
    (hbottom : isBottom = false → t.Sound p refused index 2 1 2) (rootVisited : Bool) (hnarrow : node.wideField? = none) :
    (stepNode p index frame isBottom rootVisited node).Ensures t refused fun outcome t' =>
      t'.Settled p index outcome := by
  have hvalid := valid.node hnode
  have habove (hkind : node.kind ≠ .root ∧ node.kind ≠ .threadRoot) : t.Sound p refused index 2 1 2 := by
    refine habove ?_
    rintro ⟨other, hother, hroot⟩
    obtain rfl := Option.some.inj (hnode.symm.trans hother)
    exact hroot.elim hkind.1 hkind.2
  cases node with
  | nop => exact andGoOn_ensures (finish_ensures (habove (by simp [Node.kind])) hknown)
  | root child =>
    have hchild := hvalid.children child (by simp [Node.children])
    cases isBottom with
    | true => exact laneRoot_ensures sound hknown hchild _ _
    | false => exact andGoOn_ensures (single_ensures (hbottom rfl) hknown hchild)
  | threadRoot child looping =>
    have hchild := hvalid.children child (by simp [Node.children])
    cases isBottom with
    | true => exact laneRoot_ensures sound hknown hchild _ _
    | false => exact andGoOn_ensures (single_ensures (hbottom rfl) hknown hchild)
  | «catch» child =>
    have hchild := hvalid.children child (by simp [Node.children])
    exact andGoOn_ensures (single_ensures (habove (by simp [Node.kind])) hknown hchild)
  | sequence children =>
    have deep := habove (by simp [Node.kind])
    simp only [stepNode]
    cases hchild : children[frame.childIndex.toNat]? with
    | none => exact andGoOn_ensures (finish_ensures deep hknown)
    | some child =>
      have hmem : child ∈ children := Array.mem_of_getElem? hchild
      have hlt := (Array.getElem?_eq_some_iff.mp hchild).1
      have hcount : children.size ≤ 65535 := hvalid.payload
      simp only [show frame.childIndex.toNat + 1 < 0x10000 by omega, if_true]
      exact andGoOn_ensures (call_ensures deep hknown (hvalid.children child (by simpa [Node.children] using hmem)) _)
  | selector branches =>
    have deep := habove (by simp [Node.kind])
    simp only [stepNode]
    split_ifs with hfirst
    · exact andGoOn_ensures (finish_ensures deep hknown)
    · have hcount : branches.length ≤ 65535 := hvalid.payload.1
      refine .seq (choose_ensures valid deep ?_ 0 (by omega)) fun choice t h => ?_
      · intro b hb
        exact ⟨hvalid.values _ (List.mem_map_of_mem hb), hvalid.payload.2 b hb,
          hvalid.children _ (List.mem_map_of_mem hb)⟩
      · cases choice with
        | none => exact fail_ensures valid (h.1.mono (by omega) (Nat.le_refl _) (Nat.le_refl _)) hknown
        | some c => exact andGoOn_ensures (call_ensures h.1 hknown (h.2 c rfl) _)
  | writeField component fields =>
    have deep := habove (by simp [Node.kind])
    have hfields := writeFields_eq valid deep.suits (fieldWritable_of_valid hvalid)
    rw [show fields.find? (4 < ·.length.toNat) = none from hnarrow] at hfields
    obtain ⟨t', hfields, hagent, suits⟩ := hfields
    have deep := deep.of_same (by rw [hagent]) (by rw [hagent]) suits
    exact andGoOn_ensures (.bind_of_eq hfields (finish_ensures deep hknown))
  | wait goal => exact wait_ensures valid (habove (by simp [Node.kind])) hknown hvalid
  | fail => exact fail_ensures valid sound hknown
  | optional guard child =>
    have deep := habove (by simp [Node.kind])
    have hchild := hvalid.children child (by simp [Node.children])
    have hguard := evaluateBool_ensures valid deep (hvalid.values guard (by simp [Node.values])) hvalid.payload
    have hdone {t : Tick σ} (sound : t.Sound p refused index 2 1 2) :
        (finish p index frame.node).Ensures t refused fun _ t' => t'.Sound p refused index 1 1 1 :=
      (finish_ensures sound hknown).mono fun _ t sound => sound.mono (Nat.le_refl _) (Nat.le_refl _) (by omega)
    simp only [stepNode]
    split_ifs with hfirst
    · exact andGoOn_ensures (hdone deep)
    · have hrun : (do
          if ← evaluateBool p guard then call p index frame.node 1 child
          else finish p index frame.node : Act σ Unit).Ensures t refused fun _ t' =>
            t'.Sound p refused index 1 1 1 := by
        refine .seq hguard fun holds t sound => ?_
        cases holds with
        | true => exact (call_ensures sound hknown hchild 1).mono fun _ t sound =>
            sound.mono (by omega) (Nat.le_refl _) (Nat.le_refl _)
        | false => exact hdone sound
      exact andGoOn_ensures hrun
  | writeVar slot value =>
    have deep := habove (by simp [Node.kind])
    have hvalue := hvalid.values value (by simp [Node.values])
    exact andGoOn_ensures (.seq (writeVar_ensures valid deep hvalid.payload.1 hvalue hvalid.payload.2)
      fun _ t sound => finish_ensures sound hknown)
  | query id result => exact query_ensures (habove (by simp [Node.kind])) hknown hvalid.payload id
  | parallel main thread =>
    have hmain := hvalid.children main (by simp [Node.children])
    have hthread : p.IsLaneRoot thread := by
      obtain ⟨node, hthread, hkind⟩ := Option.map_eq_some_iff.mp hvalid.payload
      exact ⟨node, hthread, .inr hkind⟩
    exact andGoOn_ensures (parallel_ensures (habove (by simp [Node.kind])) hknown hmain hthread)

theorem step_eq {frame : Frame} {node : Node} (h : index < t.agent.lanes.lanes.size)
    (htop : t.agent.lanes.top? index = .ok (some frame)) (hnode : p.node? frame.node = some node) (rootVisited : Bool) :
    step p index rootVisited t =
      stepNode p index frame (t.agent.lanes.lanes[index].count = 1) rootVisited node t := by
  have htop' : top? index t = .ok (some frame, t) := by
    rw [top?_apply, htop]
    rfl
  show (top? index t >>= _) = _
  rw [htop']
  show (lane index t >>= _) = _
  rw [lane_eq h]
  show (Act.node p frame.node t >>= _) = _
  rw [node_eq hnode]
  rfl

end Queries

end Act

namespace Tick

variable {σ : Type} {p : Program} {index : Nat} {t : Tick σ}

namespace Steady

theorem sound (steady : t.Steady p) (h : index < t.agent.lanes.lanes.size) :
    t.Sound p t.agent.Exhausted index 1 1 2 := by
  have hv := LaneStack.getElem?_view_eq_some_iff.mpr ⟨_, Array.getElem?_eq_getElem h, rfl⟩
  exact ⟨steady.ordered, steady.suits, steady.framed, fun i v hv _ => steady.occupied i v hv,
    ⟨_, hv, List.length_pos_of_ne_nil (steady.occupied _ _ hv)⟩, id, id⟩

/-- Begun steps are counted, which does not matter to the agent. -/
theorem counted (steady : t.Steady p) : Tick.Steady p { t with cycle := t.cycle + 1 } :=
  ⟨steady.toSteady, steady.suits⟩

/-- The frame that a step begins with. -/
theorem top (steady : t.Steady p) (h : index < t.agent.lanes.lanes.size) :
    ∃ frame node, t.agent.lanes.top? index = .ok (some frame) ∧ p.node? frame.node = some node := by
  have hlane := Array.getElem?_eq_getElem h
  have hv := LaneStack.getElem?_view_eq_some_iff.mpr ⟨_, hlane, rfl⟩
  have hlast := List.getLast?_eq_some_getLast (steady.occupied _ _ hv)
  have htop := LaneStack.top?_eq steady.ordered hlane
  have hknown := (steady.framed _ _ hv).known _ (List.mem_of_getLast? hlast)
  obtain ⟨node, hnode⟩ := Program.node?_of_lt hknown
  exact ⟨_, node, htop.trans (congrArg Except.ok hlast), hnode⟩

end Steady

/-- The wide field that the next step of a lane has to store. -/
def wideWrite? (p : Program) (index : Nat) (t : Tick σ) : Option FieldWrite :=
  match t.agent.lanes.top? index with
  | .ok (some frame) => (p.node? frame.node).bind Node.wideField?
  | _ => none

theorem wideWrite?_eq {frame : Frame} {node : Node} (htop : t.agent.lanes.top? index = .ok (some frame))
    (hnode : p.node? frame.node = some node) : t.wideWrite? p index = node.wideField? := by
  rw [wideWrite?, htop]
  simp [hnode]

variable [QuerySystem σ]

/-- A step keeps the tick steady unless it has a wide field to store. -/
theorem step_ensures (valid : p.Valid) (steady : t.Steady p) (h : index < t.agent.lanes.lanes.size)
    (hnarrow : t.wideWrite? p index = none) (rootVisited : Bool) :
    (Act.step p index rootVisited).Ensures t t.agent.Exhausted fun outcome t' => t'.Settled p index outcome := by
  obtain ⟨frame, node, htop, hnode⟩ := steady.top h
  have sound := steady.sound h
  have hbottom : decide (t.agent.lanes.lanes[index].count = 1) = false →
      t.Sound p t.agent.Exhausted index 2 1 2 := by
    intro hcount
    have hlane := Array.getElem?_eq_getElem h
    have hv := LaneStack.getElem?_view_eq_some_iff.mpr ⟨_, hlane, rfl⟩
    have hpos := List.length_pos_of_ne_nil (steady.occupied _ _ hv)
    have hlength : (t.agent.lanes.viewOf t.agent.lanes.lanes[index]).frames.length = _ :=
      steady.ordered.length_liveFrames hlane
    have hne := of_decide_eq_false hcount
    exact sound.deepen hv (by omega)
  rw [wideWrite?_eq htop hnode] at hnarrow
  unfold Act.Ensures
  rw [Act.step_eq h htop hnode]
  exact Act.stepNode_ensures valid sound hnode (sound.of_top htop).2 (sound.above_root htop) hbottom rootVisited hnarrow

/-- A wide field cannot be stored. -/
theorem step_wide (valid : p.Valid) (steady : t.Steady p) (h : index < t.agent.lanes.lanes.size) {field : FieldWrite}
    (hwide : t.wideWrite? p index = some field) (rootVisited : Bool) :
    Act.step p index rootVisited t = .error field.refusal := by
  obtain ⟨frame, node, htop, hnode⟩ := steady.top h
  rw [wideWrite?_eq htop hnode] at hwide
  rw [Act.step_eq h htop hnode]
  cases node with
  | writeField component fields =>
    have hfields := Act.writeFields_eq valid steady.suits (Act.fieldWritable_of_valid (valid.node hnode))
    rw [show fields.find? (4 < ·.length.toNat) = some field from hwide] at hfields
    show (fields.forM (Act.writeField p component) t >>= _) >>= _ = _
    rw [hfields]
    rfl
  | _ => cases hwide

end Tick

end BehaviorTree
