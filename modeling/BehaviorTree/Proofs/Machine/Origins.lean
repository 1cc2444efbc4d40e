import BehaviorTree.Proofs.Machine.Marks

/-! Where the lanes after a move come from. The lane that makes the move goes on, the other ones stay exactly as they
are unless they go, and a new one begins at a root. A wait is never below another frame, so that a lane which loses
frames does not come back to one. -/

namespace BehaviorTree

variable {p : Program}

/-- On top of the frames there is that of a wait. -/
structure Program.Waits (p : Program) (frames : List Frame) (frame : Frame) (goal : WaitGoal) : Prop where
  last : frames.getLast? = some frame
  known : p.node? frame.node = some (.wait goal)

namespace Kin

variable {k k' : Kin} {frame : Frame} {goal : WaitGoal}

/-- A frame that is not on top waits for the one above it, and a wait has no children. -/
theorem Chained.not_waits_of_take (chained : k.Chained p) {n : Nat} (h : n < k.frames.length)
    (hframes : k'.frames = k.frames.take n) : ¬p.Waits k'.frames frame goal := by
  rintro ⟨hlast, hknown⟩
  rw [hframes, List.getLast?_take] at hlast
  split_ifs at hlast with hn
  have hbelow : n - 1 + 1 < k.frames.length := by omega
  obtain rfl : k.frames[n - 1] = frame := by
    rw [List.getElem?_eq_getElem (by omega)] at hlast
    exact Option.some.inj hlast
  obtain ⟨-, node, hnode, hcalled⟩ := List.isChain_iff_getElem.mp chained.calls (n - 1) hbelow
  obtain rfl := Option.some.inj (hknown.symm.trans hnode)
  cases hcalled

theorem not_waits_start {root : NodeId} (h : p.IsLaneRoot root) (hframes : k.frames = [.start root]) :
    ¬p.Waits k.frames frame goal := by
  rintro ⟨hlast, hknown⟩
  rw [hframes] at hlast
  obtain rfl := Option.some.inj hlast
  obtain ⟨node, hnode, hkind⟩ := h
  obtain rfl := Option.some.inj (hknown.symm.trans hnode)
  cases hkind with
  | inl hroot => cases hroot
  | inr hroot => cases hroot

end Kin

theorem Node.rootChild?_of_kind_wait {node : Node} (h : node.kind = .wait) : node.rootChild? = none := by
  cases node with
  | wait goal => rfl
  | _ => cases h

namespace Roster

variable {σ : Type} {index : Nat} {r r' : Roster σ} {k k' : Kin}

/-- Where a lane comes from after a move of the lane `k`. -/
inductive Origin (p : Program) (now : UInt64) (r : Roster σ) (k : Kin) (outcome : Outcome) : Kin → Prop
  | other {k' : Kin} (hmem : k' ∈ r.lanes) (hid : k'.id ≠ k.id) : Origin p now r k outcome k'
  | new {k' : Kin} {root : NodeId} (hid : r.next ≤ k'.id) (hframes : k'.frames = [.start root])
    (hroot : p.IsLaneRoot root) : Origin p now r k outcome k'
  /-- If the lane waits, it has done so before. -/
  | same (hlater : ∀ frame goal, p.Waits k.frames frame goal → frame.childIndex ≠ 0) : Origin p now r k outcome k
  | elsewhere {k' : Kin} (hid : k'.id = k.id) (hfree : ∀ frame goal, ¬p.Waits k'.frames frame goal) :
    Origin p now r k outcome k'
  | called {k' : Kin} {child : NodeId} (hid : k'.id = k.id) (hlength : k'.frames.length = k.frames.length + 1)
    (hlast : k'.frames.getLast? = some (.start child)) (hgoes : outcome ≠ .suspend) : Origin p now r k outcome k'
  | begun {frame : Frame} {goal : WaitGoal} (waits : p.Waits k.frames frame goal) (hfirst : frame.childIndex = 0) :
    Origin p now r k outcome ((k.setProgress 1).setWaitStart now)

/-- A change of one lane that keeps its id. -/
theorem eq_or_mem_of_onLane (orderly : r.Orderly) (hk : r.lanes[index]? = some k) {f : Kin → Kin}
    (h : k' ∈ (r.onLane index f).lanes) : k' = f k ∨ k' ∈ r.lanes ∧ k'.id ≠ k.id := by
  obtain ⟨i, c, hc, rfl⟩ := mem_onLane h
  split_ifs with hi
  · subst hi
    exact .inl (congrArg f (Option.some.inj (hc.symm.trans hk)))
  · refine .inr ⟨List.mem_of_getElem? hc, fun hid => hi ?_⟩
    obtain rfl := Kin.eq_of_id orderly.nodup (List.mem_of_getElem? hc) (List.mem_of_getElem? hk) hid
    exact orderly.place_inj hk hc

theorem getElem?_onLane (hk : r.lanes[index]? = some k) (f : Kin → Kin) :
    (r.onLane index f).lanes[index]? = some (f k) := by
  simp [onLane, hk]

namespace Origin

variable {now : UInt64} {outcome : Outcome}

theorem of_onLane (orderly : r.Orderly) (hk : r.lanes[index]? = some k) {f : Kin → Kin}
    (hself : r.Origin p now k outcome (f k)) (h : k' ∈ (r.onLane index f).lanes) : r.Origin p now k outcome k' := by
  obtain rfl | ⟨hmem, hid⟩ := eq_or_mem_of_onLane orderly hk h
  · exact hself
  · exact .other hmem hid

/-- No lane changes. -/
theorem stay (orderly : r.Orderly) (hk : r.lanes[index]? = some k)
    (hlater : ∀ frame goal, p.Waits k.frames frame goal → frame.childIndex ≠ 0) (h : k' ∈ r.lanes) :
    r.Origin p now k outcome k' := by
  by_cases hid : k'.id = k.id
  · obtain rfl := Kin.eq_of_id orderly.nodup h (List.mem_of_getElem? hk) hid
    exact .same hlater
  · exact .other h hid

/-- The lane loses frames. -/
theorem of_take (chained : k.Chained p) (hid : k'.id = k.id) {n : Nat} (h : n < k.frames.length)
    (hframes : k'.frames = k.frames.take n) : r.Origin p now k outcome k' :=
  .elsewhere hid fun _ _ => chained.not_waits_of_take h hframes

theorem of_dropLast (chained : k.Chained p) (hne : k.frames ≠ []) (hid : k'.id = k.id)
    (hframes : k'.frames = k.frames.dropLast) : r.Origin p now k outcome k' :=
  of_take chained hid (Nat.sub_lt (List.length_pos_of_ne_nil hne) Nat.one_pos)
    (hframes.trans List.dropLast_eq_take)

theorem of_call (hid : k'.id = k.id) {progress : UInt16} {child : NodeId}
    (hframes : k'.frames = (k.setProgress progress).frames ++ [.start child]) (hgoes : outcome ≠ .suspend) :
    r.Origin p now k outcome k' := by
  have hlast : k'.frames.getLast? = some (.start child) := by
    rw [hframes, List.getLast?_concat]
  refine .called hid ?_ hlast hgoes
  rw [hframes, List.length_append, Kin.length_setProgress, List.length_singleton]

end Origin

variable [QuerySystem σ]

theorem Releases.mem {thread : NodeId} (releases : r.Releases index thread r') (h : k' ∈ r'.lanes) : k' ∈ r.lanes := by
  cases releases with
  | nothing _ _ => exact h
  | lane _ _ _ _ _ _ _ =>
    rw [lanes_remove] at h
    exact (Kin.mem_without.mp h).1

/-- The lane is the same but for frames on top, and the other ones are as they are in the roster. -/
def Left (r : Roster σ) (k k' : Kin) : Prop :=
  k' ∈ r.lanes ∧ k'.id ≠ k.id ∨ k'.id = k.id ∧ ∃ n, k'.frames = k.frames.take n

omit [QuerySystem σ] in
theorem Left.of_mem (orderly : r.Orderly) (hk : r.lanes[index]? = some k) (h : k' ∈ r.lanes) : r.Left k k' := by
  by_cases hid : k'.id = k.id
  · obtain rfl := Kin.eq_of_id orderly.nodup h (List.mem_of_getElem? hk) hid
    exact .inr ⟨rfl, _, List.take_length.symm⟩
  · exact .inl ⟨h, hid⟩

omit [QuerySystem σ] in
/-- First one frame goes, and then others. -/
theorem Left.of_pop (orderly : r.Orderly) (hk : r.lanes[index]? = some k)
    (left : (r.onLane index Kin.pop).Left k.pop k') : r.Left k k' := by
  obtain ⟨hmem, hid⟩ | ⟨hid, n, hframes⟩ := left
  · exact .inl ((eq_or_mem_of_onLane orderly hk hmem).resolve_left fun heq => hid (congrArg Kin.id heq))
  · refine .inr ⟨hid, min n (k.frames.length - 1), ?_⟩
    rw [hframes, Kin.pop, List.dropLast_eq_take, List.take_take]

omit [QuerySystem σ] in
theorem Left.mono {r'' : Roster σ} (hmem : ∀ c ∈ r''.lanes, c ∈ r.lanes) (left : r''.Left k k') : r.Left k k' :=
  left.imp_left fun ⟨h, hid⟩ => ⟨hmem k' h, hid⟩

/-- A failure takes frames from the lane, and other lanes altogether. -/
theorem Unwinds.left {caught : Bool} (unwinds : r.Unwinds p index caught r') (orderly : r.Orderly)
    (hk : r.lanes[index]? = some k) (h : k' ∈ r'.lanes) : r.Left k k' := by
  induction unwinds generalizing k with
  | empty _ _ => exact .of_mem orderly hk h
  | «catch» _ _ =>
    exact .of_pop orderly hk (.of_mem (orderly.onLane index fun _ => ⟨rfl, rfl⟩) (getElem?_onLane hk _) h)
  | thread _ _ releases _ ih =>
    have orderly' := releases.orderly orderly
    have hk' := releases.kept hk
    have left := ih (orderly'.onLane index fun _ => ⟨rfl, rfl⟩) (getElem?_onLane hk' _) h
    exact (left.of_pop orderly' hk').mono fun _ => releases.mem
  | skip _ _ _ ih =>
    exact .of_pop orderly hk (ih (orderly.onLane index fun _ => ⟨rfl, rfl⟩) (getElem?_onLane hk _) h)

theorem Polls.origin {request : QueryRequest} {outcome : Outcome} (polls : r.Polls index request outcome r')
    (orderly : r.Orderly) (hk : r.lanes[index]? = some k) (h : k' ∈ r'.lanes) :
    k' = k ∨ k' = k.pop ∨ k' ∈ r.lanes ∧ k'.id ≠ k.id := by
  cases polls with
  | pending _ =>
    obtain hold | ⟨hid, -⟩ := Left.of_mem orderly hk h
    · exact .inr (.inr hold)
    · exact .inl (Kin.eq_of_id orderly.nodup h (List.mem_of_getElem? hk) hid)
  | @complete queries _ _ =>
    have freed : Orderly { r with holder := none, queries := queries } := orderly.same rfl rfl
    exact .inr (eq_or_mem_of_onLane freed hk h)

/-- Where the lanes after a move come from. -/
theorem Moves.origin (valid : p.Valid) {now : UInt64} {rootVisited : Bool} {outcome : Outcome}
    (moves : r.Moves p now index rootVisited outcome r') (orderly : r.Orderly) (chained : r.Chained p)
    (hk : r.lanes[index]? = some k) (h : k' ∈ r'.lanes) : r.Origin p now k outcome k' := by
  have chained := chained k (List.mem_of_getElem? hk)
  -- on top of the lane there is the node of the move
  have hother {c : Kin} {frame : Frame} {node : Node} (top : r.Top p index c frame node) (hnode : node.kind ≠ .wait)
      (frame' : Frame) (goal : WaitGoal) : ¬p.Waits k.frames frame' goal := by
    rintro ⟨hlast, hknown⟩
    obtain ⟨-, -, rfl⟩ := top.unique ⟨hk, hlast, hknown⟩
    exact hnode rfl
  have hsetProgress {frame : Frame} {node : Node} (top : r.Top p index k frame node) (hnode : node.kind ≠ .wait)
      (frame' : Frame) (goal : WaitGoal) : ¬p.Waits (k.setProgress 1).frames frame' goal := by
    rintro ⟨hlast, hknown⟩
    rw [Kin.frames_setProgress (List.dropLast_append_getLast? frame top.last).symm, List.getLast?_concat] at hlast
    obtain rfl := Option.some.inj hlast
    obtain rfl := Option.some.inj (top.known.symm.trans hknown)
    exact hnode rfl
  cases moves with
  | yield top _ hroot _ =>
    refine .stay orderly hk (fun frame goal waits => absurd waits (hother top ?_ frame goal)) h
    intro hkind
    cases hroot.symm.trans (Node.rootChild?_of_kind_wait hkind)
  | enter top _ _ _ => exact .of_onLane orderly hk (.of_call rfl rfl nofun) h
  | call top _ _ => exact .of_onLane orderly hk (.of_call rfl rfl nofun) h
  | finish top _ _ =>
    obtain rfl := Option.some.inj (top.lane.symm.trans hk)
    exact .of_onLane orderly hk (.of_dropLast chained top.ne_nil rfl rfl) h
  | wait top hlater =>
    refine .stay orderly hk (fun frame goal waits => ?_) h
    obtain ⟨-, rfl, -⟩ := top.unique ⟨hk, waits.last, waits.known⟩
    exact hlater
  | beginWait top hfirst =>
    obtain rfl := Option.some.inj (top.lane.symm.trans hk)
    exact .of_onLane orderly hk (.begun ⟨top.last, top.known⟩ hfirst) h
  | passWait top _ _ =>
    obtain rfl := Option.some.inj (top.lane.symm.trans hk)
    exact .of_onLane orderly hk (.of_dropLast chained top.ne_nil rfl (top.dropLast_setProgress 1)) h
  | blocked top _ _ => exact .stay orderly hk (fun frame goal waits => absurd waits (hother top nofun frame goal)) h
  | poll top _ _ polls =>
    obtain rfl := Option.some.inj (top.lane.symm.trans hk)
    obtain rfl | rfl | ⟨hmem, hid⟩ := polls.origin orderly hk h
    · exact .elsewhere rfl (hother top nofun)
    · exact .of_dropLast chained top.ne_nil rfl rfl
    · exact .other hmem hid
  | @ask k _ id _ _ _ top _ _ polls =>
    obtain rfl := Option.some.inj (top.lane.symm.trans hk)
    have asked : ((r.onLane index (Kin.setProgress 1)).submit ⟨id, k.id⟩).Orderly :=
      (orderly.onLane index (Kin.same_setProgress 1)).same rfl rfl
    obtain rfl | rfl | ⟨hmem, hid⟩ := polls.origin asked (top.onLane _) h
    · exact .elsewhere rfl (hsetProgress top nofun)
    · exact .of_dropLast chained top.ne_nil rfl (top.dropLast_setProgress 1)
    · exact .other ((eq_or_mem_of_onLane orderly hk hmem).resolve_left fun heq => hid (congrArg Kin.id heq)).1 hid
  | @fork k frame main thread top _ _ =>
    obtain rfl := Option.some.inj (top.lane.symm.trans hk)
    have begun := orderly.onLane index (Kin.same_setProgress 1)
    have hk' := top.onLane (Kin.setProgress 1)
    obtain rfl | ⟨hmem, hid⟩ := eq_or_mem_of_onLane (begun.spawn (List.mem_of_getElem? hk') thread)
      (getElem?_spawn hk' k.id thread) h
    · refine .called rfl ?_ List.getLast?_concat nofun
      rw [Kin.push, List.length_append, Kin.length_setProgress, Kin.length_setProgress, List.length_singleton]
    · obtain hold | hnew := List.mem_append.mp hmem
      · exact .other ((eq_or_mem_of_onLane orderly hk hold).resolve_left fun heq => hid (congrArg Kin.id heq)).1 hid
      · obtain rfl := List.mem_singleton.mp hnew
        obtain ⟨node, hthread, hkind⟩ := Option.map_eq_some_iff.mp (valid.node top.known).payload
        exact .new (Nat.le_refl _) rfl ⟨node, hthread, .inr hkind⟩
  | join top _ _ releases =>
    obtain rfl := Option.some.inj (top.lane.symm.trans hk)
    obtain rfl | ⟨hmem, hid⟩ := eq_or_mem_of_onLane (releases.orderly orderly) (releases.kept hk) h
    · exact .of_dropLast chained top.ne_nil rfl rfl
    · exact .other (releases.mem hmem) hid
  | «catch» top _ unwinds =>
    obtain rfl := Option.some.inj (top.lane.symm.trans hk)
    have popped := orderly.onLane index (f := Kin.pop) fun _ => ⟨rfl, rfl⟩
    obtain ⟨hmem, hid⟩ | ⟨hid, n, hframes⟩ := unwinds.left popped (getElem?_onLane hk _) h
    · exact .other ((eq_or_mem_of_onLane orderly hk hmem).resolve_left fun heq => hid (congrArg Kin.id heq)).1 hid
    · rw [Kin.pop, List.dropLast_eq_take, List.take_take] at hframes
      have hpos := List.length_pos_of_ne_nil top.ne_nil
      exact .of_take chained hid (by omega) hframes
  | restart top _ unwinds =>
    rw [lanes_restart, List.mem_singleton] at h
    obtain rfl := h
    obtain ⟨child, hroot⟩ := valid.root
    exact .new (Nat.le_of_eq unwinds.next_eq.symm) rfl ⟨_, hroot, .inl rfl⟩

end Roster

end BehaviorTree
