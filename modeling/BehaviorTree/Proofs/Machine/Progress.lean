import BehaviorTree.Proofs.Machine.Workload

/-! Every move of a lane gets a tick closer to its end. What is left of the turn of a lane and of the turns after it
goes down, whether the lane goes on, enters its root or suspends, and also when all lanes start over. -/

namespace BehaviorTree

/-- Which lane makes the next step, and whether that lane has been at its root. -/
def Outcome.next (index : Nat) (rootVisited : Bool) : Outcome → Nat × Bool
  | .goOn => (index, rootVisited)
  | .enterRoot => (index, true)
  | .suspend => (index + 1, false)

namespace Kin

/-- What is left of a lane that has its whole turn before it. -/
def turn (p : Program) (k : Kin) : Nat :=
  k.price p + p.workload k.frames

/-- What is left of the lanes behind an index. -/
def later (p : Program) (index : Nat) (lanes : List Kin) : Nat :=
  ((lanes.drop (index + 1)).map (turn p)).sum

/-- What is left of a tick while a lane has its turn. -/
def pending (p : Program) (index : Nat) (rootVisited : Bool) (lanes : List Kin) : Nat :=
  (lanes[index]?.elim 0 fun k => (if rootVisited then 0 else k.price p) + p.workload k.frames) + later p index lanes

variable {p : Program} {lanes : List Kin} {k : Kin} {index : Nat} {rootVisited : Bool}

theorem pending_eq (hk : lanes[index]? = some k) : pending p index rootVisited lanes =
    (if rootVisited then 0 else k.price p) + p.workload k.frames + later p index lanes := by
  rw [pending, hk]
  rfl

theorem later_concat (h : index < lanes.length) : later p index (lanes ++ [k]) = later p index lanes + turn p k := by
  rw [later, later, List.drop_append_of_le_length h, List.map_append, List.sum_append, List.map_singleton,
    List.sum_singleton]

/-- The next lane has its whole turn before it. -/
theorem pending_succ : pending p (index + 1) false lanes = later p index lanes := by
  rw [pending]
  cases hk : lanes[index + 1]? with
  | none =>
    have hle := List.getElem?_eq_none_iff.mp hk
    simp [later, List.drop_eq_nil_of_le hle, List.drop_eq_nil_of_le (Nat.le_succ_of_le hle)]
  | some k =>
    obtain ⟨hlt, rfl⟩ := List.getElem?_eq_some_iff.mp hk
    conv_rhs => rw [later, List.drop_eq_getElem_cons hlt, List.map_cons, List.sum_cons, turn]
    rfl

theorem later_modify (f : Kin → Kin) : later p index (lanes.modify index f) = later p index lanes := by
  rw [later, later, List.drop_modify_of_lt _ _ _ _ (Nat.lt_succ_self index)]

/-- Lanes may go, and those behind a lane move down with it. -/
theorem later_without_le (gone : List LaneId) : later p index (without gone lanes) ≤ later p index lanes := by
  obtain hle | hlt := Nat.lt_or_ge index lanes.length |>.symm
  · have hshort : (without gone lanes).length ≤ lanes.length := List.length_filter_le ..
    rw [later, List.drop_eq_nil_of_le (by omega)]
    exact Nat.zero_le _
  · have hsplit : without gone lanes = without gone (lanes.take (index + 1)) ++ without gone (lanes.drop (index + 1)) := by
      conv_lhs => rw [← List.take_append_drop (index + 1) lanes]
      exact List.filter_append ..
    have hshort : (without gone (lanes.take (index + 1))).length ≤ index + 1 :=
      Nat.le_trans (List.length_filter_le ..) (List.length_take_le ..)
    rw [later, hsplit, List.drop_append, List.drop_eq_nil_of_le hshort, List.nil_append]
    exact (((List.drop_sublist ..).trans List.filter_sublist).map _).sum_le_sum fun _ _ => Nat.zero_le _

end Kin

namespace Roster

variable {σ : Type}

/-- The primary lane is at the root, frames are at nodes that are reachable, and every lane pays for what it still has
to do and for the lanes that it started. -/
structure Paid (p : Program) (r : Roster σ) : Prop where
  reachable : ∀ k ∈ r.lanes, ∀ frame ∈ k.frames, p.Reachable frame.node
  primary : ∀ k ∈ r.lanes, k.parent = none → ∀ id, k.root? = some id → id = .root
  afford : ∀ k ∈ r.lanes, ∀ id, k.root? = some id → p.workload k.frames + Kin.upkeep p r.lanes k.id ≤ p.weight id

/-- A roster in which nothing has become more. -/
structure Eases (p : Program) (index : Nat) (r r' : Roster σ) : Prop where
  paid : r.Paid p → r'.Paid p
  own : ∀ k, r.lanes[index]? = some k → ∃ k', r'.lanes[index]? = some k' ∧ k'.price p ≤ k.price p ∧
    p.workload k'.frames ≤ p.workload k.frames
  later : Kin.later p index r'.lanes ≤ Kin.later p index r.lanes

variable {p : Program} {index : Nat} {r r' : Roster σ} {k : Kin} {frame : Frame} {node : Node}

/-- A lane that changes in place. -/
theorem Paid.onLane (paid : r.Paid p) (hk : r.lanes[index]? = some k) {f : Kin → Kin} (hsame : k.Same (f k))
    (hroot : k.KeepsRoot (f k)) (hreach : ∀ frame ∈ (f k).frames, p.Reachable frame.node)
    (hafford : ∀ id, (f k).root? = some id → p.workload (f k).frames + Kin.upkeep p r.lanes k.id ≤ p.weight id) :
    (r.onLane index f).Paid p := by
  have hupkeep := Kin.upkeep_modify_le hk hsame (Kin.price_le_of_keepsRoot (p := p) hroot)
  have hmem := List.mem_of_getElem? hk
  have hcases (k' : Kin) (hk' : k' ∈ (r.onLane index f).lanes) : k' = f k ∨ k' ∈ r.lanes := by
    obtain ⟨i, c, hc, rfl⟩ := mem_onLane hk'
    split_ifs with hi
    · subst hi
      exact .inl (congrArg f (Option.some.inj (hc.symm.trans hk)))
    · exact .inr (List.mem_of_getElem? hc)
  refine ⟨fun k' hk' => ?_, fun k' hk' hparent id hid => ?_, fun k' hk' id hid => ?_⟩
  · obtain rfl | hold := hcases k' hk'
    · exact hreach
    · exact paid.reachable k' hold
  · obtain rfl | hold := hcases k' hk'
    · exact paid.primary k hmem (hsame.2 ▸ hparent) id (hroot id hid)
    · exact paid.primary k' hold hparent id hid
  · obtain rfl | hold := hcases k' hk'
    · rw [hsame.1]
      exact Nat.le_trans (Nat.add_le_add_left (hupkeep k.id) _) (hafford id hid)
    · exact Nat.le_trans (Nat.add_le_add_left (hupkeep k'.id) _) (paid.afford k' hold id hid)

/-- A new lane at a node for which its parent has something left. -/
theorem Paid.spawn (paid : r.Paid p) (orderly : r.Orderly) (acyclic : p.Acyclic) (hk : k ∈ r.lanes) {thread : NodeId}
    (hreach : p.Reachable thread) (hknown : p.node? thread = some node)
    (hafford : ∀ id, k.root? = some id → p.workload k.frames + Kin.upkeep p r.lanes k.id + p.weight thread ≤ p.weight id) :
    (r.spawn k.id thread).Paid p := by
  have hyoung (c : Kin) (hc : c ∈ r.lanes) : c.id ≠ r.next := Nat.ne_of_lt (orderly.fresh c hc)
  refine ⟨fun c hc => ?_, fun c hc hparent => ?_, fun c hc id hid => ?_⟩
  · obtain hc | hc := List.mem_append.mp hc
    · exact paid.reachable c hc
    · obtain rfl := List.mem_singleton.mp hc
      exact fun frame hframe => List.mem_singleton.mp hframe ▸ hreach
  · obtain hc | hc := List.mem_append.mp hc
    · exact paid.primary c hc hparent
    · obtain rfl := List.mem_singleton.mp hc
      cases hparent
  · rw [Roster.spawn, Kin.upkeep_concat]
    obtain hc | hc := List.mem_append.mp hc
    · dsimp only
      split_ifs with hparent
      · obtain rfl := Kin.eq_of_id orderly.nodup hk hc (Option.some.inj hparent)
        exact (Nat.add_assoc ..).symm.trans_le (hafford id hid)
      · exact paid.afford c hc id hid
    · obtain rfl := List.mem_singleton.mp hc
      obtain rfl : thread = id := Option.some.inj hid
      have hself : some k.id ≠ some r.next := fun h => hyoung k hk (Option.some.inj h)
      simp only [Kin.upkeep, orderly.children_next, if_neg hself]
      exact Program.weight_pos acyclic hreach hknown

/-- The primary lane alone. -/
theorem Paid.begin (valid : p.Valid) (acyclic : p.Acyclic) (r : Roster σ) : r.begin.Paid p := by
  obtain ⟨child, hroot⟩ := valid.root
  refine ⟨fun k hk => ?_, fun k hk _ id hid => ?_, fun k hk id hid => ?_⟩
  · obtain rfl := List.mem_singleton.mp hk
    exact fun frame hframe => List.mem_singleton.mp hframe ▸ .refl
  · obtain rfl := List.mem_singleton.mp hk
    exact (Option.some.inj hid).symm
  · obtain rfl := List.mem_singleton.mp hk
    obtain rfl : NodeId.root = id := Option.some.inj hid
    exact Program.weight_pos acyclic .refl hroot

namespace Eases

theorem refl (r : Roster σ) : r.Eases p index r :=
  ⟨id, fun k hk => ⟨k, hk, Nat.le_refl _, Nat.le_refl _⟩, Nat.le_refl _⟩

theorem trans {r'' : Roster σ} (h : r.Eases p index r') (h' : r'.Eases p index r'') : r.Eases p index r'' := by
  refine ⟨h'.paid ∘ h.paid, fun k hk => ?_, Nat.le_trans h'.later h.later⟩
  obtain ⟨k', hk', hprice', hwork'⟩ := h.own k hk
  obtain ⟨k'', hk'', hprice'', hwork''⟩ := h'.own k' hk'
  exact ⟨k'', hk'', Nat.le_trans hprice'' hprice', Nat.le_trans hwork'' hwork'⟩

/-- What is not seen in lanes does not matter. -/
theorem of_lanes (h : r'.lanes = r.lanes) : r.Eases p index r' :=
  ⟨fun paid => ⟨h ▸ paid.reachable, h ▸ paid.primary, h ▸ paid.afford⟩,
    fun k hk => ⟨k, h ▸ hk, Nat.le_refl _, Nat.le_refl _⟩, Nat.le_of_eq (by rw [h])⟩

theorem onLane (hk : r.lanes[index]? = some k) {f : Kin → Kin} (hsame : k.Same (f k)) (hroot : k.KeepsRoot (f k))
    (hnodes : ∀ frame ∈ (f k).frames, ∃ old ∈ k.frames, old.node = frame.node)
    (hwork : p.workload (f k).frames ≤ p.workload k.frames) : r.Eases p index (r.onLane index f) := by
  refine ⟨fun paid => ?_, fun c hc => ?_, Nat.le_of_eq (Kin.later_modify f)⟩
  · have hmem := List.mem_of_getElem? hk
    refine paid.onLane hk hsame hroot (fun frame hframe => ?_) fun id hid => ?_
    · obtain ⟨old, hold, hnode⟩ := hnodes frame hframe
      exact hnode ▸ paid.reachable k hmem old hold
    · exact Nat.le_trans (Nat.add_le_add_right hwork _) (paid.afford k hmem id (hroot id hid))
  · obtain rfl := Option.some.inj (hk.symm.trans hc)
    refine ⟨f k, ?_, Kin.price_le_of_keepsRoot hroot, hwork⟩
    rw [Roster.onLane, List.getElem?_modify, hk]
    simp

/-- A lane loses its top frame. -/
theorem pop (top : r.Top p index k frame node) {f : Kin → Kin} (hsame : k.Same (f k))
    (hf : (f k).frames = k.frames.dropLast) : r.Eases p index (r.onLane index f) := by
  refine onLane top.lane hsame (Kin.keepsRoot_of_dropLast hf) (fun frame hframe => ?_) ?_
  · exact ⟨frame, List.mem_of_mem_dropLast (hf ▸ hframe), rfl⟩
  · rw [hf]
    exact Nat.le_of_lt (Program.workload_pop_lt top.last top.known)

/-- The top frame makes progress. -/
theorem setProgress (top : r.Top p index k frame node) {f : Kin → Kin} {progress : UInt16} (hsame : k.Same (f k))
    (hf : (f k).frames = (k.setProgress progress).frames) (hless : p.remaining ⟨frame.node, progress⟩ ≤ p.remaining frame) :
    r.Eases p index (r.onLane index f) := by
  obtain ⟨lower, hframes⟩ := List.getLast?_eq_some_iff.mp top.last
  have hset : (f k).frames = lower ++ [⟨frame.node, progress⟩] := hf.trans (Kin.frames_setProgress hframes progress)
  have hroot : (f k).root? = k.root? := by
    rw [Kin.root?, hf]
    exact Kin.root?_setProgress progress k
  refine onLane top.lane hsame (Kin.keepsRoot_of_eq hroot) (fun other hother => ?_) ?_
  · rw [hset] at hother
    obtain hother | hother := List.mem_append.mp hother
    · exact ⟨other, by simp [hframes, hother], rfl⟩
    · exact ⟨frame, by simp [hframes], by rw [List.mem_singleton.mp hother]⟩
  · rw [hset, hframes]
    by_cases h : lower = []
    · subst h
      exact Nat.le_refl _
    · rw [Program.workload_concat h, Program.workload_concat h]
      exact Nat.add_le_add_left hless _

variable [QuerySystem σ]

theorem remove {gone : List LaneId} (hkept : (r.remove gone).lanes[index]? = r.lanes[index]?) :
    r.Eases p index (r.remove gone) := by
  have hlanes : (r.remove gone).lanes = Kin.without gone r.lanes := by
    rw [Roster.remove, withdraw_lanes]
  have hmem {k : Kin} (hk : k ∈ (r.remove gone).lanes) : k ∈ r.lanes :=
    (Kin.mem_without.mp (hlanes ▸ hk)).1
  refine ⟨fun paid => ⟨fun k hk => paid.reachable k (hmem hk), fun k hk => paid.primary k (hmem hk), fun k hk id hid => ?_⟩,
    fun k hk => ⟨k, hkept.trans hk, Nat.le_refl _, Nat.le_refl _⟩, ?_⟩
  · rw [hlanes]
    exact Nat.le_trans (Nat.add_le_add_left (Kin.upkeep_without_le gone k.id) _) (paid.afford k (hmem hk) id hid)
  · rw [hlanes]
    exact Kin.later_without_le gone

end Eases

variable [QuerySystem σ]

theorem Releases.eases {thread : NodeId} (releases : r.Releases index thread r') : r.Eases p index r' := by
  cases releases with
  | nothing _ _ => exact .refl r
  | lane hk _ _ _ _ _ hkept => exact .remove (hkept.trans hk.symm)

theorem Unwinds.eases {caught : Bool} (unwinds : r.Unwinds p index caught r') : r.Eases p index r' := by
  induction unwinds with
  | empty _ _ => exact .refl _
  | «catch» top _ => exact .pop top ⟨rfl, rfl⟩ rfl
  | thread top _ releases _ ih =>
    have released := releases.kept top.lane
    exact releases.eases.trans ((Eases.pop ⟨released, top.last, top.known⟩ ⟨rfl, rfl⟩ rfl).trans ih)
  | skip top _ _ ih => exact (Eases.pop top ⟨rfl, rfl⟩ rfl).trans ih

/-! ### Moves -/

section Pending

variable {rootVisited : Bool}

omit [QuerySystem σ]

theorem Eases.pending_le (eases : r.Eases p index r') (hk : r.lanes[index]? = some k) :
    Kin.pending p index rootVisited r'.lanes ≤ Kin.pending p index rootVisited r.lanes := by
  obtain ⟨k', hk', hprice, hwork⟩ := eases.own k hk
  have hlater := eases.later
  rw [Kin.pending_eq hk, Kin.pending_eq hk']
  split_ifs <;> omega

/-- A lane that suspends leaves the turns of those behind it. -/
theorem Eases.suspend_lt (eases : r.Eases p index r') (top : r.Top p index k frame node) :
    Kin.pending p (index + 1) false r'.lanes < Kin.pending p index rootVisited r.lanes := by
  have hlater := eases.later
  have hwork : 0 < p.workload k.frames :=
    Program.workload_pos (List.ne_nil_of_mem (List.mem_of_getLast? top.last))
  rw [Kin.pending_succ, Kin.pending_eq top.lane]
  omega

theorem pop_lt (top : r.Top p index k frame node) {f : Kin → Kin} (hf : (f k).frames = k.frames.dropLast) :
    Kin.pending p index rootVisited (r.onLane index f).lanes < Kin.pending p index rootVisited r.lanes := by
  have hwork := Program.workload_pop_lt top.last top.known
  have hprice : (f k).price p ≤ k.price p := Kin.price_le_of_keepsRoot (Kin.keepsRoot_of_dropLast hf)
  rw [Kin.pending_eq top.lane, Kin.pending_eq (top.onLane f), hf, Roster.onLane, Kin.later_modify]
  split_ifs <;> omega

end Pending

/-- After a step what a lane can pay for is less. -/
def Advances (p : Program) (index : Nat) (rootVisited : Bool) (r : Roster σ) (outcome : Outcome) (r' : Roster σ) : Prop :=
  r'.Paid p ∧ Kin.pending p (outcome.next index rootVisited).1 (outcome.next index rootVisited).2 r'.lanes <
    Kin.pending p index rootVisited r.lanes

namespace Advances

variable {rootVisited : Bool} {child : NodeId} {progress : UInt16}

omit [QuerySystem σ]

theorem suspend (paid : r.Paid p) (top : r.Top p index k frame node) (eases : r.Eases p index r') :
    r.Advances p index rootVisited .suspend r' :=
  ⟨eases.paid paid, eases.suspend_lt top⟩

/-- The top frame goes, and whatever comes before and after that is no more work. -/
theorem pop {r₁ : Roster σ} (paid : r.Paid p) (before : r.Eases p index r₁) (top : r₁.Top p index k frame node)
    {k₀ : Kin} (hk : r.lanes[index]? = some k₀) {f : Kin → Kin} (hsame : k.Same (f k))
    (hf : (f k).frames = k.frames.dropLast) (after : (r₁.onLane index f).Eases p index r') :
    r.Advances p index rootVisited .goOn r' := by
  refine ⟨after.paid ((Eases.pop top hsame hf).paid (before.paid paid)), ?_⟩
  calc Kin.pending p index rootVisited r'.lanes
    _ ≤ Kin.pending p index rootVisited (r₁.onLane index f).lanes := after.pending_le (top.onLane f)
    _ < Kin.pending p index rootVisited r₁.lanes := pop_lt top hf
    _ ≤ Kin.pending p index rootVisited r.lanes := before.pending_le hk

/-- What is reachable once a node calls a child. -/
theorem reachable_call (paid : r.Paid p) (top : r.Top p index k frame node) (hchild : child ∈ node.children)
    (progress : UInt16) : ∀ f ∈ ((k.setProgress progress).push (.start child)).frames, p.Reachable f.node := by
  obtain ⟨lower, hframes⟩ := List.getLast?_eq_some_iff.mp top.last
  have hold := paid.reachable k (List.mem_of_getElem? top.lane)
  have hframe : p.Reachable frame.node := hold frame (by simp [hframes])
  intro f hf
  rw [Kin.push, Kin.frames_setProgress hframes, List.append_assoc] at hf
  obtain hf | hf := List.mem_append.mp hf
  · exact hold f (by simp [hframes, hf])
  · obtain rfl | rfl : f = ⟨frame.node, progress⟩ ∨ f = .start child := by simpa using hf
    · exact hframe
    · exact hframe.tail ⟨node, top.known, hchild⟩

theorem root?_call (top : r.Top p index k frame node) (progress : UInt16) (child : NodeId) :
    ((k.setProgress progress).push (.start child)).root? = k.root? := by
  obtain ⟨lower, hframes⟩ := List.getLast?_eq_some_iff.mp top.last
  rw [Kin.root?_push (by simp [Kin.frames_setProgress hframes]), Kin.root?_setProgress]

theorem workload_call {lower : List Frame} (hframes : k.frames = lower ++ [frame]) (hlower : lower ≠ [])
    (progress : UInt16) : p.workload ((k.setProgress progress).push (.start child)).frames =
      p.workload lower + p.remaining ⟨frame.node, progress⟩ + p.remaining (.start child) := by
  rw [Kin.push, Kin.frames_setProgress hframes, Program.workload_concat (by simp), Program.workload_concat hlower]

/-- A lane calls a child, and what is left of its frames is enough for it. -/
theorem call (paid : r.Paid p) (top : r.Top p index k frame node) (hchild : child ∈ node.children)
    (hwork : p.workload ((k.setProgress progress).push (.start child)).frames < p.workload k.frames) :
    r.Advances p index rootVisited .goOn (r.onLane index fun k => (k.setProgress progress).push (.start child)) := by
  have hroot := root?_call top progress child
  have hprice : ((k.setProgress progress).push (.start child)).price p = k.price p := by rw [Kin.price, hroot, Kin.price]
  refine ⟨paid.onLane top.lane ⟨rfl, rfl⟩ (Kin.keepsRoot_of_eq hroot) (reachable_call paid top hchild progress)
    fun id hid => ?_, ?_⟩
  · have := paid.afford k (List.mem_of_getElem? top.lane) id (hroot ▸ hid)
    omega
  · show Kin.pending p index rootVisited _ < _
    rw [Kin.pending_eq top.lane, Kin.pending_eq (top.onLane _), Roster.onLane, Kin.later_modify, hprice]
    omega

/-- A root that is alone in its lane calls its child, for which the lane has not paid yet. -/
theorem enter (acyclic : p.Acyclic) (paid : r.Paid p) (top : r.Top p index k frame node)
    (hbottom : k.frames.length = 1) {once : Bool} (hroot : node.rootChild? = some (child, once))
    (halone : Kin.children r.lanes k.id = []) :
    r.Advances p index false .enterRoot (r.onLane index fun k => (k.setProgress 1).push (.start child)) := by
  obtain ⟨lower, hframes⟩ := List.getLast?_eq_some_iff.mp top.last
  obtain rfl : lower = [] := by simpa [hframes] using hbottom
  have hchildren : node.children = [child] := by
    cases node <;> simp [Node.rootChild?] at hroot <;> simp [Node.children, hroot]
  have hreach := paid.reachable k (List.mem_of_getElem? top.lane) frame (by simp [hframes])
  have hmem : child ∈ node.children := by simp [hchildren]
  have hweight : p.weight frame.node = p.weight child + 2 := by
    rw [Program.weight_eq acyclic hreach top.known, hchildren]
    simp only [List.map_cons, List.map_nil, List.sum_cons, List.sum_nil]
    omega
  have hbase : k.root? = some frame.node := by simp [Kin.root?, hframes]
  have hroot' := root?_call top 1 child
  have hwork : p.workload ((k.setProgress 1).push (.start child)).frames = p.weight child + 1 := by
    rw [Kin.push, Kin.frames_setProgress hframes]
    show 1 + (p.remaining (.start child) + 0) = _
    rw [Program.remaining_start acyclic (hreach.tail ⟨node, top.known, hmem⟩)]
    omega
  refine ⟨paid.onLane top.lane ⟨rfl, rfl⟩ (Kin.keepsRoot_of_eq hroot') (reachable_call paid top hmem 1)
    fun id hid => ?_, ?_⟩
  · obtain rfl : frame.node = id := Option.some.inj (hbase.symm.trans (hroot' ▸ hid))
    rw [hwork, Kin.upkeep, halone, hweight]
    exact Nat.le_of_lt (Nat.lt_succ_self _)
  · show Kin.pending p index true _ < _
    rw [Kin.pending_eq top.lane, Kin.pending_eq (top.onLane _), Roster.onLane, Kin.later_modify, hwork,
      Kin.price_eq hbase, hweight]
    simp only [if_true, Bool.false_eq_true, if_false]
    omega

section Fork

variable {main thread : NodeId}

/-- What a parallel node that begins sets aside for its main child and for the lane beside it. -/
theorem workload_fork (top : r.Top p index k frame (.parallel main thread)) (habove : 1 < k.frames.length)
    (hfirst : frame.childIndex = 0) :
    p.workload k.frames = p.workload (k.setProgress 1).frames + p.weight main + p.weight thread + 2 := by
  obtain ⟨lower, hframes⟩ := List.getLast?_eq_some_iff.mp top.last
  have hlower : lower ≠ [] := by
    rintro rfl
    simp [hframes] at habove
  rw [Kin.frames_setProgress hframes, hframes, Program.workload_concat hlower, Program.workload_concat hlower,
    Program.remaining_of_begun top.known, Program.remaining_of_parallel top.known hfirst]
  omega

/-- The lane has noted that its parallel node has begun, and the new lane is there. -/
theorem spawned (valid : p.Valid) (acyclic : p.Acyclic) (paid : r.Paid p) (orderly : r.Orderly)
    (top : r.Top p index k frame (.parallel main thread)) (habove : 1 < k.frames.length) (hfirst : frame.childIndex = 0) :
    ((r.onLane index (Kin.setProgress 1)).spawn k.id thread).Paid p ∧ ∀ id, k.root? = some id →
      p.workload (k.setProgress 1).frames + p.weight main +
        Kin.upkeep p ((r.onLane index (Kin.setProgress 1)).spawn k.id thread).lanes k.id ≤ p.weight id := by
  have hmem := List.mem_of_getElem? top.lane
  have hreach := paid.reachable k hmem frame (List.mem_of_getLast? top.last)
  have hthread : p.Reachable thread := hreach.tail ⟨_, top.known, by simp [Node.children]⟩
  obtain ⟨node, hnode, -⟩ := Option.map_eq_some_iff.mp (valid.node top.known).payload
  have hroot := Kin.root?_setProgress 1 k
  have hwork := workload_fork top habove hfirst
  have hless : p.remaining ⟨frame.node, 1⟩ ≤ p.remaining frame := by
    rw [Program.remaining_of_begun top.known]
    exact Program.remaining_pos top.known
  have begun := (Eases.setProgress top (f := Kin.setProgress 1) ⟨rfl, rfl⟩ rfl hless).paid paid
  have hk := top.onLane (Kin.setProgress 1)
  have hspare : ∀ id, k.root? = some id → p.workload (k.setProgress 1).frames +
      Kin.upkeep p (r.onLane index (Kin.setProgress 1)).lanes k.id + p.weight main + p.weight thread ≤ p.weight id := by
    intro id hid
    have hafford := paid.afford k hmem id hid
    have hupkeep : Kin.upkeep p (r.onLane index (Kin.setProgress 1)).lanes k.id ≤ Kin.upkeep p r.lanes k.id :=
      Kin.upkeep_modify_le top.lane (Kin.same_setProgress 1 k) (Kin.price_le_of_keepsRoot (Kin.keepsRoot_of_eq hroot)) k.id
    omega
  refine ⟨begun.spawn (orderly.onLane index (Kin.same_setProgress 1)) acyclic (List.mem_of_getElem? hk) hthread hnode
    fun id hid => ?_, fun id hid => ?_⟩
  · have := hspare id (hroot ▸ hid)
    rw [show (k.setProgress 1).id = k.id from rfl]
    omega
  · have := hspare id hid
    rw [Roster.spawn, Kin.upkeep_concat, if_pos rfl]
    show _ + (Kin.upkeep p (r.onLane index (Kin.setProgress 1)).lanes k.id + p.weight thread) ≤ _
    omega

/-- A parallel node starts a lane beside its main child, and has paid for both. -/
theorem fork (valid : p.Valid) (acyclic : p.Acyclic) (paid : r.Paid p) (orderly : r.Orderly)
    (top : r.Top p index k frame (.parallel main thread)) (habove : 1 < k.frames.length) (hfirst : frame.childIndex = 0) :
    r.Advances p index rootVisited .goOn
      (((r.onLane index (Kin.setProgress 1)).spawn k.id thread).onLane index fun k =>
        (k.setProgress 1).push (.start main)) := by
  obtain ⟨spawned, hspare⟩ := spawned valid acyclic paid orderly top habove hfirst
  obtain ⟨lower, hframes⟩ := List.getLast?_eq_some_iff.mp top.last
  have hlower : lower ≠ [] := by
    rintro rfl
    simp [hframes] at habove
  have hmain : p.Reachable main :=
    (paid.reachable k (List.mem_of_getElem? top.lane) frame (by simp [hframes])).tail
      ⟨_, top.known, by simp [Node.children]⟩
  have hset := Kin.frames_setProgress hframes 1
  have hk := top.onLane (Kin.setProgress 1)
  have top' : ((r.onLane index (Kin.setProgress 1)).spawn k.id thread).Top p index (k.setProgress 1) ⟨frame.node, 1⟩
      (.parallel main thread) := ⟨getElem?_spawn hk k.id thread, by simp [hset], top.known⟩
  have hroot := root?_call top' 1 main
  have hwork : p.workload (((k.setProgress 1).setProgress 1).push (.start main)).frames =
      p.workload (k.setProgress 1).frames + p.weight main := by
    rw [workload_call hset hlower, hset, Program.workload_concat hlower, Program.remaining_start acyclic hmain]
  refine ⟨spawned.onLane top'.lane ⟨rfl, rfl⟩ (Kin.keepsRoot_of_eq hroot)
    (reachable_call spawned top' (by simp [Node.children]) 1) fun id hid => ?_, ?_⟩
  · rw [hwork]
    exact hspare id (Kin.root?_setProgress 1 k ▸ hroot ▸ hid)
  · have hlt : index < (r.onLane index (Kin.setProgress 1)).lanes.length := (List.getElem?_eq_some_iff.mp hk).1
    have hprice : (((k.setProgress 1).setProgress 1).push (.start main)).price p = k.price p := by
      rw [Kin.price, hroot, Kin.root?_setProgress, Kin.price]
    have hbefore := workload_fork top habove hfirst
    show Kin.pending p index rootVisited _ < _
    rw [Kin.pending_eq top.lane, Kin.pending_eq (top'.onLane _), Roster.onLane, Kin.later_modify, Roster.spawn,
      Kin.later_concat hlt, Roster.onLane, Kin.later_modify, hwork, hprice, hbefore]
    show _ + (_ + (p.weight thread + 1)) < _
    omega

end Fork

end Advances

section Moves

variable {now : UInt64} {rootVisited : Bool} {outcome : Outcome}

theorem Polls.advances {request : QueryRequest} {id : UInt16} {result : VarSlot} {r₁ : Roster σ}
    (polls : r₁.Polls index request outcome r') (paid : r.Paid p) {k₀ : Kin} {frame₀ : Frame} {node₀ : Node}
    (top₀ : r.Top p index k₀ frame₀ node₀) (before : r.Eases p index r₁)
    (top : r₁.Top p index k frame (.query id result)) : r.Advances p index rootVisited outcome r' := by
  cases polls with
  | pending _ => exact .suspend paid top₀ (before.trans (.of_lanes rfl))
  | @complete queries _ _ =>
    have asked : r.Eases p index { r₁ with holder := none, queries := queries } := before.trans (.of_lanes rfl)
    exact .pop paid asked ⟨top.lane, top.last, top.known⟩ top₀.lane ⟨rfl, rfl⟩ rfl (.refl _)

/-- All lanes start over, and only the primary one may go on in this turn. -/
theorem Advances.restart (valid : p.Valid) (acyclic : p.Acyclic) (paid : r.Paid p) (top : r.Top p index k frame node)
    (habove : 1 < k.frames.length) (hfirst : index = 0 → k.parent = none) (r' : Roster σ) :
    r.Advances p index rootVisited (if index = 0 then .goOn else .suspend) r'.restart := by
  obtain ⟨bottom, above, hframes⟩ := List.exists_cons_of_ne_nil (List.ne_nil_of_length_pos (Nat.zero_lt_of_lt habove))
  have hbase : k.root? = some bottom.node := by simp [Kin.root?, hframes]
  have hfresh : ∃ id, r'.restart.lanes = [⟨id, none, 0, [.start .root]⟩] := ⟨_, rfl⟩
  obtain ⟨id, hlanes⟩ := hfresh
  refine ⟨.begin valid acyclic _, ?_⟩
  have hwork : 2 ≤ p.workload k.frames := by
    have := Program.workload_pop_lt top.last top.known
    have hleft : k.frames.dropLast ≠ [] := by simpa [← List.length_pos_iff] using Nat.sub_pos_of_lt habove
    have := Program.workload_pos (p := p) hleft
    omega
  split_ifs with hindex
  · subst hindex
    have hprimary : bottom.node = .root :=
      paid.primary k (List.mem_of_getElem? top.lane) (hfirst rfl) bottom.node hbase
    show Kin.pending p 0 rootVisited _ < _
    rw [hlanes, Kin.pending_eq top.lane, Kin.pending_eq (k := ⟨id, none, 0, [.start .root]⟩) rfl, Kin.price_eq hbase, hprimary]
    show (if rootVisited then 0 else p.weight .root) + 1 + 0 < _
    omega
  · show Kin.pending p (index + 1) false _ < _
    rw [hlanes, Kin.pending_succ, Kin.pending_eq top.lane]
    show (List.map (Kin.turn p) (List.drop (index + 1) [_])).sum < _
    rw [List.drop_eq_nil_of_le (by simp)]
    show 0 < _
    omega

/-- Every move leaves less to do in the tick, whatever is asked and answered. -/
theorem Moves.advances (moves : r.Moves p now index rootVisited outcome r') (valid : p.Valid) (acyclic : p.Acyclic)
    {spawns : Spawns} (tallied : r.Tallied p spawns) (paid : r.Paid p)
    (hfirst : ∀ k, r.lanes[0]? = some k → k.parent = none)
    (hdeep : ∀ k frame node, r.Top p index k frame node → ¬ p.IsLaneRoot frame.node → 1 < k.frames.length) :
    r.Advances p index rootVisited outcome r' := by
  have hone : (1 : UInt16) ≠ 0 := by decide
  have hleaf {frame : Frame} {node : Node} (hnode : p.node? frame.node = some node) (hchildren : node.children = [])
      (hkind : node.kind ≠ .sequence) : p.remaining ⟨frame.node, 1⟩ ≤ p.remaining frame := by
    rw [Program.remaining_of_leaf frame hnode hchildren hkind,
      Program.remaining_of_leaf ⟨frame.node, 1⟩ hnode hchildren hkind]
  have hfail {k : Kin} {frame : Frame} {node : Node} (top : r.Top p index k frame node)
      (hfail : node.Fails frame.childIndex) : 1 < k.frames.length := by
    refine hdeep k frame node top ?_
    rintro ⟨other, hother, hroot⟩
    obtain rfl := Option.some.inj (top.known.symm.trans hother)
    cases node <;> simp [Node.Fails, Node.kind] at hfail hroot
  cases moves with
  | yield top _ _ _ => exact .suspend paid top (.refl r)
  | wait top _ => exact .suspend paid top (.refl r)
  | blocked top _ _ => exact .suspend paid top (.refl r)
  | @enter k frame _ _ _ top hbottom hroot hvisited =>
    obtain ⟨rfl, -⟩ := hvisited
    have matched := tallied.matched k (List.mem_of_getElem? top.lane)
    obtain ⟨lower, hframes⟩ := List.getLast?_eq_some_iff.mp top.last
    obtain rfl : lower = [] := by simpa [hframes] using hbottom
    -- A lane at its root has started nothing.
    have hthreads := matched.threads
    rw [hframes, Program.threads_of_quiet [] (top.running?_eq fun h => absurd h (Node.kind_ne_of_rootChild hroot).1)] at hthreads
    have hidle : spawns.of k = [] := List.map_eq_nil_iff.mp hthreads.symm
    exact .enter acyclic paid top hbottom hroot (List.forall₂_nil_left_iff.mp (hidle ▸ matched.children))
  | @call k frame _ progress child top habove hcall =>
    obtain ⟨lower, hframes⟩ := List.getLast?_eq_some_iff.mp top.last
    have hlower : lower ≠ [] := by
      rintro rfl
      simp [hframes] at habove
    have hmem := Node.mem_children_of_calls hcall
    have hreach := paid.reachable k (List.mem_of_getElem? top.lane) frame (by simp [hframes])
    have hless := Program.remaining_of_calls top.known hcall
    refine .call paid top hmem ?_
    rw [Advances.workload_call hframes hlower, hframes, Program.workload_concat hlower,
      Program.remaining_start acyclic (hreach.tail ⟨_, top.known, hmem⟩)]
    omega
  | finish top _ _ => exact .pop paid (.refl r) top top.lane ⟨rfl, rfl⟩ rfl (.refl _)
  | beginWait top _ => exact .suspend paid top (.setProgress top ⟨rfl, rfl⟩ rfl (hleaf top.known rfl (by simp [Node.kind])))
  | @passWait k frame _ top _ _ =>
    obtain ⟨lower, hframes⟩ := List.getLast?_eq_some_iff.mp top.last
    have hpop : (((k.setProgress 1).setWaitStart now).pop).frames = k.frames.dropLast := by
      show (k.setProgress 1).frames.dropLast = _
      rw [Kin.frames_setProgress hframes, hframes, List.dropLast_concat, List.dropLast_concat]
    exact .pop paid (.refl r) top top.lane ⟨rfl, rfl⟩ hpop (.refl _)
  | poll top _ _ polls => exact polls.advances paid top (.refl r) top
  | @ask k frame _ _ _ _ top _ _ polls =>
    obtain ⟨lower, hframes⟩ := List.getLast?_eq_some_iff.mp top.last
    have asked := Eases.setProgress top (f := Kin.setProgress 1) ⟨rfl, rfl⟩ rfl (hleaf top.known rfl (by simp [Node.kind]))
    have hlast : (k.setProgress 1).frames.getLast? = some ⟨frame.node, 1⟩ := by simp [Kin.frames_setProgress hframes]
    exact polls.advances paid top (asked.trans (.of_lanes rfl)) ⟨top.onLane (Kin.setProgress 1), hlast, top.known⟩
  | fork top habove hbegin => exact .fork valid acyclic paid tallied.orderly top habove hbegin
  | join top _ _ releases =>
    exact .pop paid releases.eases ⟨releases.kept top.lane, top.last, top.known⟩ top.lane ⟨rfl, rfl⟩ rfl (.refl _)
  | «catch» top _ unwinds => exact .pop paid (.refl r) top top.lane ⟨rfl, rfl⟩ rfl unwinds.eases
  | restart top hfails _ =>
    exact .restart valid acyclic paid top (hfail top hfails) (fun hindex => hfirst _ (hindex ▸ top.lane)) _

end Moves

end Roster

end BehaviorTree
