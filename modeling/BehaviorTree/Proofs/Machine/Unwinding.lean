import BehaviorTree.Proofs.Machine.Roster
import BehaviorTree.Proofs.Machine.Semantics

/-! What is on top of a lane, and what a failure takes away from it: the frames above the nearest catch, with the
lanes that they started. -/

namespace BehaviorTree

namespace Roster

variable {σ : Type} [QuerySystem σ]

/-- The frame and the node on top of a lane. -/
structure Top (p : Program) (index : Nat) (r : Roster σ) (k : Kin) (frame : Frame) (node : Node) : Prop where
  lane : r.lanes[index]? = some k
  last : k.frames.getLast? = some frame
  known : p.node? frame.node = some node

/-- Removes frames up to and including the nearest catch in progress, and with every parallel node in progress
the lane that it started. -/
inductive Unwinds (p : Program) (index : Nat) : Roster σ → Bool → Roster σ → Prop
  | empty {r : Roster σ} {k : Kin} (hk : r.lanes[index]? = some k) (hframes : k.frames = []) :
    Unwinds p index r false r
  | catch {r : Roster σ} {k : Kin} {frame : Frame} {child : NodeId} (top : r.Top p index k frame (.catch child))
    (hprogress : frame.childIndex ≠ 0) : Unwinds p index r true (r.onLane index Kin.pop)
  | thread {r r' r'' : Roster σ} {k : Kin} {frame : Frame} {main thread : NodeId} {caught : Bool}
    (top : r.Top p index k frame (.parallel main thread)) (hprogress : frame.childIndex ≠ 0)
    (releases : r.Releases index thread r') (rest : Unwinds p index (r'.onLane index Kin.pop) caught r'') :
    Unwinds p index r caught r''
  | skip {r r' : Roster σ} {k : Kin} {frame : Frame} {node : Node} {caught : Bool} (top : r.Top p index k frame node)
    (hskip : node.kind = .catch ∨ node.kind = .parallel → frame.childIndex = 0)
    (rest : Unwinds p index (r.onLane index Kin.pop) caught r') : Unwinds p index r caught r'

end Roster

/-- What a step begins with. -/
theorem Tick.Steady.shows {σ : Type} {p : Program} {index : Nat} {t : Tick σ} (steady : t.Steady p)
    (orderly : t.roster.Orderly) (h : index < t.agent.lanes.lanes.size) :
    t.Shows p index 1 t.world.now t.roster := by
  have hv := LaneStack.getElem?_view_eq_some_iff.mpr ⟨_, Array.getElem?_eq_getElem h, rfl⟩
  refine ⟨⟨steady.ordered, steady.suits, steady.framed, fun i v hv _ => steady.occupied i v hv, ⟨_, hv, ?_⟩,
    fun _ => trivial, fun _ => trivial⟩, rfl, rfl, orderly⟩
  exact List.length_pos_of_ne_nil (steady.occupied _ _ hv)

namespace Tick.Shows

variable {σ : Type} {p : Program} {index depth : Nat} {now : UInt64} {r : Roster σ} {t : Tick σ}

theorem lanes (shown : t.Shows p index depth now r) : t.agent.lanes.kin = r.lanes :=
  congrArg Roster.lanes shown.roster

theorem lane_lt (shown : t.Shows p index depth now r) : index < r.lanes.length := by
  rw [← shown.lanes, LaneStack.length_kin]
  exact shown.sound.index_lt

/-- What is seen of the lane that has its turn. -/
theorem view_of (shown : t.Shows p index depth now r) {k : Kin} (hk : r.lanes[index]? = some k) :
    ∃ lane, t.agent.lanes.lanes[index]? = some lane ∧ lane.id = k.id ∧ t.agent.lanes.liveFrames lane = k.frames := by
  rw [← shown.lanes, LaneStack.getElem?_kin, LaneStack.getElem?_view, Option.map_map] at hk
  obtain ⟨lane, hlane, rfl⟩ := Option.map_eq_some_iff.mp hk
  exact ⟨lane, hlane, rfl, rfl⟩

theorem lane_of (shown : t.Shows p index depth now r) {k : Kin} (hk : r.lanes[index]? = some k) :
    ∃ lane, Act.lane index t = .ok (lane, t) ∧ lane.id = k.id ∧ lane.count = k.frames.length := by
  obtain ⟨lane, hlane, hid, hframes⟩ := shown.view_of hk
  refine ⟨lane, ?_, hid, ?_⟩
  · rw [Act.lane_apply, LaneStack.lane_of_getElem? hlane]
    rfl
  · rw [← hframes, shown.sound.ordered.length_liveFrames hlane]

theorem kin_of (shown : t.Shows p index depth now r) : ∃ k, r.lanes[index]? = some k :=
  ⟨_, List.getElem?_eq_getElem shown.lane_lt⟩

theorem top?_of (shown : t.Shows p index depth now r) {k : Kin} (hk : r.lanes[index]? = some k) :
    t.agent.lanes.top? index = .ok k.frames.getLast? := by
  obtain ⟨lane, hlane, -, hframes⟩ := shown.view_of hk
  rw [LaneStack.top?_eq shown.sound.ordered hlane, hframes]

/-- The lane has as many frames as its roster says. -/
theorem deepen (shown : t.Shows p index depth now r) {k : Kin} (hk : r.lanes[index]? = some k) {depth' : Nat}
    (h : depth' ≤ k.frames.length) : t.Shows p index depth' now r := by
  obtain ⟨lane, hlane, -, hframes⟩ := shown.view_of hk
  have hv := LaneStack.getElem?_view_eq_some_iff.mpr ⟨lane, hlane, rfl⟩
  exact ⟨shown.sound.deepen hv (by rwa [← hframes] at h), shown.roster, shown.now, shown.orderly⟩

end Tick.Shows

namespace Roster

variable {σ : Type} [QuerySystem σ] {p : Program} {index : Nat} {r : Roster σ}

omit [QuerySystem σ] in
theorem Top.onLane {k : Kin} {frame : Frame} {node : Node} (top : r.Top p index k frame node) (f : Kin → Kin) :
    (r.onLane index f).lanes[index]? = some (f k) := by
  rw [Roster.onLane, List.getElem?_modify, top.lane]
  simp

/-- The lane that releases another one stays as it is. -/
theorem Releases.kept {thread : NodeId} {r' : Roster σ} (releases : r.Releases index thread r') {k : Kin}
    (hk : r.lanes[index]? = some k) : r'.lanes[index]? = some k := by
  cases releases with
  | nothing _ _ => exact hk
  | lane hk' _ _ _ _ _ hkept => rwa [Option.some.inj (hk.symm.trans hk')]

theorem Releases.orderly {thread : NodeId} {r' : Roster σ} (releases : r.Releases index thread r')
    (orderly : r.Orderly) : r'.Orderly := by
  cases releases with
  | nothing _ _ => exact orderly
  | lane _ _ _ _ _ _ _ => exact orderly.remove _

theorem Releases.next_eq {thread : NodeId} {r' : Roster σ} (releases : r.Releases index thread r') : r'.next = r.next := by
  cases releases with
  | nothing _ _ => rfl
  | lane _ _ _ _ _ _ _ => rw [remove, withdraw_next]

theorem Unwinds.orderly {caught : Bool} {r' : Roster σ} (unwinds : r.Unwinds p index caught r') (orderly : r.Orderly) :
    r'.Orderly := by
  induction unwinds with
  | empty _ _ => exact orderly
  | «catch» _ _ => exact orderly.onLane index fun _ => ⟨rfl, rfl⟩
  | thread _ _ releases _ ih => exact ih ((releases.orderly orderly).onLane index fun _ => ⟨rfl, rfl⟩)
  | skip _ _ _ ih => exact ih (orderly.onLane index fun _ => ⟨rfl, rfl⟩)

theorem Unwinds.next_eq {caught : Bool} {r' : Roster σ} (unwinds : r.Unwinds p index caught r') : r'.next = r.next := by
  induction unwinds with
  | empty _ _ => rfl
  | «catch» _ _ => rfl
  | thread _ _ releases _ ih => exact ih.trans releases.next_eq
  | skip _ _ _ ih => exact ih

end Roster

namespace Act

variable {σ : Type} [QuerySystem σ] {p : Program} {index : Nat} {now : UInt64} {r : Roster σ} {t : Tick σ}

theorem unwind_unwinds (fuel : Nat) {t : Tick σ} {r : Roster σ} (shown : t.Shows p index 0 now r) {k : Kin}
    (hk : r.lanes[index]? = some k) (hfuel : k.frames.length ≤ fuel) :
    (unwind p index fuel).Leads t fun caught t' =>
      ∃ r', r.Unwinds p index caught r' ∧ t'.Shows p index 0 now r' := by
  induction fuel generalizing t r k with
  | zero => exact .pure ⟨r, .empty hk (List.length_eq_zero_iff.mp (by omega)), shown⟩
  | succ fuel ih =>
    have htop := shown.top?_of hk
    unfold unwind
    refine .bind_of_eq (by rw [top?_apply, htop]; rfl) ?_
    cases hlast : k.frames.getLast? with
    | none => exact .pure ⟨r, .empty hk (List.getLast?_eq_none_iff.mp hlast), shown⟩
    | some frame =>
      rw [hlast] at htop
      have hpos := List.length_pos_of_mem (List.mem_of_getLast? hlast)
      have shown := shown.deepen hk hpos
      obtain ⟨-, hknown⟩ := shown.sound.of_top htop
      obtain ⟨node, hnode⟩ := Program.node?_of_lt hknown
      have top : r.Top p index k frame node := ⟨hk, hlast, hnode⟩
      have hpop {t : Tick σ} {r : Roster σ} (shown : t.Shows p index 1 now r) (hk : r.lanes[index]? = some k) :
          (do pop index; unwind p index fuel : Act σ Bool).Leads t fun caught t' =>
            ∃ r', (r.onLane index Kin.pop).Unwinds p index caught r' ∧ t'.Shows p index 0 now r' := by
        refine .seq (pop_shows shown) fun _ t shown => ih shown (k := k.pop) ?_ ?_
        · rw [Roster.onLane, List.getElem?_modify, hk]
          simp
        · rw [Kin.pop, List.length_dropLast]
          omega
      refine .bind_of_eq (node_eq hnode) ?_
      split
      next child hchild =>
        refine .seq (emit_shows shown hknown .catch) fun _ t shown => ?_
        exact .seq (pop_shows shown) fun _ t shown => .pure ⟨_, .catch top (by simpa using hchild), shown⟩
      next main thread hthread =>
        refine .seq (abortThread_shows shown hknown thread) ?_
        rintro _ t ⟨r', releases, shown⟩
        refine (hpop shown (releases.kept hk)).mono ?_
        rintro caught t ⟨r'', unwinds, shown⟩
        exact ⟨r'', .thread top (by simpa using hthread) releases unwinds, shown⟩
      next hcatch hthread =>
        refine (hpop shown hk).mono ?_
        rintro caught t ⟨r', unwinds, shown⟩
        refine ⟨r', .skip top ?_ unwinds, shown⟩
        rintro (hkind | hkind)
        · obtain ⟨child, rfl⟩ := Node.exists_of_kind_catch hkind
          simpa using hcatch child rfl
        · obtain ⟨main, thread, rfl⟩ := Node.exists_of_kind_parallel hkind
          simpa using hthread main thread rfl

/-- What a failure does before it is known whether it is caught. -/
def raise (p : Program) (index : Nat) (id : NodeId) : Act σ Bool := do
  emit p index id .fail
  pop index
  unwind p index (← lane index).count

theorem fail_eq (p : Program) (index : Nat) (id : NodeId) :
    fail p index id = (do if ← raise p index id then return .goOn else restart index : Act σ Outcome) := by
  simp only [fail, raise, bind_assoc]

theorem raise_unwinds (shown : t.Shows p index 1 now r) {k : Kin} (hk : r.lanes[index]? = some k) {id : NodeId}
    (h : id.toNat < p.size) :
    (raise p index id).Leads t fun caught t' =>
      ∃ r', (r.onLane index Kin.pop).Unwinds p index caught r' ∧ t'.Shows p index 0 now r' := by
  refine .seq (emit_shows shown h .fail) fun _ t shown => .seq (pop_shows shown) fun _ t shown => ?_
  have hpop : (r.onLane index Kin.pop).lanes[index]? = some k.pop := by simp [Roster.onLane, hk]
  obtain ⟨lane, hlane, -, hcount⟩ := shown.lane_of hpop
  exact .bind_of_eq hlane (unwind_unwinds _ shown hpop (Nat.le_of_eq hcount.symm))

/-- What a step executes. -/
theorem step_top {t : Tick σ} (steady : t.Steady p) (orderly : t.roster.Orderly)
    (h : index < t.agent.lanes.lanes.size) :
    t.Shows p index 1 t.world.now t.roster ∧ ∃ k frame node, t.roster.Top p index k frame node ∧
      frame.node.toNat < p.size ∧ (¬ p.IsLaneRoot frame.node → 1 < k.frames.length) ∧
      ∀ rootVisited, step p index rootVisited t = stepNode p index frame (k.frames.length = 1) rootVisited node t := by
  obtain ⟨frame, node, htop, hnode⟩ := steady.top h
  have shown := steady.shows orderly h
  have sound := shown.sound
  obtain ⟨k, hk⟩ := shown.kin_of
  have hlast : k.frames.getLast? = some frame := Except.ok.inj ((shown.top?_of hk).symm.trans htop)
  obtain ⟨lane, hlane, -, hcount⟩ := shown.lane_of hk
  rw [lane_eq h] at hlane
  obtain rfl : t.agent.lanes.lanes[index] = lane := congrArg Prod.fst (Except.ok.inj hlane)
  refine ⟨shown, k, frame, node, ⟨hk, hlast, hnode⟩, (sound.of_top htop).2, fun hroot => ?_, fun rootVisited => ?_⟩
  · obtain ⟨v, hv, hdeep⟩ := (sound.above_root htop hroot).deep
    obtain ⟨lane, hlane, -, hframes⟩ := shown.view_of hk
    obtain ⟨lane', hlane', rfl⟩ := LaneStack.getElem?_view_eq_some_iff.mp hv
    obtain rfl := Option.some.inj (hlane.symm.trans hlane')
    exact hframes ▸ hdeep
  · rw [step_eq h htop hnode, hcount]

end Act

end BehaviorTree
