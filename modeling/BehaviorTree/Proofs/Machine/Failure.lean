import BehaviorTree.Proofs.Machine.Descent
import BehaviorTree.Proofs.Machine.Structured

/-! Failures along runs. A step that fails returns unless ids run out; it leaves of its lane what stands below the
nearest catch in progress, takes away the lanes that the frames above started, with their descendants, and changes
nothing else. Without a catch the agent starts over. -/

namespace BehaviorTree

open Refusal

/-- A node that raises a failure. -/
def Node.GivesUp (childIndex : UInt16) (s : Surroundings) : Node → Prop
  | .fail => True
  | .selector branches => childIndex = 0 ∧ ∀ branch ∈ branches, s.evaluateBool branch.guard ≠ .ok true
  | _ => False

namespace LaneStack

variable {s s' : LaneStack}

theorem abortInto_arena (fuel : Nat) (s : LaneStack) (index : Nat) (removed : Array Lane) :
    (abortInto fuel s index removed).2.arena = s.arena := by
  induction fuel generalizing s index removed with
  | zero => rfl
  | succ fuel ih =>
    rw [abortInto]
    split
    · exact (ih _ _ _).trans (ih _ _ _)
    · split <;> rfl

/-- The first lane finds room where there were frames before. -/
theorem createPrimary_of_pos (h : s.lanes = #[]) (hpos : 0 < s.arena.size) (root : NodeId) (id : LaneId) :
    ∃ s', s.createPrimary root id = .ok s' := by
  have hopen : s.openPrimary id = .ok { s with lanes := #[⟨id, 0, 0, none, 0⟩] } := by
    rw [openPrimary, h]
    rfl
  have hroom : regionEnd { s with lanes := #[⟨id, 0, 0, none, 0⟩] } 0 = s.arena.size := rfl
  have hspace : ensureRoom { s with lanes := #[⟨id, 0, 0, none, 0⟩] } 0 0 =
      .ok { s with lanes := #[⟨id, 0, 0, none, 0⟩] } := by
    rw [ensureRoom, hroom, if_neg hpos.ne]
  refine ⟨modifyLane { s with lanes := #[⟨id, 0, 0, none, 0⟩], arena := s.arena.set 0 (.start root) hpos } 0 fun lane =>
    { lane with count := lane.count + 1 }, ?_⟩
  rw [createPrimary, hopen]
  show (ensureRoom { s with lanes := #[⟨id, 0, 0, none, 0⟩] } 0 0 >>= _) = _
  rw [hspace]
  exact dif_pos hpos

end LaneStack

namespace Act

variable {σ α β : Type}

/-! ### Acts that ask for nothing -/

/-- An act that needs neither ids nor memory. -/
def Thrifty (act : Act σ α) : Prop :=
  ∀ t, act.Ensures t (fun fault => fault ≠ .overflow ∧ fault ≠ .tooLarge) fun _ t' =>
    t'.agent.lanes.arena = t.agent.lanes.arena

namespace Thrifty

theorem pure (a : α) : (Pure.pure a : Act σ α).Thrifty :=
  fun _ => .pure rfl

theorem bind {act : Act σ α} {next : α → Act σ β} (h : act.Thrifty) (hnext : ∀ a, (next a).Thrifty) :
    (act >>= next).Thrifty :=
  fun t => .seq (h t) fun a t' hsame => (hnext a t').mono fun _ _ hsame' => hsame'.trans hsame

theorem get_bind {next : Tick σ → Act σ β} (h : ∀ t, (next t).Thrifty) : (get >>= next).Thrifty :=
  fun t => .bind_of_eq rfl (h t t)

theorem lift {x : Except Fault α} (h : ∀ fault, x = .error fault → fault ≠ .overflow ∧ fault ≠ .tooLarge) :
    (liftM x : Act σ α).Thrifty := by
  intro t
  cases x with
  | error fault => exact .of_error (show _ = Except.error fault from rfl) (h fault rfl)
  | ok a => exact .of_eq (show _ = Except.ok (a, t) from rfl) rfl

theorem forM {f : α → Act σ Unit} (h : ∀ a, (f a).Thrifty) (items : List α) : (items.forM f).Thrifty := by
  induction items with
  | nil => exact pure ()
  | cons a items ih =>
    rw [List.forM_eq_forM, List.forM_cons]
    exact (h a).bind fun _ => ih

theorem notice (n : Notice) : (Act.notice n : Act σ Unit).Thrifty :=
  fun _ => .of_eq rfl rfl

theorem setHolder (holder : Option QueryRequest) : (Act.setHolder holder : Act σ Unit).Thrifty :=
  fun _ => .of_eq rfl rfl

theorem onLanes {index : Nat} {f : LaneStack → Except Fault (α × LaneStack)}
    (h : ∀ s fault, f s = .error fault → fault ≠ .overflow ∧ fault ≠ .tooLarge)
    (hsame : ∀ s a s', f s = .ok (a, s') → s'.arena = s.arena) : (Act.onLanes index f : Act σ α).Thrifty := by
  intro t
  cases hf : f t.agent.lanes with
  | error fault => exact .onLanes_error hf (h _ _ hf)
  | ok r => exact .onLanes hf fun _ => hsame _ _ _ hf

/-- A missing lane is no matter of supplies. -/
theorem of_lane {s : LaneStack} {index : Nat} {fault : Fault} (h : s.lane index = .error fault) :
    fault ≠ .overflow ∧ fault ≠ .tooLarge := by
  unfold LaneStack.lane at h
  split at h
  · cases h
  · rw [← Except.error.inj h]
    decide

theorem of_top {s : LaneStack} {index : Nat} {fault : Fault} (h : s.top? index = .error fault) :
    fault ≠ .overflow ∧ fault ≠ .tooLarge := by
  unfold LaneStack.top? at h
  cases hlane : s.lane index with
  | error other =>
    rw [hlane] at h
    exact Except.error.inj h ▸ of_lane hlane
  | ok lane =>
    rw [hlane] at h
    cases h

theorem lane (index : Nat) : (Act.lane index : Act σ Lane).Thrifty :=
  .get_bind fun _ => .lift fun _ => of_lane

theorem top? (index : Nat) : (Act.top? index : Act σ (Option Frame)).Thrifty :=
  .get_bind fun _ => .lift fun _ => of_top

theorem node (p : Program) (id : NodeId) : (Act.node p id : Act σ Node).Thrifty := by
  unfold Act.node
  split
  · exact .pure _
  · exact fun _ => .of_error rfl (by decide)

theorem emitFor (p : Program) (id : NodeId) (event : EventKind) (laneId : LaneId) (depth : Nat) :
    (Act.emitFor p id event laneId depth : Act σ Unit).Thrifty :=
  (node p id).bind fun _ => .get_bind fun _ => notice _

theorem emit (p : Program) (index : Nat) (id : NodeId) (event : EventKind) :
    (Act.emit p index id event : Act σ Unit).Thrifty :=
  (lane index).bind fun _ => emitFor p id event _ _

theorem pop (index : Nat) : (Act.pop index : Act σ Unit).Thrifty := by
  refine onLanes (fun s fault h => ?_) fun s a s' h => ?_
  · cases htop : s.top? index with
    | error other =>
      rw [LaneStack.pop, htop] at h
      exact Except.error.inj h ▸ of_top htop
    | ok top =>
      rw [LaneStack.pop, htop] at h
      cases top <;> cases h
  · obtain ⟨⟨top, s''⟩, hpop, hs⟩ := map_eq_ok_iff.mp h
    obtain ⟨top', -, hpop⟩ := bind_eq_ok_iff.mp hpop
    obtain rfl : s'' = s' := congrArg Prod.snd hs
    cases top' <;> exact (congrArg (·.2.arena) (Except.ok.inj hpop)).symm

section Queries

variable [QuerySystem σ]

theorem cancel (request : QueryRequest) : (Act.cancel request : Act σ Unit).Thrifty :=
  fun _ => .of_eq (onWorld_eq rfl) rfl

theorem abort (p : Program) (index : Nat) (id : NodeId) (owned : Nat) :
    (Act.abort p index id owned : Act σ Unit).Thrifty := by
  have hremoves : (Act.onLanes index fun s => s.abort owned : Act σ (List Lane)).Thrifty := by
    refine onLanes (fun s fault h => ?_) fun s a s' h => ?_
    · unfold LaneStack.abort at h
      split_ifs at h <;> rw [← Except.error.inj h] <;> simp
    · unfold LaneStack.abort at h
      split_ifs at h
      obtain ⟨-, rfl⟩ := Prod.mk.inj (Except.ok.inj h)
      exact LaneStack.abortInto_arena _ s owned #[]
  refine (lane index).bind fun lane => hremoves.bind fun removed => .forM (fun gone => ?_) _
  have hreport : (Act.emitFor p id .abort gone.id lane.count : Act σ Unit).Thrifty :=
    emitFor p id .abort gone.id lane.count
  refine .get_bind fun t => ?_
  cases t.agent.holder with
  | none => exact hreport
  | some request =>
    dsimp only
    split_ifs
    · exact (setHolder none).bind fun _ => (cancel request).bind fun _ => hreport
    · exact hreport

theorem abortThread (p : Program) (index : Nat) (id thread : NodeId) :
    (Act.abortThread p index id thread : Act σ Unit).Thrifty := by
  refine .get_bind fun t => ?_
  cases t.agent.lanes.findOwned? index thread with
  | none => exact .pure ()
  | some owned => exact abort p index id owned

theorem unwind (p : Program) (index depth : Nat) : (Act.unwind p index depth : Act σ Bool).Thrifty := by
  induction depth with
  | zero => exact .pure false
  | succ depth ih =>
    unfold Act.unwind
    refine (top? index).bind fun top => ?_
    cases top with
    | none => exact .pure false
    | some frame =>
      refine (node p frame.node).bind fun node => ?_
      split
      · exact (emit p index frame.node .catch).bind fun _ => (pop index).bind fun _ => .pure true
      · exact (abortThread p index frame.node _).bind fun _ => (pop index).bind fun _ => ih
      · exact (pop index).bind fun _ => ih

end Queries

/-- An act that needs nothing returns if it could be refused for nothing else. -/
theorem returns {act : Act σ α} (thrifty : act.Thrifty) {t : Tick σ} {post post' : α → Tick σ → Prop}
    (h : act.Ensures t (fun fault => fault = .overflow ∨ fault = .tooLarge) post) (leads : act.Leads t post') :
    ∃ a t', act t = .ok (a, t') ∧ post' a t' ∧ t'.agent.lanes.arena = t.agent.lanes.arena := by
  have harena := thrifty t
  unfold Leads at leads
  unfold Ensures at h harena leads
  cases hact : act t with
  | error fault =>
    rw [hact] at h harena
    exact (h.elim harena.1 harena.2).elim
  | ok r =>
    rw [hact] at leads harena
    exact ⟨r.1, r.2, rfl, leads, harena⟩

end Thrifty

/-! ### A failure that returns -/

section Returns

variable [QuerySystem σ] {p : Program} {index depth : Nat} {now : UInt64} {r : Roster σ} {t : Tick σ}

/-- The lane is unwound, and memory stays. -/
theorem raise_returns (shown : t.Shows p index 1 now r) {k : Kin} (hk : r.lanes[index]? = some k) {id : NodeId}
    (h : id.toNat < p.size) :
    ∃ caught t', raise p index id t = .ok (caught, t') ∧
      ((∃ r', (r.onLane index Kin.pop).Unwinds p index caught r' ∧ t'.Shows p index 0 now r') ∧
        t'.world.memory = t.world.memory) ∧ t'.agent.lanes.arena = t.agent.lanes.arena := by
  have thrifty : (raise p index id : Act σ Bool).Thrifty :=
    (Thrifty.emit p index id .fail).bind fun _ => (Thrifty.pop index).bind fun _ => (Thrifty.lane index).bind fun lane =>
      Thrifty.unwind p index lane.count
  have still : (raise p index id : Act σ Bool).Still :=
    (Reports.emit p index id .fail).inner.still.bind fun _ => (Inner.pop index).still.bind fun _ =>
      (Reports.lane index).inner.still.bind fun lane => Still.unwind p index lane.count
  have sound := shown.sound
  have sound : t.Sound p (fun fault => fault = .overflow ∨ fault = .tooLarge) index 1 0 0 :=
    ⟨sound.ordered, sound.suits, sound.framed, sound.occupied, sound.deep, fun _ => .inl rfl, fun _ => .inr rfl⟩
  have refusals : (raise p index id).Ensures t (fun fault => fault = .overflow ∨ fault = .tooLarge) fun _ _ => True := by
    refine .seq (emit_ensures sound h .fail) fun _ t sound => .seq (pop_ensures sound) fun _ t sound => ?_
    exact .bind_of_eq (lane_eq sound.index_lt) ((unwind_ensures sound _).mono fun _ _ _ => trivial)
  exact thrifty.returns refusals ((raise_unwinds shown hk h).and (still t))

/-- The agent starts over as long as there is an id for its lane. -/
theorem restart_returns (shown : t.Shows p index depth now r) (hpos : 0 < t.agent.lanes.arena.size) :
    0x100000000 ≤ r.next + 1 ∧ restart index t = .error .overflow ∨
      r.next + 1 < 0x100000000 ∧ ∃ t', restart index t = .ok (if index = 0 then .goOn else .suspend, t') ∧
        t'.roster = r.restart ∧ t'.world.now = now ∧ t'.world.memory = t.world.memory := by
  have hnext : t.agent.nextLane = r.next := congrArg Roster.next shown.roster
  have hbegin {t' : Tick σ} (harena : t'.agent.lanes.arena = t.agent.lanes.arena) (hids : t'.agent.nextLane = r.next) :
      (do
        onLanes index fun s => .ok ((), s.reset)
        createPrimary
        return if index = 0 then .goOn else .suspend : Act σ Outcome).Ensures t'
          (fun fault => fault = .overflow ∧ 0x100000000 ≤ r.next + 1) fun _ _ => r.next + 1 < 0x100000000 := by
    refine .bind (.onLanes rfl fun notices => .bind ?_)
    by_cases h : r.next + 1 < 0x100000000
    · obtain ⟨lanes, hcreate⟩ :=
        LaneStack.createPrimary_of_pos (s := t'.agent.lanes.reset) rfl (harena ▸ hpos) .root r.next
      refine .bind_of_eq (freshLane_of_lt (hids ▸ h)) ?_
      exact .onLanes (a := ()) (by rw [hids]; simp only [hcreate]; rfl) fun _ => .pure h
    · have hle := Nat.le_of_not_lt h
      exact .bind (.of_error (freshLane_of_le (hids ▸ hle)) ⟨rfl, hle⟩)
  have hrestart : (restart index).Ensures t (fun fault => fault = .overflow ∧ 0x100000000 ≤ r.next + 1) fun _ _ =>
      r.next + 1 < 0x100000000 := by
    refine .bind_of_eq (lane_eq shown.sound.index_lt) (.bind_of_eq rfl (.bind_of_eq rfl ?_))
    simp only
    cases t.agent.holder with
    | none => exact hbegin rfl hnext
    | some request => exact .bind_of_eq rfl (.bind_of_eq (onWorld_eq rfl) (hbegin rfl hnext))
  have leads := (restart_roster shown).and (Still.restart index t)
  unfold Ensures at hrestart leads
  cases h : restart index t with
  | error fault =>
    rw [h] at hrestart
    exact .inl ⟨hrestart.2, by rw [hrestart.1]⟩
  | ok result =>
    rw [h] at hrestart leads
    obtain ⟨⟨hroster, hnow, houtcome⟩, hmemory⟩ := leads
    exact .inr ⟨hrestart, result.2, by rw [← houtcome], hroster, hnow, hmemory⟩

omit [QuerySystem σ] in
/-- A selector of which no guard holds chooses nothing. -/
theorem choose_none {branches : List Branch} (t : Tick σ) (progress : Nat)
    (h : ∀ branch ∈ branches, (t.world.surroundings p).evaluateBool branch.guard = .ok false) :
    ∃ u, choose p branches progress t = .ok (none, u) ∧ u.agent = t.agent ∧ u.world = t.world := by
  induction branches generalizing t progress with
  | nil => exact ⟨t, rfl, rfl, rfl⟩
  | cons branch rest ih =>
    obtain ⟨u, hu, hagent, hworld⟩ :=
      ih { t with notices := t.notices.push (.evaluated branch.guard) } (progress + 1) fun other hother =>
        h other (List.mem_cons_of_mem _ hother)
    refine ⟨u, ?_, hagent, hworld⟩
    rw [choose]
    exact (bind_eq (evaluateWith_eq (h branch List.mem_cons_self))).trans hu

end Returns

end Act

namespace Tick

variable {σ : Type} {p : Program} {spawns : Spawns} {index : Nat} {v : LaneView} {frame : Frame} {t : Tick σ}

/-- The next step of the lane raises a failure. -/
structure Failing (p : Program) (index : Nat) (v : LaneView) (frame : Frame) (t : Tick σ) : Prop where
  lane : t.agent.lanes.view[index]? = some v
  top : v.frames.getLast? = some frame
  gives : ∃ node, p.node? frame.node = some node ∧ node.GivesUp frame.childIndex (t.world.surroundings p)

variable [QuerySystem σ]

/-- What a failure has changed that a catch has stopped, of which `below` stands below. -/
structure Caught (spawns : Spawns) (v : LaneView) (below : List Frame) (t t' : Tick σ) : Prop where
  memory : t'.world.memory = t.world.memory
  now : t'.world.now = t.world.now
  next : t'.agent.nextLane = t.agent.nextLane
  /-- The lanes that the frames above the catch started go with their descendants, and with them the query in flight
  if one of them asked it. The other lanes keep all that they have, but for the frames of the lane itself. -/
  lanes : ∃ gone, v.id ∉ gone ∧ (∀ id, id ∈ gone ↔ ∃ s ∈ spawns v.id, below.length < s.place ∧
      Kin.Descends t.agent.lanes.kin s.lane id) ∧
    t'.agent.lanes.kin = (Kin.without gone t.agent.lanes.kin).map (Kin.cut v.id below) ∧
    t.roster.Withdraws (· ∈ gone) t'.roster

/-- What a failure has changed that nobody has stopped: there is one lane, which is new, at the root. -/
structure Anew (t t' : Tick σ) : Prop where
  memory : t'.world.memory = t.world.memory
  now : t'.world.now = t.world.now
  next : t'.agent.nextLane = t.agent.nextLane + 1
  fresh : ∀ w ∈ t.agent.lanes.view, w.id < t.agent.nextLane
  lanes : t'.agent.lanes.kin = [⟨t.agent.nextLane, none, 0, [.start .root]⟩]
  query : t.roster.Withdraws (fun id => ∃ w ∈ t.agent.lanes.view, w.id = id) t'.roster

/-- A failing step returns, with one of these effects, as long as there are ids for lanes. -/
structure Unwound (p : Program) (spawns : Spawns) (index : Nat) (t : Tick σ) : Prop where
  caught : ∀ v frame below catcher above rootVisited, t.Failing p index v frame →
    v.frames = below ++ catcher :: (above ++ [frame]) → p.Catching catcher → (∀ f ∈ above, ¬ p.Catching f) →
    ∃ t', Act.step p index rootVisited t = .ok (.goOn, t') ∧ t.Caught spawns v below t'
  lost : ∀ v frame rootVisited, t.Failing p index v frame → (∀ f ∈ v.frames, ¬ p.Catching f) →
    0x100000000 ≤ t.agent.nextLane + 1 ∧ Act.step p index rootVisited t = .error .overflow ∨
      t.agent.nextLane + 1 < 0x100000000 ∧
        ∃ t', Act.step p index rootVisited t = .ok (if index = 0 then .goOn else .suspend, t') ∧ t.Anew t'

namespace Failing

/-- The step fails, and has changed nothing before. -/
theorem step_eq (failing : t.Failing p index v frame) (valid : p.Valid) (steady : t.Steady p) :
    ∃ u, (∀ rootVisited, Act.step p index rootVisited t = Act.fail p index frame.node u) ∧ u.agent = t.agent ∧
      u.world = t.world := by
  obtain ⟨lane, hlane, rfl⟩ := LaneStack.getElem?_view_eq_some_iff.mp failing.lane
  obtain ⟨node, hnode, hgives⟩ := failing.gives
  have hindex := (Array.getElem?_eq_some_iff.mp hlane).1
  have htop : t.agent.lanes.top? index = .ok (some frame) := by
    rw [LaneStack.top?_eq steady.ordered hlane]
    exact congrArg Except.ok failing.top
  have hstep := Act.step_eq hindex htop hnode
  cases node with
  | fail => exact ⟨t, hstep, rfl, rfl⟩
  | selector branches =>
    obtain ⟨hfirst, hguards⟩ := hgives
    have hvalid := valid.node hnode
    have hfalse (branch : Branch) (hbranch : branch ∈ branches) :
        (t.world.surroundings p).evaluateBool branch.guard = .ok false := by
      obtain ⟨b, hb⟩ := Surroundings.evaluateBool_ok valid steady.suits
        (hvalid.values branch.guard (List.mem_map_of_mem hbranch)) (hvalid.payload.2 branch hbranch)
      cases b with
      | true => exact absurd hb (hguards branch hbranch)
      | false => exact hb
    obtain ⟨u, hu, hagent, hworld⟩ := Act.choose_none t 0 hfalse
    refine ⟨u, fun rootVisited => ?_, hagent, hworld⟩
    rw [hstep, Act.stepNode, hfirst]
    exact Act.bind_eq hu
  | _ => exact hgives.elim

omit [QuerySystem σ] in
/-- The last frame of the lane is of the node that fails, which is no parallel node. -/
theorem exists_top (failing : t.Failing p index v frame) :
    ∃ node, t.roster.Top p index (t.agent.lanes.kinOf v) frame node ∧ node.kind ≠ .parallel := by
  obtain ⟨node, hnode, hgives⟩ := failing.gives
  refine ⟨node, ⟨?_, failing.top, hnode⟩, ?_⟩
  · rw [show t.roster.lanes = t.agent.lanes.kin from rfl, LaneStack.getElem?_kin, failing.lane]
    rfl
  · cases node <;> simp [Node.GivesUp, Node.kind] at hgives ⊢

/-- How far the step has come when it is known whether the failure is caught. -/
theorem raised (failing : t.Failing p index v frame) (valid : p.Valid) (steady : t.Steady p)
    (tallied : t.roster.Tallied p spawns) :
    ∃ caught u below gone, (∀ rootVisited, Act.step p index rootVisited t =
        (if caught then return .goOn else Act.restart index : Act σ Outcome) u) ∧
      u.Shows p index 0 t.world.now ((t.roster.remove gone).cut v.id below) ∧ u.world.memory = t.world.memory ∧
      0 < u.agent.lanes.arena.size ∧ p.Falls v.frames.dropLast caught below ∧ v.id ∉ gone ∧
      ∀ id, id ∈ gone ↔ ∃ s ∈ spawns v.id, below.length ≤ s.place ∧ Kin.Descends t.agent.lanes.kin s.lane id := by
  obtain ⟨u, hstep, hagent, hworld⟩ := failing.step_eq valid steady
  obtain ⟨node, top, hkind⟩ := failing.exists_top
  obtain ⟨lane, hlane, rfl⟩ := LaneStack.getElem?_view_eq_some_iff.mp failing.lane
  have hk := top.lane
  have shown := steady.shows tallied.orderly (Array.getElem?_eq_some_iff.mp hlane).1
  have shown : u.Shows p index 1 t.world.now t.roster :=
    ⟨shown.sound.of_same (by rw [hagent]) (by rw [hagent]) (hworld ▸ steady.suits), by rw [Tick.roster, hagent, hworld]; rfl,
      by rw [hworld], tallied.orderly⟩
  have hquiet := top.running?_eq fun h => absurd h hkind
  obtain ⟨caught, u', hraise, ⟨⟨r', unwinds, shown'⟩, hmemory⟩, harena⟩ :=
    Act.raise_returns shown hk ((steady.framed _ _ failing.lane).known frame (List.mem_of_getLast? failing.top))
  obtain ⟨below, gone, falls, rfl, hstays, hgone⟩ :=
    unwinds.removes (tallied.drop top hkind (fun _ => ⟨rfl, rfl⟩) rfl) (top.onLane Kin.pop)
  have hpop := tallied.orderly.pop_remove_cut hk gone below
  refine ⟨caught, u', below, gone, fun rootVisited => ?_, hpop ▸ shown', hworld ▸ hmemory, ?_, falls, hstays, fun id => ?_⟩
  · rw [hstep, Act.fail_eq]
    exact Act.bind_eq hraise
  · -- the lane has a frame, so that there is room for the root if the agent has to start over
    have hend := steady.ordered.end_le_size hlane
    have hcount := steady.ordered.length_liveFrames hlane
    have hpos := List.length_pos_of_mem (List.mem_of_getLast? failing.top)
    rw [harena, hagent]
    have hcount' : (t.agent.lanes.viewOf lane).frames.length = lane.count := hcount
    omega
  · -- the frame that fails has started nothing itself
    rw [hgone, tallied.orderly.descends_pop hk]
    refine exists_congr fun s => ?_
    rw [Roster.mem_of_pop, tallied.full _ (List.mem_of_getElem? hk)]
    constructor
    · rintro ⟨⟨hs, -⟩, h⟩
      exact ⟨hs, h⟩
    · rintro ⟨hs, h⟩
      have hplace := (tallied.fit index).place_lt top hquiet (tallied.full _ (List.mem_of_getElem? hk) ▸ hs)
      exact ⟨⟨hs, hplace⟩, h⟩

theorem caught (failing : t.Failing p index v frame) (valid : p.Valid) (steady : t.Steady p)
    (tallied : t.roster.Tallied p spawns) {below above : List Frame} {catcher : Frame}
    (hframes : v.frames = below ++ catcher :: (above ++ [frame])) (hcatch : p.Catching catcher)
    (habove : ∀ f ∈ above, ¬ p.Catching f) (rootVisited : Bool) :
    ∃ t', Act.step p index rootVisited t = .ok (.goOn, t') ∧ t.Caught spawns v below t' := by
  obtain ⟨caught, u, below', gone, hstep, shown, hmemory, -, falls, hstays, hgone⟩ :=
    failing.raised valid steady tallied
  have hdrop : v.frames.dropLast = below ++ catcher :: above := by
    rw [hframes, ← List.cons_append, ← List.append_assoc, List.dropLast_concat]
  obtain ⟨rfl, rfl⟩ := falls.of_catching hdrop hcatch habove
  have hmem : t.agent.lanes.kinOf v ∈ t.roster.lanes := List.mem_map_of_mem (List.mem_of_getElem? failing.lane)
  refine ⟨u, hstep rootVisited, hmemory, shown.now, ?_, gone, hstays, fun id => ?_, ?_, ?_⟩
  · exact (congrArg Roster.next shown.roster).trans (Roster.withdraw_next _ _)
  · -- the catch itself has started nothing
    rw [hgone]
    refine exists_congr fun s => and_congr_right fun hs => and_congr_left fun _ => ⟨fun hle => ?_, Nat.le_of_lt⟩
    refine Nat.lt_of_le_of_ne hle fun hplace => ?_
    obtain ⟨other, hother, hrunning⟩ := (tallied.fit index).running hmem ((tallied.full _ hmem).symm ▸ hs)
    have hother : v.frames[s.place]? = some other := hother
    rw [hframes, ← hplace, List.getElem?_append_right (Nat.le_refl _), Nat.sub_self] at hother
    obtain rfl : catcher = other := Option.some.inj hother
    cases hcatch.running?_eq.symm.trans hrunning
  · refine (congrArg Roster.lanes shown.roster).trans ?_
    rw [Roster.cut, Roster.lanes_remove]
    rfl
  · rw [shown.roster]
    exact Roster.withdraws_remove_cut gone v.id _ t.roster

theorem lost (failing : t.Failing p index v frame) (valid : p.Valid) (steady : t.Steady p)
    (tallied : t.roster.Tallied p spawns) (held : t.roster.Held) (hnone : ∀ f ∈ v.frames, ¬ p.Catching f)
    (rootVisited : Bool) :
    0x100000000 ≤ t.agent.nextLane + 1 ∧ Act.step p index rootVisited t = .error .overflow ∨
      t.agent.nextLane + 1 < 0x100000000 ∧
        ∃ t', Act.step p index rootVisited t = .ok (if index = 0 then .goOn else .suspend, t') ∧ t.Anew t' := by
  obtain ⟨caught, u, below, gone, hstep, shown, hmemory, hpos, falls, -, -⟩ := failing.raised valid steady tallied
  obtain ⟨rfl, -⟩ := falls.of_not_catching fun f hf => hnone f (List.mem_of_mem_dropLast hf)
  have hnext : ((t.roster.remove gone).cut v.id below).next = t.agent.nextLane := Roster.withdraw_next _ _
  rw [hstep rootVisited]
  refine (Act.restart_returns shown hpos).imp (fun h => ⟨hnext ▸ h.1, h.2⟩) fun ⟨hlt, t', h, hroster, hnow, hsame⟩ =>
    ⟨hnext ▸ hlt, t', h, ?_⟩
  rw [Roster.restart_remove_cut] at hroster
  have hbegin : (t.roster.withdraw fun _ => True).next = t.agent.nextLane := Roster.withdraw_next _ _
  refine ⟨hsame.trans hmemory, hnow, ?_, fun w hw => ?_, ?_, ?_⟩
  · exact (congrArg Roster.next hroster).trans (congrArg (· + 1) hbegin)
  · exact tallied.orderly.fresh (t.agent.lanes.kinOf w) (List.mem_map_of_mem hw)
  · refine (congrArg Roster.lanes hroster).trans ?_
    rw [Roster.restart, Roster.begin, hbegin]
  · have withdraws := Roster.withdraws_withdraw (fun _ => True) t.roster
    -- whoever asked the query in flight was there, and nobody is left
    rw [hroster]
    refine ⟨withdraws.idle, fun request h _ => withdraws.withdrawn request h trivial, fun request h hstays => ?_⟩
    have hlane := held request h
    rw [show t.roster.lanes = t.agent.lanes.kin from rfl, LaneStack.ids_kin] at hlane
    exact absurd (List.mem_map.mp hlane) hstays

end Failing

end Tick

namespace Program

variable {p : Program} {agent : Agent} {spawns : Spawns} {σ : Type} [QuerySystem σ] {t : Tick σ}

/-- Between two steps of a run, the lane that asked the query in flight is there. -/
theorem Lives.held (valid : p.Valid) (lives : p.Lives agent spawns) : agent.roster.Held := by
  induction lives with
  | @new capacity block agent h =>
    intro request hholder
    cases (Agent.empty_of_new h).2.symm.trans hholder
  | @begin σ t t' spawns _ _ hnone h ih =>
    have hroster := ((Act.createPrimary_roster hnone).of_ok h).1
    intro request hholder
    have hidle := ih request ((congrArg Roster.holder hroster).symm.trans hholder)
    simp [Agent.roster, LaneStack.kin, LaneStack.view, hnone] at hidle
  | @step σ _ t t' spawns index rootVisited outcome lives suits hindex h ih =>
    obtain ⟨steady, tallied⟩ := lives.tallied valid
    have moves := ((Act.step_moves valid ⟨steady, suits⟩ (tallied.orderly.same rfl rfl) hindex rootVisited).of_ok h).1
    have kept : t'.roster.Held := moves.held ih
    exact kept

theorem Lives.unwound (valid : p.Valid) (lives : p.Lives t.agent spawns) (suits : t.world.Suits p) (index : Nat) :
    t.Unwound p spawns index := by
  obtain ⟨steady, tallied⟩ := lives.tallied valid
  have tallied : t.roster.Tallied p spawns := tallied.same rfl rfl
  exact ⟨fun _ _ _ _ _ rootVisited failing hframes hcatch habove =>
      failing.caught valid ⟨steady, suits⟩ tallied hframes hcatch habove rootVisited,
    fun _ _ rootVisited failing hnone =>
      failing.lost valid ⟨steady, suits⟩ tallied (lives.held valid) hnone rootVisited⟩

/-- A failure unwinds its lane to the nearest catch in progress, or the agent starts over: in every step of a tick, and
in any step that a lane makes between two others. -/
theorem failure_unwinds (accepted : p.validate = .ok ()) :
    (∀ {σ : Type} [QuerySystem σ] (agent : Agent) (world : World σ) (maxCycles index : Nat) (u : Tick σ),
      p.Reaches agent → world.check p = .ok () → p.Visits maxCycles agent world index u →
      ∃ spawns, p.Lives u.agent spawns ∧ Tick.Unwound p spawns index { u with cycle := u.cycle + 1 }) ∧
    ∀ {σ : Type} [QuerySystem σ] (t : Tick σ) (spawns : Spawns) (index : Nat),
      p.Lives t.agent spawns → t.world.Suits p → t.Unwound p spawns index := by
  have valid : p.Valid := validate_eq_ok_iff.mp accepted
  refine ⟨?_, fun t spawns index lives suits => lives.unwound valid suits index⟩
  intro σ _ agent world maxCycles index u reaches checked visits
  obtain ⟨spawns, lives⟩ := reaches.lives valid
  have suits := World.suits_of_check checked
  obtain ⟨⟨spawns', lives'⟩, steady, -⟩ := visits.kept valid (lives_kept p) (lives.tallied valid).1 suits ⟨spawns, lives⟩
    fun t hnone h => ⟨spawns, .begin (t := ⟨agent, world, 0, #[]⟩) lives suits hnone h⟩
  exact ⟨spawns', lives', lives'.unwound (t := { u with cycle := u.cycle + 1 }) valid steady.suits index⟩

/-- A catch above a parallel node, the main child of which fails. -/
def shelter : Program where
  expressions := ⟨[], #[]⟩
  entries := #[.ofNode .nop, .ofNode (.root ⟨2⟩), .ofNode (.catch ⟨3⟩), .ofNode (.parallel ⟨4⟩ ⟨5⟩), .ofNode .fail,
    .ofNode (.threadRoot ⟨0⟩ true)]
  types := #[]
  lookups := #[]
  blackboardSize := 0

def shelterBegun : Tick QueryBoard :=
  Act.createPrimary.reached ⟨.fresh, .blank shelter (Memory.zeros 0) .empty, 0, #[]⟩

def shelterEntered : Tick QueryBoard :=
  (Act.step shelter 0 false).reached shelterBegun

def shelterGuarded : Tick QueryBoard :=
  (Act.step shelter 0 false).reached shelterEntered

def shelterForked : Tick QueryBoard :=
  (Act.step shelter 0 false).reached shelterGuarded

/-- The lane that the parallel node started goes, and the lane is back at its root. -/
theorem failure_unwinds_shelter : shelter.validate = .ok () ∧
    ∃ spawns v t', shelter.Lives shelterForked.agent spawns ∧ spawns 0 = [⟨2, ⟨5⟩, 1⟩] ∧
      shelterForked.Failing shelter 0 v ⟨⟨4⟩, 0⟩ ∧ v.frames = [⟨⟨1⟩, 1⟩, ⟨⟨2⟩, 1⟩, ⟨⟨3⟩, 1⟩, ⟨⟨4⟩, 0⟩] ∧
      Act.step shelter 0 false shelterForked = .ok (.goOn, t') ∧
      shelterForked.Caught spawns v [⟨⟨1⟩, 1⟩] t' := by
  have henter : Act.step shelter 0 false shelterBegun = .ok (.enterRoot, shelterEntered) :=
    Act.eq_reached (by decide +kernel)
  have hguard : Act.step shelter 0 false shelterEntered = .ok (.goOn, shelterGuarded) :=
    Act.eq_reached (by decide +kernel)
  have hfork : Act.step shelter 0 false shelterGuarded = .ok (.goOn, shelterForked) :=
    Act.eq_reached (by decide +kernel)
  have new : shelter.Lives Agent.fresh fun _ => [] := .new (show Agent.new 32 8 = .ok .fresh from rfl)
  have begun : shelter.Lives shelterBegun.agent fun _ => [] :=
    new.begin (t := ⟨.fresh, .blank shelter (Memory.zeros 0) .empty, 0, #[]⟩)
      (World.suits_of_check (by decide +kernel)) rfl (Act.eq_reached (by decide +kernel))
  have entered := begun.step (World.suits_of_check (by decide +kernel)) (by decide +kernel) henter
  have guarded := entered.step (World.suits_of_check (by decide +kernel)) (by decide +kernel) hguard
  have forked := guarded.step (World.suits_of_check (by decide +kernel)) (by decide +kernel) hfork
  have failing : shelterForked.Failing shelter 0
      ⟨0, none, 0, [⟨⟨1⟩, 1⟩, ⟨⟨2⟩, 1⟩, ⟨⟨3⟩, 1⟩, ⟨⟨4⟩, 0⟩]⟩ ⟨⟨4⟩, 0⟩ :=
    ⟨by cbv, rfl, .fail, rfl, trivial⟩
  have suits := World.suits_of_check (show shelterForked.world.check shelter = .ok () by decide +kernel)
  obtain ⟨t', hstep, caught⟩ := ((failure_unwinds rfl).2 _ _ 0 forked suits).caught _ _
    [⟨⟨1⟩, 1⟩] ⟨⟨2⟩, 1⟩ [⟨⟨3⟩, 1⟩] false failing rfl ⟨by decide, ⟨3⟩, rfl⟩ (by
      rintro f hf ⟨-, child, hnode⟩
      rw [List.mem_singleton.mp hf] at hnode
      cases hnode)
  exact ⟨rfl, _, _, t', forked, by cbv, failing, rfl, hstep, caught⟩

end Program

end BehaviorTree
