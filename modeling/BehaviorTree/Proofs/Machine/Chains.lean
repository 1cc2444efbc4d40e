import BehaviorTree.Proofs.Machine.Structured

/-! Stacks as chains of calls. The frame above another one is that of the child which the progress of the lower frame
says; at the bottom of the primary lane stands the root, at the bottom of every other lane a thread root. -/

namespace BehaviorTree

open Refusal

/-- The child that a node has called when it has got so far. -/
def Node.called? (childIndex : UInt16) : Node → Option NodeId
  | .root child | .threadRoot child _ | .catch child | .optional _ child => some child
  | .sequence children => children[childIndex.toNat - 1]?
  | .selector branches => branches[childIndex.toNat - 1]?.map (·.child)
  | .parallel main _ => some main
  | .nop | .wait _ | .fail | .writeField _ _ | .writeVar _ _ | .query _ _ => none

/-- A sequence gets no further than to its last child. -/
def Node.Within (childIndex : UInt16) : Node → Prop
  | .sequence children => childIndex.toNat ≤ children.size
  | _ => True

namespace Program

variable (p : Program)

/-- The lower frame waits for the upper one. -/
def Awaits (lower upper : Frame) : Prop :=
  lower.childIndex ≠ 0 ∧ ∃ node, p.node? lower.node = some node ∧ node.called? lower.childIndex = some upper.node

def Within (frame : Frame) : Prop :=
  ∀ node, p.node? frame.node = some node → node.Within frame.childIndex

/-- What stands at the bottom of a lane that was started, or not, by another one. -/
def Begins (parent : Option LaneId) (id : NodeId) : Prop :=
  match parent with
  | none => id = .root
  | some _ => (p.node? id).map Node.kind = some .threadRoot

variable {p}

theorem within_start (id : NodeId) : p.Within (.start id) := by
  intro node _
  cases node with
  | sequence children => exact Nat.zero_le _
  | _ => trivial

theorem within_of_kind {frame : Frame} {node : Node} (h : p.node? frame.node = some node)
    (hkind : node.kind ≠ .sequence) (progress : UInt16) : p.Within ⟨frame.node, progress⟩ := by
  intro other hother
  obtain rfl := Option.some.inj (h.symm.trans hother)
  cases node with
  | sequence children => exact absurd rfl hkind
  | _ => trivial

end Program

theorem Node.exists_of_kind_threadRoot {node : Node} (h : node.kind = .threadRoot) :
    ∃ child looping, node = .threadRoot child looping := by
  cases node <;> simp [kind] at h ⊢

/-- With its new progress, a node says which child it has just called. -/
theorem Node.Calls.called? {node : Node} {childIndex progress : UInt16} {child : NodeId}
    (h : node.Calls childIndex progress child) :
    progress ≠ 0 ∧ node.called? progress = some child ∧ node.Within progress := by
  cases node with
  | nop | fail | wait _ | writeField _ _ | writeVar _ _ | query _ _ | parallel _ _ => exact h.elim
  | root _ | threadRoot _ _ | «catch» _ | optional _ _ =>
    obtain ⟨-, rfl, rfl⟩ := h
    exact ⟨by decide, rfl, trivial⟩
  | sequence children =>
    obtain ⟨hfits, rfl, hchild⟩ := h
    have hprogress : (childIndex + 1).toNat = childIndex.toNat + 1 := by
      rw [UInt16.toNat_add]
      exact Nat.mod_eq_of_lt hfits
    refine ⟨fun hzero => ?_, ?_, ?_⟩
    · rw [hzero] at hprogress
      cases hprogress
    · simp only [Node.called?, hprogress, Nat.add_sub_cancel, hchild]
    · have hlt := (Array.getElem?_eq_some_iff.mp hchild).1
      simp only [Node.Within, hprogress]
      omega
  | selector branches =>
    obtain ⟨-, place, branch, hbranch, hprogress, rfl⟩ := h
    refine ⟨fun hzero => ?_, ?_, trivial⟩
    · rw [hzero] at hprogress
      cases hprogress
    · simp only [Node.called?, hprogress, Nat.add_sub_cancel, hbranch, Option.map_some]

theorem Node.called?_of_rootChild {node : Node} {child : NodeId} {once : Bool}
    (h : node.rootChild? = some (child, once)) : node.called? 1 = some child ∧ node.Within 1 := by
  cases node <;> simp_all [Node.rootChild?, Node.called?, Node.Within]

/-- A lane whose frames are a chain of calls. -/
structure Kin.Chained (p : Program) (k : Kin) : Prop where
  calls : k.frames.IsChain p.Awaits
  within : ∀ frame ∈ k.frames, p.Within frame
  root : ∀ id, k.root? = some id → p.Begins k.parent id

namespace Kin.Chained

variable {p : Program} {k k' : Kin}

theorem start {id : LaneId} {parent : Option LaneId} {waitStart : UInt64} {root : NodeId} (h : p.Begins parent root) :
    Kin.Chained p ⟨id, parent, waitStart, [.start root]⟩ where
  calls := .singleton _
  within frame hmem := by
    rw [List.mem_singleton.mp hmem]
    exact Program.within_start root
  root id hid := by
    obtain rfl := Option.some.inj hid
    exact h

/-- A lane that loses its top frame. -/
theorem drop (chained : k.Chained p) (hsame : k.Same k') (hf : k'.frames = k.frames.dropLast) : k'.Chained p where
  calls := by
    rw [hf]
    exact chained.calls.prefix (List.dropLast_prefix _)
  within frame hmem := chained.within frame (List.mem_of_mem_dropLast (hf ▸ hmem))
  root id hid := by
    rw [hsame.2]
    exact chained.root id (Kin.keepsRoot_of_dropLast hf id hid)

/-- A lane of which the top frame makes progress, perhaps with a call. -/
theorem go (chained : k.Chained p) {frame : Frame} (hlast : k.frames.getLast? = some frame) (hsame : k.Same k')
    {progress : UInt16} (hwithin : p.Within ⟨frame.node, progress⟩) (child : Option NodeId)
    (hcall : ∀ c ∈ child, p.Awaits ⟨frame.node, progress⟩ (.start c))
    (hf : k'.frames = (k.setProgress progress).frames ++ (child.map Frame.start).toList) : k'.Chained p := by
  obtain ⟨lower, hframes⟩ : ∃ lower, k.frames = lower ++ [frame] :=
    ⟨_, (List.dropLast_append_getLast? frame hlast).symm⟩
  have hset := Kin.frames_setProgress hframes progress
  have hcalls := chained.calls
  rw [hframes, List.isChain_append] at hcalls
  refine ⟨?_, fun other hmem => ?_, fun id hid => ?_⟩
  · rw [hf, hset, List.append_assoc]
    refine List.isChain_append.mpr ⟨hcalls.1, ?_, fun x hx y hy => ?_⟩
    · cases child with
      | none => exact .singleton _
      | some c => exact .cons_cons (hcall c rfl) (.singleton _)
    · -- what a frame waits for does not depend on the progress of that
      obtain rfl := Option.some.inj hy
      exact hcalls.2.2 x hx frame rfl
  · rw [hf, hset] at hmem
    obtain hmem | hmem := List.mem_append.mp hmem
    · obtain hmem | hmem := List.mem_append.mp hmem
      · exact chained.within other (by simp [hframes, hmem])
      · rw [List.mem_singleton.mp hmem]
        exact hwithin
    · obtain ⟨c, -, rfl⟩ := Option.map_eq_some_iff.mp (Option.mem_toList.mp hmem)
      exact Program.within_start c
  · rw [hsame.2]
    refine chained.root id ?_
    rwa [Kin.root?, hf, List.head?_append_of_ne_nil _ (by simp [hset]), ← Kin.root?, Kin.root?_setProgress] at hid

end Kin.Chained

namespace Roster

variable {σ : Type} {p : Program} {index : Nat} {r r' : Roster σ} {k : Kin}

/-- All lanes are chains of calls. -/
def Chained (p : Program) (r : Roster σ) : Prop :=
  ∀ k ∈ r.lanes, k.Chained p

namespace Chained

theorem begin (r : Roster σ) : r.begin.Chained p := by
  intro k hk
  obtain rfl := List.mem_singleton.mp hk
  exact .start rfl

theorem onLane (chained : r.Chained p) (hk : r.lanes[index]? = some k) {f : Kin → Kin} (hf : (f k).Chained p) :
    (r.onLane index f).Chained p := by
  intro k' hk'
  obtain ⟨i, c, hc, rfl⟩ := mem_onLane hk'
  split_ifs with hi
  · subst hi
    rwa [Option.some.inj (hc.symm.trans hk)]
  · exact chained c (List.mem_of_getElem? hc)

theorem spawn (chained : r.Chained p) (parent : LaneId) {thread : NodeId}
    (h : (p.node? thread).map Node.kind = some .threadRoot) : (r.spawn parent thread).Chained p := by
  intro k hk
  obtain hold | hnew := List.mem_append.mp hk
  · exact chained k hold
  · obtain rfl := List.mem_singleton.mp hnew
    exact .start h

theorem pop (chained : r.Chained p) (hk : r.lanes[index]? = some k) : (r.onLane index Kin.pop).Chained p :=
  chained.onLane hk ((chained k (List.mem_of_getElem? hk)).drop ⟨rfl, rfl⟩ rfl)

/-- The top frame makes progress, perhaps with a call. -/
theorem go (chained : r.Chained p) (hk : r.lanes[index]? = some k) {frame : Frame} (hlast : k.frames.getLast? = some frame)
    {progress : UInt16} (hwithin : p.Within ⟨frame.node, progress⟩) {f : Kin → Kin} (hsame : ∀ c, Kin.Same c (f c))
    (child : Option NodeId) (hcall : ∀ c ∈ child, p.Awaits ⟨frame.node, progress⟩ (.start c))
    (hf : (f k).frames = (k.setProgress progress).frames ++ (child.map Frame.start).toList) :
    (r.onLane index f).Chained p :=
  chained.onLane hk ((chained k (List.mem_of_getElem? hk)).go hlast (hsame k) hwithin child hcall hf)

variable [QuerySystem σ]

theorem releases {thread : NodeId} (chained : r.Chained p) (releases : r.Releases index thread r') : r'.Chained p := by
  cases releases with
  | nothing _ _ => exact chained
  | lane _ _ _ _ _ _ _ =>
    intro k hk
    rw [Roster.remove, withdraw_lanes] at hk
    exact chained k (Kin.mem_without.mp hk).1

theorem unwinds {caught : Bool} (unwinds : r.Unwinds p index caught r') (chained : r.Chained p) : r'.Chained p := by
  induction unwinds with
  | empty _ _ => exact chained
  | «catch» top _ => exact chained.pop top.lane
  | thread top _ releases _ ih => exact ih ((chained.releases releases).pop (releases.kept top.lane))
  | skip top _ _ ih => exact ih (chained.pop top.lane)

theorem polls {request : QueryRequest} {outcome : Outcome} (chained : r.Chained p) (hk : r.lanes[index]? = some k)
    (polls : r.Polls index request outcome r') : r'.Chained p := by
  cases polls with
  | pending _ => exact chained
  | complete _ => exact Chained.pop (r := { r with holder := none, queries := _ }) chained hk

end Chained

variable [QuerySystem σ]

/-- Every move keeps the chains of calls. -/
theorem Moves.chained (valid : p.Valid) {now : UInt64} {rootVisited : Bool} {outcome : Outcome}
    (moves : r.Moves p now index rootVisited outcome r') (chained : r.Chained p) : r'.Chained p := by
  -- a node that is not a sequence may make any progress without a call
  have hstay {k : Kin} {frame : Frame} {node : Node} (top : r.Top p index k frame node) (hkind : node.kind ≠ .sequence)
      {f : Kin → Kin} (hsame : ∀ c, Kin.Same c (f c)) (hf : (f k).frames = (k.setProgress 1).frames) :
      (r.onLane index f).Chained p :=
    chained.go top.lane top.last (Program.within_of_kind top.known hkind 1) hsame none nofun
      (hf.trans (List.append_nil _).symm)
  have hawaits {k : Kin} {frame : Frame} {node : Node} (top : r.Top p index k frame node) {progress : UInt16}
      {child : NodeId} (hlater : progress ≠ 0) (hcalled : node.called? progress = some child) :
      ∀ c ∈ some child, p.Awaits ⟨frame.node, progress⟩ (.start c) := by
    rintro c ⟨⟩
    exact ⟨hlater, node, top.known, hcalled⟩
  have hwithin {k : Kin} {frame : Frame} {node : Node} (top : r.Top p index k frame node) {progress : UInt16}
      (h : node.Within progress) : p.Within ⟨frame.node, progress⟩ := by
    intro other hother
    obtain rfl := Option.some.inj (top.known.symm.trans hother)
    exact h
  cases moves with
  | yield _ _ _ _ | wait _ _ | blocked _ _ _ => exact chained
  | enter top _ hroot _ =>
    obtain ⟨hcalled, hprogress⟩ := Node.called?_of_rootChild hroot
    exact chained.go top.lane top.last (hwithin top hprogress) (fun _ => ⟨rfl, rfl⟩) (some _)
      (hawaits top (by decide) hcalled) rfl
  | call top _ hcall =>
    obtain ⟨hlater, hcalled, hprogress⟩ := hcall.called?
    exact chained.go top.lane top.last (hwithin top hprogress) (fun _ => ⟨rfl, rfl⟩) (some _)
      (hawaits top hlater hcalled) rfl
  | finish top _ _ => exact chained.pop top.lane
  | beginWait top _ => exact hstay top nofun (fun _ => ⟨rfl, rfl⟩) rfl
  | passWait top _ _ =>
    refine chained.onLane top.lane ((chained _ (List.mem_of_getElem? top.lane)).drop ⟨rfl, rfl⟩ ?_)
    exact top.dropLast_setProgress 1
  | poll top _ _ polls => exact chained.polls top.lane polls
  | ask top _ _ polls =>
    have asked := hstay top nofun (Kin.same_setProgress 1) rfl
    exact Chained.polls (r := (r.onLane index (Kin.setProgress 1)).submit _) asked (top.onLane _) polls
  | @fork k frame main thread top _ _ =>
    have begun := hstay top nofun (Kin.same_setProgress 1) rfl
    have hthread : (p.node? thread).map Node.kind = some .threadRoot := (valid.node top.known).payload
    have hk := getElem?_spawn (top.onLane (Kin.setProgress 1)) k.id thread
    have hlast : (k.setProgress 1).frames.getLast? = some ⟨frame.node, 1⟩ := by
      rw [Kin.frames_setProgress (List.dropLast_append_getLast? frame top.last).symm, List.getLast?_concat]
    exact (begun.spawn k.id hthread).go hk hlast (hwithin top trivial) (fun _ => ⟨rfl, rfl⟩) (some main)
      (hawaits top (by decide) rfl) rfl
  | join top _ _ releases => exact (chained.releases releases).pop (releases.kept top.lane)
  | «catch» top _ unwinds => exact (chained.pop top.lane).unwinds unwinds
  | restart _ _ _ => exact .begin _

end Roster

/-- The stacks of an agent are chains of calls. -/
structure Agent.Linked (p : Program) (agent : Agent) : Prop where
  occupied : ∀ v ∈ agent.lanes.view, v.frames ≠ []
  /-- Only the primary lane has no owner. -/
  primary : ∀ (i : Nat) (v : LaneView), agent.lanes.view[i]? = some v → (v.owner = none ↔ i = 0)
  root : ∀ v, agent.lanes.view[0]? = some v → v.frames.head?.map (·.node) = some .root
  threads : ∀ (i : Nat) (v : LaneView), agent.lanes.view[i]? = some v → i ≠ 0 →
    ∃ bottom child looping, v.frames.head? = some bottom ∧ p.node? bottom.node = some (.threadRoot child looping)
  /-- A frame that is not on top has called the node of the frame above it. -/
  calls : ∀ v ∈ agent.lanes.view, ∀ (place : Nat) (lower upper : Frame), v.frames[place]? = some lower →
    v.frames[place + 1]? = some upper →
      lower.childIndex ≠ 0 ∧ ∃ node, p.node? lower.node = some node ∧ node.called? lower.childIndex = some upper.node
  /-- The next call of a sequence can still be counted. -/
  counted : ∀ v ∈ agent.lanes.view, ∀ frame ∈ v.frames, ∀ children, p.node? frame.node = some (.sequence children) →
    frame.childIndex.toNat ≤ children.size ∧
    (frame.childIndex.toNat < children.size → frame.childIndex.toNat + 1 < 0x10000)

namespace Program

variable {p : Program} {agent : Agent} {spawns : Spawns}

theorem Lives.chained (valid : p.Valid) (lives : p.Lives agent spawns) : agent.roster.Chained p := by
  induction lives with
  | @new capacity block agent h =>
    intro k hk
    simp [Agent.roster, LaneStack.kin, LaneStack.view, (Agent.empty_of_new h).1] at hk
  | @begin σ t t' spawns _ _ hnone h _ =>
    have hroster := ((Act.createPrimary_roster hnone).of_ok h).1
    have begun : t'.roster.Chained p := hroster ▸ .begin _
    exact begun
  | @step σ _ t t' spawns index rootVisited outcome lives suits hindex h ih =>
    obtain ⟨steady, tallied⟩ := lives.tallied valid
    have moves := ((Act.step_moves valid ⟨steady, suits⟩ (tallied.orderly.same rfl rfl) hindex rootVisited).of_ok h).1
    have kept : t'.roster.Chained p := moves.chained valid ih
    exact kept

theorem Lives.linked (valid : p.Valid) (lives : p.Lives agent spawns) : agent.Linked p := by
  obtain ⟨steady, -⟩ := lives.tallied valid
  have chained {v : LaneView} (hv : v ∈ agent.lanes.view) : (agent.lanes.kinOf v).Chained p :=
    lives.chained valid _ (List.mem_map_of_mem hv)
  have hprimary (i : Nat) (v : LaneView) (hv : agent.lanes.view[i]? = some v) : v.owner = none ↔ i = 0 := by
    obtain ⟨lane, hlane, rfl⟩ := LaneStack.getElem?_view_eq_some_iff.mp hv
    exact steady.ordered.owner_eq_none_iff hlane
  have hbottom (i : Nat) (v : LaneView) (hv : agent.lanes.view[i]? = some v) :
      ∃ bottom, v.frames.head? = some bottom ∧ p.Begins (agent.lanes.kinOf v).parent bottom.node := by
    obtain ⟨bottom, rest, hframes⟩ := List.exists_cons_of_ne_nil (steady.occupied i v hv)
    have hhead : v.frames.head? = some bottom := by rw [hframes, List.head?_cons]
    exact ⟨bottom, hhead, (chained (List.mem_of_getElem? hv)).root _ (congrArg (·.map Frame.node) hhead)⟩
  refine ⟨fun v hv => ?_, hprimary, fun v hv => ?_, fun i v hv hi => ?_, fun v hv place lower upper hl hu => ?_,
    fun v hv frame hframe children hnode => ?_⟩
  · obtain ⟨i, hi⟩ := List.mem_iff_getElem?.mp hv
    exact steady.occupied i v hi
  · obtain ⟨bottom, hhead, hroot⟩ := hbottom 0 v hv
    have hnone : (agent.lanes.kinOf v).parent = none := by
      simp [LaneStack.kinOf, Kin.ofView, (hprimary 0 v hv).mpr rfl]
    rw [hnone] at hroot
    rw [hhead, Option.map_some, hroot]
  · obtain ⟨bottom, hhead, hroot⟩ := hbottom i v hv
    obtain ⟨owner, howner⟩ := Option.ne_none_iff_exists'.mp (mt (hprimary i v hv).mp hi)
    obtain ⟨-, w, hw⟩ := steady.ordered.owner_view hv howner
    have hsome : (agent.lanes.kinOf v).parent = some w.id := by simp [LaneStack.kinOf, Kin.ofView, howner, hw]
    rw [hsome] at hroot
    obtain ⟨node, hnode, hkind⟩ := Option.map_eq_some_iff.mp hroot
    obtain ⟨child, looping, rfl⟩ := Node.exists_of_kind_threadRoot hkind
    exact ⟨bottom, child, looping, hhead, hnode⟩
  · obtain ⟨hlt, rfl⟩ := List.getElem?_eq_some_iff.mp hu
    obtain ⟨-, rfl⟩ := List.getElem?_eq_some_iff.mp hl
    exact List.isChain_iff_getElem.mp (chained hv).calls place hlt
  · have hwithin : frame.childIndex.toNat ≤ children.size := (chained hv).within frame hframe _ hnode
    have hcount : children.size ≤ 65535 := (valid.node hnode).payload
    exact ⟨hwithin, by omega⟩

/-- Every stack is a chain of calls: between two ticks, whenever a step of a tick begins, and between any two steps,
whichever lane makes them. -/
theorem stacks_linked (accepted : p.validate = .ok ()) :
    (∀ agent, p.Reaches agent → agent.Linked p) ∧
    (∀ {σ : Type} [QuerySystem σ] (agent : Agent) (world : World σ) (maxCycles index : Nat) (u : Tick σ),
      p.Reaches agent → world.check p = .ok () → p.Visits maxCycles agent world index u → u.agent.Linked p) ∧
    ∀ agent spawns, p.Lives agent spawns → agent.Linked p := by
  have valid : p.Valid := validate_eq_ok_iff.mp accepted
  refine ⟨fun agent reaches => ?_, ?_, fun agent spawns lives => lives.linked valid⟩
  · obtain ⟨spawns, lives⟩ := reaches.lives valid
    exact lives.linked valid
  · intro σ _ agent world maxCycles index u reaches checked visits
    obtain ⟨spawns, lives⟩ := reaches.lives valid
    obtain ⟨spawns', lives'⟩ := lives.visits valid checked visits
    exact lives'.linked valid

/-- The primary lane has called its parallel node and that the main child; the other lane has just begun. -/
theorem stacks_linked_duet : duet.validate = .ok () ∧ (∃ spawns, duet.Lives duetForked.agent spawns) ∧
    duetForked.agent.lanes.view.map (·.frames) = [[⟨⟨1⟩, 1⟩, ⟨⟨2⟩, 1⟩, ⟨⟨3⟩, 0⟩], [⟨⟨4⟩, 0⟩]] ∧
    duetForked.agent.Linked duet := by
  obtain ⟨spawns, lives, -⟩ := duet_lives
  exact ⟨rfl, ⟨spawns, lives⟩, by cbv, (stacks_linked rfl).2.2 _ _ lives⟩

end Program

end BehaviorTree
