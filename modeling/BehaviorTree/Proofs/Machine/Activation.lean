import BehaviorTree.Proofs.Machine.Deeds
import BehaviorTree.Proofs.Machine.Threads

/-! Activations of the root. A lane that is alone, with plain nodes only, does in small steps what the evaluation of
the root's child does at once, whatever ticks the steps belong to: what is left of its stack comes to the same ending
before and after each of them. -/

namespace BehaviorTree

open Refusal

/-- Neither a query nor a parallel node nor a wait for a condition. -/
def Node.Plain : Node → Prop
  | .wait (.condition _) | .query _ _ | .parallel _ _ => False
  | _ => True

theorem Node.Plain.kind_ne {node : Node} (plain : node.Plain) : node.kind ≠ .parallel ∧ node.kind ≠ .query := by
  cases node with
  | query _ _ | parallel _ _ => exact plain.elim
  | _ => simp [kind]

/-- Every node that is reachable is plain. -/
def Program.Plain (p : Program) : Prop :=
  ∀ id node, p.Reachable id → p.node? id = some node → node.Plain

/-! ### Lanes that are alone -/

namespace Kin

/-- A lane of nodes that are reachable, above the root. -/
structure Rooted (p : Program) (k : Kin) : Prop where
  bottom : ∀ id, k.root? = some id → id = .root
  reachable : ∀ frame ∈ k.frames, p.Reachable frame.node

/-- What a step of a lane that is alone does with memory `s`. -/
inductive Proceeds (p : Program) (s : Surroundings) (next : LaneId) (k : Kin) : Kin → Surroundings → Prop
  | stay : Proceeds p s next k k s
  /-- The root calls its child. -/
  | enter {frame : Frame} {child : NodeId} (hframes : k.frames = [frame]) (hroot : p.node? .root = some (.root child)) :
    Proceeds p s next k ((k.setProgress 1).push (.start child)) s
  /-- What is left comes to the same ending. -/
  | goOn {k' : Kin} {s' : Surroundings} (habove : 1 < k.frames.length) (hid : k'.id = k.id)
    (returns : ∀ r, p.Returns true k'.frames.reverse s' r → p.Returns true k.frames.reverse s r) :
    Proceeds p s next k k' s'
  /-- Nothing catches the failure of what is on top. -/
  | reset {k' : Kin} (habove : 1 < k.frames.length) (hid : k'.id = next) (hframes : k'.frames = [.start .root])
    (returns : p.Returns true k.frames.reverse s (false, s)) : Proceeds p s next k k' s

namespace Rooted

variable {p : Program} {k : Kin} {frame : Frame} {below : List Frame}

theorem setProgress (rooted : k.Rooted p) (hframes : k.frames = below ++ [frame]) (progress : UInt16) :
    (k.setProgress progress).Rooted p := by
  refine ⟨root?_setProgress progress k ▸ rooted.bottom, fun f hf => ?_⟩
  rw [frames_setProgress hframes] at hf
  obtain hf | hf := List.mem_append.mp hf
  · exact rooted.reachable f (by simp [hframes, hf])
  · obtain rfl := List.mem_singleton.mp hf
    exact rooted.reachable frame (by simp [hframes])

theorem pop (rooted : k.Rooted p) : k.pop.Rooted p :=
  ⟨fun id hid => rooted.bottom id (keepsRoot_of_dropLast rfl id hid),
    fun f hf => rooted.reachable f (List.mem_of_mem_dropLast hf)⟩

theorem call (rooted : k.Rooted p) (hframes : k.frames = below ++ [frame]) {node : Node} {child : NodeId}
    (hnode : p.node? frame.node = some node) (hchild : child ∈ node.children) (progress : UInt16) :
    ((k.setProgress progress).push (.start child)).Rooted p := by
  have begun := rooted.setProgress hframes progress
  have hoccupied : (k.setProgress progress).frames ≠ [] := by simp [frames_setProgress hframes]
  refine ⟨root?_push hoccupied _ ▸ begun.bottom, fun f hf => ?_⟩
  obtain hf | hf := List.mem_append.mp hf
  · exact begun.reachable f hf
  · obtain rfl := List.mem_singleton.mp hf
    exact (rooted.reachable frame (by simp [hframes])).tail ⟨node, hnode, hchild⟩

theorem begin (id : LaneId) (parent : Option LaneId) (time : UInt64) : Rooted p ⟨id, parent, time, [.start .root]⟩ := by
  refine ⟨fun id hid => (Option.some.inj hid).symm, fun f hf => ?_⟩
  obtain rfl := List.mem_singleton.mp hf
  exact .refl

/-- At its bottom is the root. -/
theorem node_eq (rooted : k.Rooted p) (hframes : k.frames = [frame]) : frame.node = .root :=
  rooted.bottom frame.node (by simp [root?, hframes])

end Rooted

end Kin

namespace Roster

variable {σ : Type} [QuerySystem σ] {p : Program} {r r' : Roster σ} {k : Kin} {s s' : Surroundings}

omit [QuerySystem σ] in
theorem onLane_alone (hlanes : r.lanes = [k]) (f : Kin → Kin) : (r.onLane 0 f).lanes = [f k] := by
  simp [onLane, hlanes]

omit [QuerySystem σ] in
theorem Top.alone {index : Nat} {k' : Kin} {frame : Frame} {node : Node} (top : r.Top p index k' frame node)
    (hlanes : r.lanes = [k]) : k' = k ∧ ∃ below, k.frames = below ++ [frame] := by
  have hmem := List.mem_of_getElem? top.lane
  rw [hlanes] at hmem
  obtain rfl := List.mem_singleton.mp hmem
  exact ⟨rfl, List.getLast?_eq_some_iff.mp top.last⟩

/-- A failure that is caught leaves what is left after it. One that is not caught ends everything. -/
theorem Unwinds.alone {caught : Bool} (unwinds : r.Unwinds p 0 caught r') (plain : p.Plain) (hlanes : r.lanes = [k])
    (rooted : k.Rooted p) : ∃ k', r'.lanes = [k'] ∧ k'.id = k.id ∧ k'.Rooted p ∧
      (caught = true → ∀ s e, p.Returns true k'.frames.reverse s e → p.Returns false k.frames.reverse s e) ∧
      (caught = false → k.frames ≠ [] → ∀ s, p.Returns false k.frames.reverse s (false, s)) := by
  induction unwinds generalizing k with
  | empty hk hframes =>
    rw [hlanes] at hk
    obtain rfl : k = _ := by simpa using hk
    exact ⟨k, hlanes, rfl, rooted, by simp, fun _ hoccupied => absurd hframes hoccupied⟩
  | «catch» top hprogress =>
    obtain ⟨rfl, below, hframes⟩ := top.alone hlanes
    refine ⟨_, onLane_alone hlanes Kin.pop, rfl, rooted.pop, fun _ s e returns => ?_, by simp⟩
    rw [Kin.pop, hframes, List.dropLast_concat] at returns
    rw [hframes, List.reverse_concat]
    exact .caught top.known hprogress returns
  | thread top _ _ _ _ =>
    obtain ⟨rfl, below, hframes⟩ := top.alone hlanes
    exact (plain _ _ (rooted.reachable _ (by simp [hframes])) top.known).elim
  | @skip r r' k' frame node caught top hskip rest ih =>
    obtain ⟨rfl, below, hframes⟩ := top.alone hlanes
    obtain ⟨left, hleft, hid, hrooted, hcaught, huncaught⟩ := ih (onLane_alone hlanes Kin.pop) rooted.pop
    have hpop : k'.pop.frames = below := by rw [Kin.pop, hframes, List.dropLast_concat]
    have hpass : node.kind = .catch → frame.childIndex = 0 := fun hkind => hskip (.inl hkind)
    rw [hpop] at hcaught huncaught
    rw [hframes, List.reverse_concat]
    refine ⟨left, hleft, hid, hrooted, fun hc s e returns => .raise top.known hpass (hcaught hc s e returns), ?_⟩
    intro hc _ s
    by_cases hbelow : below = []
    · subst hbelow
      exact .bottom false frame s
    · exact .raise top.known hpass (huncaught hc hbelow s)

/-- A step of a lane that is alone. -/
theorem Does.alone {now : UInt64} {rootVisited : Bool} {outcome : Outcome}
    (does : r.Does p now 0 rootVisited s outcome r' s') (valid : p.Valid) (plain : p.Plain) (hlanes : r.lanes = [k])
    (rooted : k.Rooted p) : ∃ k', r'.lanes = [k'] ∧ k'.Rooted p ∧ k.Proceeds p s r.next k' s' := by
  -- A root does not fail.
  have hdeep {frame : Frame} {node : Node} {below : List Frame} (hframes : k.frames = below ++ [frame])
      (hnode : p.node? frame.node = some node) (hdeed : node.deed frame.childIndex s = .ok .fail) : below ≠ [] := by
    rintro rfl
    obtain ⟨child, hroot⟩ := valid.root
    rw [rooted.node_eq hframes, hroot] at hnode
    obtain rfl := Option.some.inj hnode
    simp only [Node.deed] at hdeed
    split_ifs at hdeed <;> cases hdeed
  have hlong {frame : Frame} {below : List Frame} (hframes : k.frames = below ++ [frame]) (hbelow : below ≠ []) :
      1 < k.frames.length := by
    have := List.length_pos_of_ne_nil hbelow
    rw [hframes, List.length_append, List.length_singleton]
    omega
  have hbelow {frame : Frame} {below : List Frame} (hframes : k.frames = below ++ [frame])
      (habove : 1 < k.frames.length) : below.reverse ≠ [] := by
    rintro hempty
    simp [hframes, List.reverse_eq_nil_iff.mp hempty] at habove
  -- A wait that is over leaves the same as one that goes on.
  have hover {frame : Frame} {goal : WaitGoal} {below : List Frame} (hframes : k.frames = below ++ [frame])
      (hnode : p.node? frame.node = some (.wait goal)) (e : Ending) (returns : p.Returns true below.reverse s e) :
      p.Returns true k.frames.reverse s e := by
    rw [hframes, List.reverse_concat]
    cases goal with
    | condition _ => exact (plain _ _ (rooted.reachable frame (by simp [hframes])) hnode).elim
    | duration _ => exact .of_finish hnode rfl returns
  cases does with
  | yield _ _ _ _ | wait _ _ => exact ⟨k, hlanes, rooted, .stay⟩
  | @enter _ frame node child once top hbottom hroot =>
    obtain ⟨rfl, below, hframes⟩ := top.alone hlanes
    obtain rfl : below = [] := by simpa [hframes] using hbottom
    obtain ⟨only, hknown⟩ := valid.root
    have hnode := top.known
    rw [rooted.node_eq hframes, hknown] at hnode
    obtain rfl := Option.some.inj hnode
    obtain rfl : only = child := congrArg Prod.fst (Option.some.inj hroot)
    exact ⟨_, onLane_alone hlanes _, rooted.call hframes top.known (by simp [Node.children]) 1, .enter hframes hknown⟩
  | call top habove hdeed hcall =>
    obtain ⟨rfl, below, hframes⟩ := top.alone hlanes
    refine ⟨_, onLane_alone hlanes _, rooted.call hframes top.known (Node.mem_children_of_calls hcall) _,
      .goOn habove rfl fun e returns => ?_⟩
    rw [Kin.push, Kin.frames_setProgress hframes, List.reverse_concat, List.reverse_concat] at returns
    rw [hframes, List.reverse_concat]
    exact .of_call top.known hdeed hcall (hbelow hframes habove) returns
  | finish top habove hdeed _ =>
    obtain ⟨rfl, below, hframes⟩ := top.alone hlanes
    refine ⟨_, onLane_alone hlanes _, rooted.pop, .goOn habove rfl fun e returns => ?_⟩
    rw [Kin.pop, hframes, List.dropLast_concat] at returns
    rw [hframes, List.reverse_concat]
    exact .of_finish top.known hdeed returns
  | beginWait top habove _ =>
    obtain ⟨rfl, below, hframes⟩ := top.alone hlanes
    have begun := rooted.setProgress hframes 1
    refine ⟨_, onLane_alone hlanes _, ⟨begun.bottom, begun.reachable⟩, .goOn habove rfl fun e returns => ?_⟩
    rw [Kin.setWaitStart, Kin.frames_setProgress hframes, List.reverse_concat] at returns
    rw [hframes, List.reverse_concat]
    exact .of_wait top.known returns
  | passWait top habove _ =>
    obtain ⟨rfl, below, hframes⟩ := top.alone hlanes
    have begun := (rooted.setProgress hframes 1).pop
    refine ⟨_, onLane_alone hlanes _, ⟨begun.bottom, begun.reachable⟩, .goOn habove rfl fun e returns => ?_⟩
    rw [Kin.pop, Kin.setWaitStart, Kin.frames_setProgress hframes, List.dropLast_concat] at returns
    exact hover hframes top.known e returns
  | endWait top habove _ =>
    obtain ⟨rfl, below, hframes⟩ := top.alone hlanes
    refine ⟨_, onLane_alone hlanes _, rooted.pop, .goOn habove rfl fun e returns => ?_⟩
    rw [Kin.pop, hframes, List.dropLast_concat] at returns
    exact hover hframes top.known e returns
  | «catch» top hdeed _ unwinds =>
    obtain ⟨rfl, below, hframes⟩ := top.alone hlanes
    obtain ⟨left, hleft, hid, hrooted, hcaught, -⟩ := unwinds.alone plain (onLane_alone hlanes Kin.pop) rooted.pop
    refine ⟨left, hleft, hrooted, .goOn (hlong hframes (hdeep hframes top.known hdeed)) hid fun e returns => ?_⟩
    have hfail := hcaught rfl s e returns
    rw [Kin.pop, hframes, List.dropLast_concat] at hfail
    rw [hframes, List.reverse_concat]
    exact .of_fail top.known hdeed hfail
  | restart top hdeed _ unwinds =>
    obtain ⟨rfl, below, hframes⟩ := top.alone hlanes
    obtain ⟨-, -, -, -, -, huncaught⟩ := unwinds.alone plain (onLane_alone hlanes Kin.pop) rooted.pop
    have hdeep := hdeep hframes top.known hdeed
    rw [Kin.pop, hframes, List.dropLast_concat] at huncaught
    refine ⟨_, rfl, .begin _ _ _, .reset (hlong hframes hdeep) ?_ rfl ?_⟩
    · rw [withdraw_next, unwinds.next_eq]
      rfl
    · rw [hframes, List.reverse_concat]
      exact .of_fail top.known hdeed (huncaught rfl hdeep s)

end Roster

/-! ### Ticks -/

namespace Agent

def primary? (agent : Agent) : Option LaneView :=
  agent.lanes.view.head?

/-- The root is on top of the primary lane. -/
def AtRoot (agent : Agent) : Prop :=
  agent.primary?.map (fun v => v.frames.map (·.node)) = some [.root]

instance (agent : Agent) : Decidable agent.AtRoot :=
  inferInstanceAs (Decidable (_ = _))

/-- An agent without lanes but the primary one. -/
structure Alone (p : Program) (agent : Agent) : Prop extends agent.Ready p where
  lane : ∀ k ∈ agent.lanes.kin, agent.lanes.kin = [k] ∧ k.Rooted p

end Agent

section Ticks

variable {σ : Type} [QuerySystem σ]

namespace Act

/-- Where the steps of a run begin, and where the last one ends. -/
def course (p : Program) : (budget : Nat) → (index : Nat) → (rootVisited : Bool) → Tick σ → List (Tick σ)
  | 0, _, _, _ => []
  | budget + 1, index, rootVisited, t =>
    t :: match step p index rootVisited { t with cycle := t.cycle + 1 } with
      | .error _ => []
      | .ok (.goOn, t) => course p budget index rootVisited t
      | .ok (.enterRoot, t) => course p budget index true t
      | .ok (.suspend, t) =>
        if index + 1 < t.agent.lanes.lanes.size then
          match beginTurn p (index + 1) t with
          | .error _ => []
          | .ok ((), t) => course p budget (index + 1) false t
        else [t]

end Act

namespace Program

/-- The states through which a tick goes. -/
def course (p : Program) (maxCycles : Nat) (agent : Agent) (world : World σ) : List (Tick σ) :=
  match (if agent.lanes.lanes.isEmpty then Act.createPrimary else pure () : Act σ Unit) ⟨agent, world, 0, #[]⟩ with
  | .error _ => []
  | .ok ((), t) =>
    match Act.beginTurn p 0 t with
    | .error _ => []
    | .ok ((), t) => Act.course p maxCycles 0 false t

/-- The states of an agent in all of its ticks, up to the end of the latest. Between ticks nobody changes memory. -/
inductive Story (p : Program) : List (Tick σ) → Tick σ → Prop
  | new {capacity block : Nat} {agent : Agent} (h : Agent.new capacity block = .ok agent) (world : World σ) :
    Story p [⟨agent, world, 0, #[]⟩] ⟨agent, world, 0, #[]⟩
  | tick {story : List (Tick σ)} {t t' : Tick σ} {world : World σ} {maxCycles : Nat} (before : Story p story t)
    (hmemory : world.surroundings p = t.world.surroundings p) (htick : p.tick maxCycles t.agent world = .ok t') :
    Story p (story ++ p.course maxCycles t.agent world) t'

end Program

/-- From one state in which the primary lane is alone to the next. -/
def Tick.Follows (p : Program) (t t' : Tick σ) : Prop :=
  ∀ k, t.agent.lanes.kin = [k] → ∃ k', t'.agent.lanes.kin = [k'] ∧
    k.Proceeds p (t.world.surroundings p) t.agent.nextLane k' (t'.world.surroundings p)

/-- One state follows the other, up to the last. -/
structure Tick.Told (p : Program) (story : List (Tick σ)) (last : Tick σ) : Prop where
  alone : ∀ t ∈ story, t.agent.Alone p
  chain : story.IsChain (Tick.Follows p)
  last : story.getLast? = some last

namespace Agent

variable {p : Program} {agent : Agent} {k : Kin}

theorem AtRoot.kin (atRoot : agent.AtRoot) : ∃ k, k ∈ agent.lanes.kin ∧ ∃ frame, k.frames = [frame] := by
  obtain ⟨v, hv, hnodes⟩ := Option.map_eq_some_iff.mp atRoot
  obtain ⟨frame, hframes, -⟩ := List.map_eq_singleton_iff.mp hnodes
  exact ⟨_, List.mem_map_of_mem (List.mem_of_mem_head? hv), frame, hframes⟩

theorem atRoot_of_frames (hk : agent.lanes.kin = [k]) (rooted : k.Rooted p) {frame : Frame} (hframes : k.frames = [frame]) :
    agent.AtRoot := by
  obtain ⟨v, hview, rfl⟩ := List.map_eq_singleton_iff.mp hk
  have hv : v.frames = [frame] := hframes
  simp [AtRoot, primary?, hview, hv, rooted.node_eq hframes]

theorem primary?_id (hk : agent.lanes.kin = [k]) : agent.primary?.map (·.id) = some k.id := by
  obtain ⟨v, hview, rfl⟩ := List.map_eq_singleton_iff.mp hk
  simp only [primary?, hview]
  rfl

namespace Alone

variable {t t' : Tick σ}

theorem exists_lane (alone : agent.Alone p) (h : 0 < agent.lanes.lanes.size) :
    ∃ k, agent.lanes.kin = [k] ∧ k.Rooted p := by
  obtain ⟨k, hk⟩ := List.exists_mem_of_length_pos (by rwa [LaneStack.length_kin] : 0 < agent.lanes.kin.length)
  exact ⟨k, alone.lane k hk⟩

theorem size_le_one (alone : agent.Alone p) : agent.lanes.lanes.size ≤ 1 := by
  by_contra h
  obtain ⟨k, hk, -⟩ := alone.exists_lane (by omega)
  rw [← LaneStack.length_kin, hk] at h
  exact h (Nat.le_refl 1)

theorem new (valid : p.Valid) {capacity block : Nat} (h : Agent.new capacity block = .ok agent) : agent.Alone p := by
  refine ⟨.new valid h, fun k hk => ?_⟩
  simp [LaneStack.kin, LaneStack.view, (Agent.empty_of_new h).1] at hk

omit [QuerySystem σ] in
theorem begin (valid : p.Valid) (suits : t.world.Suits p) (hnone : t.agent.lanes.lanes = #[])
    (h : Act.createPrimary t = .ok ((), t')) : t'.agent.Alone p := by
  obtain ⟨ready, hroster⟩ := Agent.Ready.begin valid suits hnone h
  refine ⟨ready, fun k hk => ?_⟩
  have hkin : t'.agent.lanes.kin = [_] := congrArg Roster.lanes hroster
  rw [hkin] at hk ⊢
  obtain rfl := List.mem_singleton.mp hk
  exact ⟨rfl, .begin _ _ _⟩

theorem step (valid : p.Valid) (plain : p.Plain) (suits : t.world.Suits p) (alone : t.agent.Alone p)
    (h : 0 < t.agent.lanes.lanes.size) {rootVisited : Bool} {outcome : Outcome}
    (hstep : Act.step p 0 rootVisited t = .ok (outcome, t')) :
    t'.agent.Alone p ∧ t.Follows p t' := by
  obtain ⟨steady, orderly⟩ := alone.toReady.tick suits
  have ready := (alone.toReady.step valid suits h hstep).1
  obtain ⟨k, hlanes, rooted⟩ := alone.exists_lane h
  have hkind (k' : Kin) (frame : Frame) (node : Node) (top : t.roster.Top p 0 k' frame node) :
      node.kind ≠ .parallel ∧ node.kind ≠ .query := by
    obtain ⟨rfl, below, hframes⟩ := top.alone hlanes
    exact (plain _ node (rooted.reachable frame (by simp [hframes])) top.known).kind_ne
  have does := ((Act.step_did valid steady orderly h hkind rootVisited).of_ok hstep).does
  obtain ⟨k', hk', rooted', proceeds⟩ := does.alone valid plain hlanes rooted
  refine ⟨⟨ready, fun other hother => ?_⟩, fun other hother => ?_⟩
  · have hkin : t'.agent.lanes.kin = [k'] := hk'
    rw [hkin] at hother ⊢
    obtain rfl := List.mem_singleton.mp hother
    exact ⟨rfl, rooted'⟩
  · obtain rfl := List.singleton_inj.mp (hlanes.symm.trans hother)
    exact ⟨k', hk', proceeds⟩

end Alone

end Agent

/-! ### Stories -/

variable {p : Program} {t t' u : Tick σ} {states rest : List (Tick σ)}

omit [QuerySystem σ] in
/-- Nothing happens to the agent and to memory. -/
theorem Tick.Follows.of_same (hagent : t'.agent = t.agent) (hmemory : t'.world.surroundings p = t.world.surroundings p) :
    t.Follows p t' :=
  fun k hk => ⟨k, hagent ▸ hk, hmemory ▸ .stay⟩

namespace Tick.Told

omit [QuerySystem σ] in
theorem single (alone : t.agent.Alone p) : Told p [t] t :=
  ⟨by simpa using alone, .singleton t, rfl⟩

omit [QuerySystem σ] in
theorem append (told : Told p states u) (later : Told p rest t) (h : ∀ v ∈ rest.head?, u.Follows p v) :
    Told p (states ++ rest) t where
  alone v hv := (List.mem_append.mp hv).elim (told.alone v) (later.alone v)
  chain := by
    refine List.isChain_append.mpr ⟨told.chain, later.chain, fun v hv w hw => ?_⟩
    obtain rfl := Option.some.inj (told.last.symm.trans hv)
    exact h w hw
  last := by rw [List.getLast?_append, later.last]; rfl

end Tick.Told

theorem Act.head?_course {budget index : Nat} {rootVisited : Bool} :
    ∀ v ∈ (Act.course p budget index rootVisited t).head?, v = t := by
  cases budget with
  | zero => simp [course]
  | succ budget => simp [course]

/-- A run of the only lane. -/
theorem Act.course_told (valid : p.Valid) (plain : p.Plain) (maxCycles budget : Nat) {rootVisited : Bool}
    (alone : t.agent.Alone p) (suits : t.world.Suits p) (h : 0 < t.agent.lanes.lanes.size)
    (hrun : runFrom p maxCycles budget 0 rootVisited t = .ok t') : Tick.Told p (course p budget 0 rootVisited t) t' := by
  induction budget generalizing t rootVisited with
  | zero => cases hrun
  | succ budget ih =>
    rw [runFrom] at hrun
    rw [course]
    cases hstep : Act.step p 0 rootVisited { t with cycle := t.cycle + 1 } with
    | error fault =>
      rw [hstep] at hrun
      cases hrun
    | ok r =>
      obtain ⟨outcome, u⟩ := r
      obtain ⟨settled, hkept⟩ := step_settled valid (alone.tick suits).1.counted h hstep
      obtain ⟨alone', follows⟩ :=
        Agent.Alone.step (t := { t with cycle := t.cycle + 1 }) valid plain suits alone h hstep
      have follows : t.Follows p u := follows
      have hgo {visited : Bool} (h : 0 < u.agent.lanes.lanes.size)
          (hrun : runFrom p maxCycles budget 0 visited u = .ok t') : Tick.Told p (t :: course p budget 0 visited u) t' :=
        (Tick.Told.single alone).append (ih alone' settled.suits h hrun) fun v hv => head?_course v hv ▸ follows
      rw [hstep] at hrun
      cases outcome with
      | goOn => exact hgo (by simpa using hkept) hrun
      | enterRoot => exact hgo (by simpa using hkept) hrun
      | suspend =>
        have hlast := alone'.size_le_one
        dsimp only at hrun ⊢
        rw [if_neg (by omega)] at hrun ⊢
        obtain rfl := Except.ok.inj hrun
        exact (Tick.Told.single alone).append (.single alone') fun v hv => Option.some.inj hv ▸ follows

theorem Program.course_told (valid : p.Valid) (plain : p.Plain) {maxCycles : Nat} {world : World σ}
    (alone : t.agent.Alone p) (hmemory : world.surroundings p = t.world.surroundings p)
    (htick : p.tick maxCycles t.agent world = .ok t') :
    Tick.Told p (p.course maxCycles t.agent world) t' ∧
      ∀ v ∈ (p.course maxCycles t.agent world).head?, t.Follows p v := by
  obtain ⟨checked, hlanes⟩ := unit_bind_eq_ok_iff.mp htick
  obtain ⟨t'', hrun, hcheck⟩ := bind_eq_ok_iff.mp hlanes
  obtain ⟨-, hsame⟩ := unit_bind_eq_ok_iff.mp hcheck
  obtain rfl := Except.ok.inj hsame
  obtain ⟨⟨⟨⟩, started⟩, hstart, hrun⟩ := bind_eq_ok_iff.mp hrun
  obtain ⟨⟨⟨⟩, begun⟩, hturn, hrun⟩ := bind_eq_ok_iff.mp hrun
  have hbegin (u : Tick σ) (hnone : t.agent.lanes.lanes = #[])
      (hcreate : Act.createPrimary ⟨t.agent, world, 0, #[]⟩ = .ok ((), u)) : u.agent.Alone p ∧ t.Follows p u := by
    refine ⟨Agent.Alone.begin (t := ⟨t.agent, world, 0, #[]⟩) valid (World.suits_of_check checked) hnone hcreate, ?_⟩
    intro k hk
    simp [LaneStack.kin, LaneStack.view, hnone] at hk
  have hbegun := @start_kept σ p t.agent world (fun u => u.agent.Alone p ∧ t.Follows p u) valid (fun _ _ hinv => hinv)
    alone.steady (World.suits_of_check checked) ⟨alone, .of_same rfl hmemory⟩ hbegin _ _ hstart hturn
  obtain ⟨⟨alone, follows⟩, steady, hsize⟩ := hbegun
  have hcourse : p.course maxCycles t.agent world = Act.course p maxCycles 0 false begun := by
    rw [course, hstart]
    dsimp only
    rw [hturn]
  rw [hcourse]
  exact ⟨Act.course_told valid plain maxCycles maxCycles alone steady.suits hsize hrun,
    fun v hv => Act.head?_course v hv ▸ follows⟩

theorem Program.Story.told (valid : p.Valid) (plain : p.Plain) (story : p.Story states t) : Tick.Told p states t := by
  induction story with
  | new h world => exact .single (.new valid h)
  | tick _ hmemory htick told =>
    obtain ⟨later, hfollows⟩ := course_told valid plain (told.alone _ (List.mem_of_getLast? told.last)) hmemory htick
    exact told.append later hfollows

/-! ### Activations -/

omit [QuerySystem σ] in
/-- Above the root, a step either leaves what comes to the same ending or resets the agent, which gives the primary
lane another id. -/
theorem Tick.Follows.above (follows : t.Follows p u) (alone : t.agent.Alone p) (alone' : u.agent.Alone p)
    (habove : ¬ t.agent.AtRoot) {k : Kin} (hk : t.agent.lanes.kin = [k]) :
    ∃ k', u.agent.lanes.kin = [k'] ∧
      ((k'.id = k.id ∧ ∀ r, p.Returns true k'.frames.reverse (u.world.surroundings p) r →
          p.Returns true k.frames.reverse (t.world.surroundings p) r) ∨
        k'.id ≠ k.id ∧ u.agent.AtRoot ∧
          p.Returns true k.frames.reverse (t.world.surroundings p) (false, u.world.surroundings p)) := by
  obtain ⟨k', hk', proceeds⟩ := follows k hk
  have hfresh : k.id < t.agent.nextLane := alone.orderly.fresh k (by simp [Agent.roster, hk])
  have hrooted (hframes : k'.frames = [.start .root]) : u.agent.AtRoot :=
    Agent.atRoot_of_frames hk' (alone'.lane k' (by simp [hk'])).2 hframes
  refine ⟨k', hk', ?_⟩
  generalize u.world.surroundings p = s' at proceeds ⊢
  cases proceeds with
  | stay => exact .inl ⟨rfl, fun _ returns => returns⟩
  | enter hframes _ =>
    exact absurd (Agent.atRoot_of_frames hk (alone.lane k (by simp [hk])).2 hframes) habove
  | goOn _ hid returns => exact .inl ⟨hid, returns⟩
  | reset _ hid hframes returns => exact .inr ⟨hid ▸ hfresh.ne', hrooted hframes, returns⟩

omit [QuerySystem σ] in
/-- What is above the root comes to its ending when the root is on top again. -/
theorem Tick.returns_of_chain {inner : List (Tick σ)} (hchain : (t :: (inner ++ [u])).IsChain (Tick.Follows p))
    (alone : ∀ v ∈ t :: (inner ++ [u]), v.agent.Alone p) (habove : ∀ v ∈ t :: inner, ¬ v.agent.AtRoot)
    (hback : u.agent.AtRoot) {k : Kin} (hk : t.agent.lanes.kin = [k]) :
    ∃ k' ok, u.agent.lanes.kin = [k'] ∧
      p.Returns true k.frames.reverse (t.world.surroundings p) (ok, u.world.surroundings p) ∧
      (ok = false ↔ k'.id ≠ k.id) := by
  induction inner generalizing t k with
  | nil =>
    obtain ⟨k', hk', ⟨hid, returns⟩ | ⟨hid, -, returns⟩⟩ := (List.isChain_pair.mp hchain).above (alone t (by simp))
      (alone u (by simp)) (habove t (by simp)) hk
    · obtain ⟨other, hother, frame, hframes⟩ := hback.kin
      rw [hk'] at hother
      obtain rfl := List.mem_singleton.mp hother
      refine ⟨other, true, hk', returns _ ?_, by simp [hid]⟩
      rw [hframes]
      exact .bottom true frame _
    · exact ⟨k', false, hk', returns, by simp [hid]⟩
  | cons v inner ih =>
    obtain ⟨follows, hrest⟩ := List.isChain_cons_cons.mp hchain
    obtain ⟨k', hk', ⟨hid, returns⟩ | ⟨-, hreset, -⟩⟩ := follows.above (alone t (by simp)) (alone v (by simp))
      (habove t (by simp)) hk
    · obtain ⟨k'', ok, hk'', hreturns, hok⟩ := ih hrest (fun w hw => alone w (List.mem_cons_of_mem _ hw))
        (fun w hw => habove w (List.mem_cons_of_mem _ hw)) hk'
      exact ⟨k'', ok, hk'', returns _ hreturns, hid ▸ hok⟩
    · exact absurd hreset (habove v (by simp))

end Ticks

namespace Program

variable {p : Program}

theorem Returns.ne_nil {ok : Bool} {stack : List Frame} {s : Surroundings} {r : Ending}
    (returns : p.Returns ok stack s r) : stack ≠ [] := by
  cases returns <;> simp

theorem Returns.of_enter {frame : Frame} {child : NodeId} {s : Surroundings} {r : Ending}
    (returns : p.Returns true [.start child, frame] s r) : ∃ depth, p.evaluate depth child s = some r := by
  cases returns with
  | @resume _ _ _ ending _ resumes rest =>
    obtain ⟨depth, node, hnode, hrun⟩ := resumes
    obtain ⟨ok, s'⟩ := ending
    cases rest with
    | bottom =>
      exact ⟨depth + 1, Option.bind_eq_some_iff.mpr ⟨node, hnode, (Node.resume_zero _ s node).symm.trans hrun⟩⟩
    | resume _ rest | caught _ _ rest | raise _ _ rest => exact absurd rfl rest.ne_nil

variable {σ : Type} [QuerySystem σ]

/-- From the root's call until the root is on top again, in however many ticks, the machine does what the evaluation of
the root's child does, and it resets the agent just when that fails. -/
theorem activation_evaluates (accepted : p.validate = .ok ()) (acyclic : p.Acyclic) (plain : p.Plain)
    {states before inner after : List (Tick σ)} {t called back : Tick σ} (story : p.Story states t)
    (hstates : states = before ++ called :: (inner ++ back :: after)) (hcalled : called.agent.AtRoot)
    (hinner : inner ≠ []) (habove : ∀ u ∈ inner, ¬ u.agent.AtRoot) (hback : back.agent.AtRoot) :
    ∃ child ok, p.node? .root = some (.root child) ∧
      p.evaluate p.size child (called.world.surroundings p) = some (ok, back.world.surroundings p) ∧
      (ok = false ↔ back.agent.primary?.map (·.id) ≠ called.agent.primary?.map (·.id)) := by
  have valid := validate_eq_ok_iff.mp accepted
  obtain ⟨first, inner, rfl⟩ := List.exists_cons_of_ne_nil hinner
  have told := story.told valid plain
  have hpart : called :: first :: (inner ++ [back]) <:+: states := ⟨before, after, by simp [hstates]⟩
  have hchain := List.IsChain.infix told.chain hpart
  obtain ⟨follows, hchain⟩ := List.isChain_cons_cons.mp hchain
  have alone (u : Tick σ) (hu : u ∈ called :: first :: (inner ++ [back])) : u.agent.Alone p :=
    told.alone u (hpart.mem hu)
  obtain ⟨k, hmem, frame, hframes⟩ := hcalled.kin
  obtain ⟨hk, rooted⟩ := (alone called (by simp)).lane k hmem
  obtain ⟨k₁, hk₁, proceeds⟩ := follows k hk
  obtain ⟨k₂, ok, hk₂, returns, hok⟩ := Tick.returns_of_chain hchain (fun u hu => alone u (List.mem_cons_of_mem _ hu))
    habove hback hk₁
  generalize first.world.surroundings p = s at proceeds returns
  cases proceeds with
  | stay => exact absurd (Agent.atRoot_of_frames hk₁ rooted hframes) (habove first List.mem_cons_self)
  | goOn hdeep _ _ | reset hdeep _ _ _ => simp [hframes] at hdeep
  | @enter _ child _ hroot =>
    rw [Kin.push, Kin.frames_setProgress (show k.frames = [] ++ [frame] from hframes)] at returns
    obtain ⟨depth, hrun⟩ := Returns.of_enter returns
    refine ⟨child, ok, hroot, evaluate_of_acyclic acyclic (.single ⟨_, hroot, by simp [Node.children]⟩) hrun, ?_⟩
    rw [Agent.primary?_id hk₂, Agent.primary?_id hk, hok]
    exact (Option.some_injective _).ne_iff.symm

/-- Sets a variable, and fails. -/
def spoiler : Program where
  expressions := ⟨[1], #[]⟩
  entries := #[.ofNode .nop, .ofNode (.root ⟨2⟩), .ofNode (.sequence #[⟨3⟩, ⟨4⟩]),
    .ofNode (.writeVar ⟨0, .bool⟩ (.constant 0 1)), .ofNode .fail]
  types := #[]
  lookups := #[]
  blackboardSize := 1

def spoilerStart : Tick QueryBoard :=
  ⟨.fresh, .blank spoiler (Memory.zeros 1) .empty, 0, #[]⟩

def spoilerCourse : List (Tick QueryBoard) :=
  spoiler.course 10 .fresh spoilerStart.world

def spoilerAt (n : Nat) : Tick QueryBoard :=
  spoilerCourse.getD n spoilerStart

theorem spoiler_story : spoiler.Story ([spoilerStart] ++ spoilerCourse) (spoilerAt 6) :=
  .tick (.new (show Agent.new 32 8 = .ok .fresh from rfl) _) rfl
    (show spoiler.tick 10 .fresh spoilerStart.world = .ok (spoilerAt 6) by cbv)

theorem acyclic_of_lt (h : ∀ id child, p.HasChild id child → id.toNat < child.toNat) : p.Acyclic := by
  have hlt {id child : NodeId} (hbelow : Relation.TransGen p.HasChild id child) : id.toNat < child.toNat := by
    induction hbelow with
    | single hchild => exact h _ _ hchild
    | tail _ hchild ih => exact Nat.lt_trans ih (h _ _ hchild)
  exact fun id _ hcycle => Nat.lt_irrefl _ (hlt hcycle)

theorem spoiler_nodes {id : NodeId} {node : Node} (h : spoiler.node? id = some node) :
    node.Plain ∧ ∀ child ∈ node.children, id.toNat < child.toNat := by
  have hlt : id.toNat < 5 := lt_of_node? h
  rw [node?] at h
  interval_cases id.toNat <;> obtain rfl := Option.some.inj h <;> exact ⟨trivial, by decide⟩

/-- The agent is reset, and its variable keeps what was stored. -/
theorem activation_evaluates_spoiler : spoiler.validate = .ok () ∧ spoiler.Acyclic ∧ spoiler.Plain ∧
    spoiler.evaluate spoiler.size ⟨2⟩ ((spoilerAt 0).world.surroundings spoiler) =
      some (false, (spoilerAt 5).world.surroundings spoiler) ∧
    (spoilerAt 0).agent.primary?.map (·.id) = some 0 ∧ (spoilerAt 5).agent.primary?.map (·.id) = some 1 := by
  have acyclic : spoiler.Acyclic := acyclic_of_lt fun id child ⟨node, hnode, hchild⟩ => (spoiler_nodes hnode).2 child hchild
  have plain : spoiler.Plain := fun _ _ _ hnode => (spoiler_nodes hnode).1
  have hlength : spoilerCourse.length = 7 := by decide +kernel
  have hcourse : spoilerCourse =
      spoilerAt 0 :: ([spoilerAt 1, spoilerAt 2, spoilerAt 3, spoilerAt 4] ++ spoilerAt 5 :: [spoilerAt 6]) := by
    simp only [spoilerAt]
    generalize spoilerCourse = course at hlength
    match course, hlength with
    | [_, _, _, _, _, _, _], _ => rfl
  have hlanes : (spoilerAt 0).agent.primary?.map (·.id) = some 0 ∧ (spoilerAt 5).agent.primary?.map (·.id) = some 1 := by
    constructor <;> decide +kernel
  obtain ⟨child, ok, hroot, hrun, hreset⟩ := activation_evaluates rfl acyclic plain spoiler_story (congrArg _ hcourse)
    (by decide +kernel) (by simp) (by decide +kernel) (by decide +kernel)
  obtain rfl : ok = false := hreset.mpr (by rw [hlanes.1, hlanes.2]; decide)
  obtain rfl : child = ⟨2⟩ := by cases hroot; rfl
  exact ⟨rfl, acyclic, plain, hrun, hlanes⟩

end Program

end BehaviorTree
