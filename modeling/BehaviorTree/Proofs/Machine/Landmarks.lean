import BehaviorTree.Proofs.Machine.Leaves

/-! The landmarks of a tick: where the turns of lanes begin, where roots call their children, and where the agent
starts over. Most parts of a step are no landmarks. -/

namespace BehaviorTree

inductive Landmark
  /-- The turn of a lane begins. -/
  | began (lane : LaneId)
  /-- The bottom frame of a lane calls its child. -/
  | entered (lane : LaneId) (root : NodeId)
  /-- Nothing caught the failure of a lane, and the agent starts over. -/
  | restarted (lane : LaneId)
  deriving DecidableEq, Repr

def Notice.landmark? : Notice → Option Landmark
  | .traced e =>
    match e.event with
    | .start => some (.began e.lane)
    | .call => if e.depth = 1 then some (.entered e.lane e.node) else none
    | _ => none
  | .restarted lane => some (.restarted lane)
  | _ => none

theorem Notice.landmark?_traced {e : TraceEvent} (h : e.event ≠ .start ∧ e.event ≠ .call) :
    (Notice.traced e).landmark? = none := by
  obtain ⟨node, kind, event, lane, depth, cycle⟩ := e
  cases event with
  | start => exact absurd rfl h.1
  | call => exact absurd rfl h.2
  | _ => rfl

namespace Landmark

/-- The lanes that had a turn, in this order. -/
def turns (landmarks : List Landmark) : List LaneId :=
  landmarks.filterMap fun
    | began lane => some lane
    | _ => none

/-- The calls of bottom frames: the lane, and the node at its bottom. -/
def entries (landmarks : List Landmark) : List (LaneId × NodeId) :=
  landmarks.filterMap fun
    | entered lane root => some (lane, root)
    | _ => none

/-- The lanes whose failures nothing caught. -/
def restarts (landmarks : List Landmark) : List LaneId :=
  landmarks.filterMap fun
    | restarted lane => some lane
    | _ => none

@[simp] theorem turns_append (before after : List Landmark) : turns (before ++ after) = turns before ++ turns after :=
  List.filterMap_append

@[simp] theorem entries_append (before after : List Landmark) :
    entries (before ++ after) = entries before ++ entries after :=
  List.filterMap_append

@[simp] theorem restarts_append (before after : List Landmark) :
    restarts (before ++ after) = restarts before ++ restarts after :=
  List.filterMap_append

end Landmark

namespace Tick

variable {σ α γ : Type}

def landmarks (t : Tick σ) : List Landmark :=
  t.notices.toList.filterMap Notice.landmark?

theorem landmarks_push (t : Tick σ) (n : Notice) :
    { t with notices := t.notices.push n }.landmarks = t.landmarks ++ n.landmark?.toList := by
  simp only [landmarks, Array.toList_push, List.filterMap_append]
  cases h : n.landmark? <;> simp [h]

/-- What is seen of a tick depends neither on the agent nor on its world nor on notices that are no landmarks. -/
structure Overlooks (see : Tick σ → γ) : Prop where
  of_agent : ∀ t agent, see { t with agent := agent } = see t
  of_world : ∀ t world, see { t with world := world } = see t
  of_notice : ∀ t n, n.landmark? = none → see { t with notices := t.notices.push n } = see t

theorem overlooks_landmarks : Overlooks (landmarks : Tick σ → List Landmark) where
  of_agent _ _ := rfl
  of_world _ _ := rfl
  of_notice t n h := by rw [landmarks_push, h, Option.toList_none, List.append_nil]

theorem overlooks_cycle : Overlooks fun t : Tick σ => t.cycle where
  of_agent _ _ := rfl
  of_world _ _ := rfl
  of_notice _ _ _ := rfl

namespace Overlooks

open Act

variable {see : Tick σ → γ} (overlooks : Overlooks see)
include overlooks

/-! ### Reports -/

theorem notice {n : Notice} (h : n.landmark? = none) : (Act.notice n : Act σ Unit).Leaves see :=
  fun t => .of_eq rfl (overlooks.of_notice t n h)

theorem emitFor (p : Program) (id : NodeId) {event : EventKind} (h : event ≠ .start ∧ event ≠ .call) (laneId : LaneId)
    (depth : Nat) : (Act.emitFor p id event laneId depth : Act σ Unit).Leaves see :=
  (Leaves.node p id).bind fun _ => .get_bind fun _ => overlooks.notice (Notice.landmark?_traced h)

theorem emit (p : Program) (index : Nat) (id : NodeId) {event : EventKind} (h : event ≠ .start ∧ event ≠ .call) :
    (Act.emit p index id event : Act σ Unit).Leaves see :=
  (Leaves.lane index).bind fun _ => overlooks.emitFor p id h _ _

theorem evaluateWith (p : Program) (value : ValueRef) (read : Surroundings → ValueRef → Except Fault α) :
    (Act.evaluateWith p value read : Act σ α).Leaves see :=
  (overlooks.notice rfl).bind fun _ => .get_bind fun _ => .lift _

theorem choose (p : Program) (branches : List Branch) (progress : Nat) :
    (Act.choose p branches progress : Act σ _).Leaves see := by
  induction branches generalizing progress with
  | nil => exact .pure none
  | cons branch rest ih =>
    refine (overlooks.evaluateWith p branch.guard _).bind fun holds => ?_
    cases holds with
    | false => exact ih _
    | true =>
      by_cases h : progress % 0x10000 + 1 < 0x10000
      · simp only [h, if_true]
        exact .pure _
      · simp only [h, if_false, if_true]
        exact (Leaves.throw _).bind fun _ => .pure _

theorem waitOver (p : Program) (index : Nat) (goal : WaitGoal) :
    (Act.waitOver p index goal : Act σ Bool).Leaves see := by
  cases goal with
  | condition holds => exact overlooks.evaluateWith p holds _
  | duration seconds =>
    exact (overlooks.evaluateWith p seconds _).bind fun _ => (Leaves.lane index).bind fun _ =>
      .get_bind fun _ => .pure _

/-! ### Lanes and memory -/

/-- That the arena grows is no landmark. -/
theorem onLanes (index : Nat) (f : LaneStack → Except Fault (α × LaneStack)) :
    (Act.onLanes index f : Act σ α).Leaves see := by
  intro t
  cases h : f t.agent.lanes with
  | error fault => exact .onLanes_error h trivial
  | ok r =>
    have hact : Act.onLanes index f t = putLanes index t.agent.lanes.arena.size t.agent.holder t.agent.nextLane
        t.world t.cycle t.notices (.ok (r.1, r.2)) := by
      rw [← h]
      rfl
    refine .of_eq hact ?_
    split_ifs
    · exact (overlooks.of_notice _ _ rfl).trans (overlooks.of_agent t _)
    · exact overlooks.of_agent t _

theorem onWorld (f : World σ → Except Fault (World σ)) : (Act.onWorld f : Act σ Unit).Leaves see :=
  fun t => .onWorld fun world _ => overlooks.of_world t world

theorem setHolder (holder : Option QueryRequest) : (Act.setHolder holder : Act σ Unit).Leaves see :=
  fun t => .of_eq rfl (overlooks.of_agent t _)

theorem freshLane : (Act.freshLane : Act σ LaneId).Leaves see := by
  intro t
  by_cases h : t.agent.nextLane + 1 < 0x100000000
  · exact .of_eq (freshLane_of_lt h) (overlooks.of_agent t _)
  · exact .of_error (freshLane_of_le (Nat.le_of_not_lt h)) trivial

theorem createPrimary : (Act.createPrimary : Act σ Unit).Leaves see :=
  overlooks.freshLane.bind fun _ => overlooks.onLanes 0 _

theorem finish (p : Program) (index : Nat) (id : NodeId) : (Act.finish p index id : Act σ Unit).Leaves see :=
  (overlooks.emit p index id (by decide)).bind fun _ => overlooks.onLanes index _

theorem writeField (p : Program) (component : UInt16) (field : FieldWrite) :
    (Act.writeField p component field : Act σ Unit).Leaves see := by
  unfold Act.writeField
  split_ifs
  · exact (overlooks.evaluateWith p field.value _).bind fun _ => overlooks.onWorld _
  · exact .throw _

theorem writeVar (p : Program) (slot : VarSlot) (value : ValueRef) : (Act.writeVar p slot value : Act σ Unit).Leaves see :=
  (overlooks.evaluateWith p value _).bind fun _ => overlooks.onWorld _

/-! ### Nodes -/

theorem wait (p : Program) (index : Nat) (frame : Frame) (goal : WaitGoal) :
    (Act.wait p index frame goal : Act σ Outcome).Leaves see := by
  have hrest : (do
      if ← Act.waitOver p index goal then
        Act.finish p index frame.node
        return .goOn
      else
        Act.emit p index frame.node .wait
        return .suspend : Act σ Outcome).Leaves see := by
    refine (overlooks.waitOver p index goal).bind fun passed => ?_
    cases passed with
    | true => exact (overlooks.finish p index frame.node).bind fun _ => .pure _
    | false => exact (overlooks.emit p index frame.node (by decide)).bind fun _ => .pure _
  unfold Act.wait
  split_ifs
  · exact (overlooks.onLanes index _).bind fun _ => .get_bind fun _ => (overlooks.onLanes index _).bind fun _ => hrest
  · exact hrest

section Queries

variable [QuerySystem σ]

theorem submit (request : QueryRequest) : (Act.submit request : Act σ Unit).Leaves see :=
  (overlooks.notice rfl).bind fun _ => overlooks.onWorld _

theorem poll (request : QueryRequest) : (Act.poll request : Act σ QueryStatus).Leaves see :=
  fun t => .of_eq rfl (overlooks.of_world t _)

theorem abort (p : Program) (index : Nat) (id : NodeId) (owned : Nat) :
    (Act.abort p index id owned : Act σ Unit).Leaves see := by
  refine (Leaves.lane index).bind fun lane => (overlooks.onLanes index _).bind fun removed => .forM (fun gone => ?_) _
  have hreport : (Act.emitFor p id .abort gone.id lane.count : Act σ Unit).Leaves see :=
    overlooks.emitFor p id (by decide) gone.id lane.count
  refine .get_bind fun t => ?_
  cases t.agent.holder with
  | none => exact hreport
  | some request =>
    dsimp only
    split_ifs
    · exact (overlooks.setHolder none).bind fun _ => (overlooks.onWorld _).bind fun _ => hreport
    · exact hreport

theorem abortThread (p : Program) (index : Nat) (id thread : NodeId) :
    (Act.abortThread p index id thread : Act σ Unit).Leaves see := by
  refine .get_bind fun t => ?_
  cases t.agent.lanes.findOwned? index thread with
  | none => exact .pure ()
  | some owned => exact overlooks.abort p index id owned

theorem unwind (p : Program) (index depth : Nat) : (Act.unwind p index depth : Act σ Bool).Leaves see := by
  induction depth with
  | zero => exact .pure false
  | succ depth ih =>
    unfold Act.unwind
    refine (Leaves.top? index).bind fun top => ?_
    cases top with
    | none => exact .pure false
    | some frame =>
      refine (Leaves.node p frame.node).bind fun node => ?_
      split
      · exact (overlooks.emit p index frame.node (by decide)).bind fun _ => (overlooks.onLanes index _).bind fun _ =>
          .pure true
      · exact (overlooks.abortThread p index frame.node _).bind fun _ => (overlooks.onLanes index _).bind fun _ => ih
      · exact (overlooks.onLanes index _).bind fun _ => ih

/-- What `restart` does after it has said so. -/
theorem startOver (index : Nat) : (do
    if let some request := (← get).agent.holder then
      Act.setHolder none
      Act.cancel request
    Act.onLanes index fun s => .ok ((), s.reset)
    Act.createPrimary
    return if index = 0 then .goOn else .suspend : Act σ Outcome).Leaves see := by
  have hbegin : (do
      Act.onLanes index fun s => .ok ((), s.reset)
      Act.createPrimary
      return if index = 0 then .goOn else .suspend : Act σ Outcome).Leaves see :=
    (overlooks.onLanes index _).bind fun _ => overlooks.createPrimary.bind fun _ => .pure _
  refine .get_bind fun t => ?_
  cases t.agent.holder with
  | none => exact hbegin
  | some request => exact (overlooks.setHolder none).bind fun _ => (overlooks.onWorld _).bind fun _ => hbegin

theorem query (p : Program) (index : Nat) (frame : Frame) (id : UInt16) (result : VarSlot) :
    (Act.query p index frame id result : Act σ Outcome).Leaves see := by
  refine (Leaves.lane index).bind fun lane => .get_bind fun t => ?_
  dsimp only
  split_ifs
  · exact (overlooks.emit p index frame.node (by decide)).bind fun _ => .pure _
  on_goal 1 => refine (overlooks.setHolder _).bind fun _ => (overlooks.onLanes index _).bind fun _ =>
    (overlooks.submit _).bind fun _ => ?_
  -- Whether it has just been asked or before, the query looks for its results.
  all_goals
    refine (overlooks.poll _).bind fun status => ?_
    cases status with
    | complete count =>
      exact (overlooks.onWorld _).bind fun _ => (overlooks.setHolder none).bind fun _ =>
        (overlooks.finish p index frame.node).bind fun _ => .pure _
    | pending => exact (overlooks.emit p index frame.node (by decide)).bind fun _ => .pure _

end Queries

end Overlooks

end Tick

end BehaviorTree
