import BehaviorTree.Machine.Run
import BehaviorTree.Proofs.Machine.Landmarks

/-! Steps are counted by the run alone. Whatever a step does, it leaves the number of steps begun as it found it. -/

namespace BehaviorTree

namespace Act

open Tick (overlooks_cycle)

variable {σ α : Type}

/-- The number of steps begun stays. -/
abbrev Counted (act : Act σ α) : Prop :=
  act.Leaves fun t => t.cycle

namespace Counted

theorem notice (n : Notice) : (Act.notice n : Act σ Unit).Counted :=
  fun _ => .of_eq rfl rfl

theorem emit (p : Program) (index : Nat) (id : NodeId) (event : EventKind) :
    (Act.emit p index id event : Act σ Unit).Counted :=
  (Leaves.lane index).bind fun _ => (Leaves.node p id).bind fun _ => .get_bind fun _ => notice _

theorem createPrimary : (Act.createPrimary : Act σ Unit).Counted :=
  overlooks_cycle.createPrimary

theorem call (p : Program) (index : Nat) (caller : NodeId) (progress : UInt16) (child : NodeId) :
    (Act.call p index caller progress child : Act σ Unit).Counted :=
  (overlooks_cycle.onLanes index _).bind fun _ => (emit p index caller .call).bind fun _ => overlooks_cycle.onLanes index _

theorem laneRoot (p : Program) (index : Nat) (frame : Frame) (child : NodeId) (once rootVisited : Bool) :
    (Act.laneRoot p index frame child once rootVisited : Act σ Outcome).Counted := by
  unfold Act.laneRoot
  split_ifs
  · exact (emit p index frame.node .yield).bind fun _ => .pure _
  · exact (call p index frame.node 1 child).bind fun _ => .pure _

theorem single (p : Program) (index : Nat) (frame : Frame) (child : NodeId) :
    (Act.single p index frame child : Act σ Unit).Counted := by
  unfold Act.single
  split_ifs
  · exact call p index frame.node 1 child
  · exact overlooks_cycle.finish p index frame.node

theorem andGoOn {act : Act σ Unit} (h : act.Counted) : (Act.andGoOn act).Counted :=
  h.bind fun _ => .pure _

section Queries

variable [QuerySystem σ]

theorem restart (index : Nat) : (Act.restart index : Act σ Outcome).Counted :=
  (Leaves.lane index).bind fun _ => (notice _).bind fun _ => overlooks_cycle.startOver index

theorem fail (p : Program) (index : Nat) (id : NodeId) : (Act.fail p index id : Act σ Outcome).Counted := by
  refine (emit p index id .fail).bind fun _ => (overlooks_cycle.onLanes index _).bind fun _ => ?_
  refine (Leaves.lane index).bind fun lane => (overlooks_cycle.unwind p index lane.count).bind fun caught => ?_
  cases caught with
  | true => exact .pure Outcome.goOn
  | false => exact restart index

theorem parallel (p : Program) (index : Nat) (frame : Frame) (main thread : NodeId) :
    (Act.parallel p index frame main thread : Act σ Unit).Counted := by
  unfold Act.parallel
  split_ifs
  · refine (overlooks_cycle.onLanes index _).bind fun _ => overlooks_cycle.freshLane.bind fun id => .get_bind fun t => ?_
    refine (overlooks_cycle.onLanes _ _).bind fun _ => (notice _).bind fun _ => (Leaves.lane index).bind fun _ => ?_
    exact (overlooks_cycle.emitFor p frame.node (by decide) id _).bind fun _ => call p index frame.node 1 main
  · exact (overlooks_cycle.abortThread p index frame.node thread).bind fun _ => overlooks_cycle.finish p index frame.node

theorem stepNode (p : Program) (index : Nat) (frame : Frame) (isBottom rootVisited : Bool) (node : Node) :
    (Act.stepNode p index frame isBottom rootVisited node : Act σ Outcome).Counted := by
  have hfinish : (Act.finish p index frame.node : Act σ Unit).Counted :=
    overlooks_cycle.finish p index frame.node
  cases node with
  | nop => exact andGoOn hfinish
  | root child | threadRoot child _ =>
    rw [Act.stepNode]
    split_ifs
    · exact laneRoot p index frame child _ rootVisited
    · exact andGoOn (single p index frame child)
  | «catch» child => exact andGoOn (single p index frame child)
  | sequence children =>
    rw [Act.stepNode]
    refine andGoOn ?_
    split
    · split_ifs
      · exact call p index frame.node _ _
      · exact (Leaves.throw _).bind fun _ => call p index frame.node _ _
    · exact hfinish
  | selector branches =>
    rw [Act.stepNode]
    split_ifs
    · exact andGoOn hfinish
    · refine (overlooks_cycle.choose p branches 0).bind fun choice => ?_
      cases choice with
      | none => exact fail p index frame.node
      | some r => exact andGoOn (call p index frame.node r.1 r.2)
  | writeField component fields =>
    exact andGoOn ((Leaves.forM (overlooks_cycle.writeField p component) fields).bind fun _ => hfinish)
  | wait goal => exact overlooks_cycle.wait p index frame goal
  | fail => exact fail p index frame.node
  | optional guard child =>
    rw [Act.stepNode]
    refine andGoOn ?_
    split_ifs
    · exact hfinish
    · refine (overlooks_cycle.evaluateWith p guard _).bind fun holds => ?_
      cases holds with
      | false => exact hfinish
      | true => exact call p index frame.node 1 child
  | writeVar slot value => exact andGoOn ((overlooks_cycle.writeVar p slot value).bind fun _ => hfinish)
  | query id result => exact overlooks_cycle.query p index frame id result
  | parallel main thread => exact andGoOn (parallel p index frame main thread)

theorem step (p : Program) (index : Nat) (rootVisited : Bool) :
    (Act.step p index rootVisited : Act σ Outcome).Counted := by
  refine (Leaves.top? index).bind fun top => ?_
  cases top with
  | none => exact .throw _
  | some frame =>
    exact (Leaves.lane index).bind fun lane => (Leaves.node p frame.node).bind fun node =>
      stepNode p index frame _ rootVisited node

end Queries

/-- The turn of a lane begins without a step. -/
theorem beginTurn (p : Program) (index : Nat) : (Act.beginTurn p index : Act σ Unit).Counted := by
  refine .get_bind fun t => (Leaves.lift (t.agent.lanes.frames index)).bind fun frames => ?_
  cases frames with
  | nil => exact .throw _
  | cons bottom _ => exact emit p index bottom.node .start

end Counted

end Act

end BehaviorTree
