import BehaviorTree.Machine.Queries
import BehaviorTree.Program.Node

/-! What a tick reports. Reports do not influence what the tick does. -/

namespace BehaviorTree

inductive EventKind where
  /-- A lane begins its turn; reported on its root. -/
  | start
  /-- A node hands control down to a child; reported on the caller. -/
  | call
  /-- A node finished. -/
  | return
  /-- A lane came back to its root and ends its turn. -/
  | yield
  /-- A lane waits, for a time, a condition or a query. -/
  | wait
  | fail
  /-- A failure was absorbed. -/
  | catch
  /-- A lane was started, and is the lane of the event. -/
  | spawn
  /-- A lane was removed, and is the lane of the event. -/
  | abort
  deriving DecidableEq, Repr

def EventKind.name : EventKind → String
  | start => "Start"
  | call => "Call"
  | .return => "Return"
  | yield => "Yield"
  | wait => "Wait"
  | fail => "Fail"
  | .catch => "Catch"
  | spawn => "Spawn"
  | abort => "Abort"

structure TraceEvent where
  node : NodeId
  nodeKind : NodeKind
  event : EventKind
  lane : LaneId
  /-- Number of frames of the reporting lane. -/
  depth : Nat
  cycle : Nat
  deriving DecidableEq, Repr

/-- The cycle in five columns, the lane, and the event, indented by the depth. -/
def TraceEvent.text (e : TraceEvent) : String :=
  "[" ++ Text.padLeft ' ' 5 (toString e.cycle) ++ s!"] L{e.lane} " ++
    String.ofList (List.replicate (2 * e.depth) ' ') ++ s!"{e.node.text} {e.nodeKind.name}.{e.event.name}"

/-- Everything that happens in a tick, in order. -/
inductive Notice where
  | traced (event : TraceEvent)
  | arenaGrew (lane size : Nat)
  | spawned (node : NodeId) (lane : LaneId) (index : Nat)
  | restarted (lane : LaneId)
  | submitted (request : QueryRequest)
  | evaluated (value : ValueRef)
  deriving DecidableEq, Repr

namespace Notice

def event? : Notice → Option TraceEvent
  | traced event => some event
  | _ => none

def request? : Notice → Option QueryRequest
  | submitted request => some request
  | _ => none

def value? : Notice → Option ValueRef
  | evaluated value => some value
  | _ => none

/-- The log record of a notice. Events of the trace are kept out of the log. -/
def logText? : Notice → Option String
  | traced _ | evaluated _ => none
  | arenaGrew lane size =>
    some s!"TRACE lane {lane} grew into its successor, arena now {size} frames"
  | spawned node lane index => some s!"TRACE {node.text} spawned lane L{lane} at {index}"
  | restarted lane => some s!"DEBUG uncaught failure in lane L{lane}, restarting agent from root"
  | submitted request => some s!"DEBUG query {request.query} submitted by L{request.lane}"

/-- The log record of a notice if the trace goes to the log as well. -/
def tracedLogText? : Notice → Option String
  | traced event => some s!"TRACE {event.text}"
  | notice => notice.logText?

end Notice

end BehaviorTree
