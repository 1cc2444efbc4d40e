import BehaviorTree.Compile.Wire
import BehaviorTree.Memory.Component
import Std.Data.HashMap
import Std.Data.HashSet
import Std.Data.TreeMap
import Std.Data.TreeSet

/-! Registration: which instances a program consists of, and in which order. Actions are numbered
when they are reached, operators after their operands. The walk is a list of tasks; a task that
leads on puts new tasks in front, so that the walk goes into depth. -/

namespace BehaviorTree

/-- Everything that a compilation reads. -/
structure Sources where
  library : Library
  catalog : Catalog
  blackboard : BlackboardLayout
  entry : GraphId

namespace Sources

/-- The component type of a name, if the catalog has it. -/
def componentType? (src : Sources) (name : String) : Option ComponentType :=
  (src.catalog.get? name).map fun layout => ⟨name, componentTypeId name, layout.size⟩

/-- The greatest number of ports of a node. -/
def maxPorts (src : Sources) : Nat :=
  src.library.foldl (fun most graph => graph.nodes.foldl (fun most node => max most node.ports.size) most) 0

end Sources

/-- Nodes and operations are numbered in 16 bits. -/
def maxIndex : Nat := 65535

structure Registry where
  actions : Std.HashMap InstanceKey NodeId
  actionOrder : Array Instance
  operators : Std.HashMap InstanceKey UInt16
  operatorOrder : Array Instance
  /-- Operators whose operands are being registered. -/
  inProgress : Std.HashSet InstanceKey
  types : Std.TreeSet String
  lookups : Std.TreeMap Nat String
  visited : Std.HashSet (GraphId × Nat)
  /-- The graphs of visited nodes, in the order of their first visit. -/
  graphs : Array GraphId
  errors : Array CompileError
  warnings : Array CompileWarning

namespace Registry

def start (entry : GraphId) : Registry :=
  ⟨∅, #[], ∅, #[], ∅, ∅, ∅, ∅, #[entry], #[], #[]⟩

def addError (r : Registry) (e : CompileError) : Registry :=
  { r with errors := r.errors.push e }

def visit (r : Registry) (graph : GraphId) (node : Nat) : Registry :=
  let graphs := if r.graphs.contains graph then r.graphs else r.graphs.push graph
  { r with visited := r.visited.insert (graph, node), graphs := graphs }

/-- Keeps what was seen along a wire. -/
def absorb (r : Registry) (trail : Trail) : Registry :=
  let r := trail.visits.foldl (fun r (graph, node) => r.visit graph node) r
  { r with errors := r.errors ++ trail.errors, warnings := r.warnings ++ trail.warnings }

/-- A component type that the program touches. -/
def noteType (src : Sources) (r : Registry) (component : String) : Registry :=
  if (src.catalog.get? component).isSome then { r with types := r.types.insert component } else r

/-- The component type behind a lookup, which has to be the same everywhere. -/
def noteLookup (src : Sources) (r : Registry) (site : Location) (lookup : UInt16) (component : String) :
    Registry :=
  if (src.catalog.get? component).isNone then r
  else
    match r.lookups[lookup.toNat]? with
    | some expected =>
      if expected = component then r else r.addError (.lookupConflict site lookup expected component)
    | none => { r with lookups := r.lookups.insert lookup.toNat component }

/-- What an action needs beside its ports. -/
def noteAction (src : Sources) (r : Registry) : Role → Registry
  | .action (.writeField component) => r.noteType src component
  | _ => r

/-- What an operator needs beside its ports. -/
def noteOperator (src : Sources) (r : Registry) (site : Location) : Role → Registry
  | .operator (.readField component _) => r.noteType src component
  | .operator (.lookupField lookup component _) => r.noteLookup src site lookup component
  | _ => r

end Registry

/-- A step of the walk. -/
inductive Task where
  | action (i : Instance)
  | flow (spot : Spot)
  | value (spot : Spot)
  | operator (i : Instance)
  /-- All operands of the operator are registered. -/
  | seal (i : Instance)

namespace Registry

/-- The value inputs of an instance. -/
def valueTasks (i : Instance) (node : GraphNode) : List Task :=
  node.valueInputs.map fun port => .value ⟨i.path, i.node, port⟩

/-- Numbers an action that has not been reached before, and goes on to its ports. -/
def registerAction (src : Sources) (r : Registry) (i : Instance) : Except Fault (List Task × Registry) :=
  if r.actions.contains i.key then .ok ([], r)
  else
    let index := r.actionOrder.size + 1
    if maxIndex < index then .error .tooManyNodes
    else
      let node := i.graphNode src.library
      let r := { r with
        actions := r.actions.insert i.key ⟨UInt16.ofNat index⟩
        actionOrder := r.actionOrder.push i }
      let r := (r.visit i.path.graph i.node).noteAction src node.role
      .ok (node.flowOutputs.map (fun port => .flow ⟨i.path, i.node, port⟩) ++ valueTasks i node, r)

/-- Goes on to the operands of an operator. An operator that is met among its own operands depends
on itself. -/
def registerOperator (src : Sources) (r : Registry) (i : Instance) : List Task × Registry :=
  if r.operators.contains i.key then ([], r)
  else
    let site := (i.graph src.library).location i.node
    if r.inProgress.contains i.key then ([], r.addError (.expressionCycle site))
    else
      let node := i.graphNode src.library
      let r := { r with inProgress := r.inProgress.insert i.key }
      let r := (r.visit i.path.graph i.node).noteOperator src site node.role
      (valueTasks i node ++ [.seal i], r)

/-- Numbers an operator. -/
def sealOperator (r : Registry) (i : Instance) : Except Fault Registry :=
  let index := r.operatorOrder.size
  if maxIndex ≤ index then .error .tooManyExpressions
  else
    .ok { r with
      inProgress := r.inProgress.erase i.key
      operators := r.operators.insert i.key (UInt16.ofNat index)
      operatorOrder := r.operatorOrder.push i }

/-- One task: the tasks to do next, and what is known then. -/
def step (src : Sources) (bound : Nat) (r : Registry) : Task → Except Fault (List Task × Registry)
  | .action i => r.registerAction src i
  | .flow spot => do
    let (target, trail) ← src.library.flowTarget bound spot
    return (target.toList.map .action, r.absorb trail)
  | .value spot => do
    let (source, trail) ← src.library.valueSource bound spot
    match source with
    | some (.operator i) => return ([.operator i], r.absorb trail)
    | _ => return ([], r.absorb trail)
  | .operator i => .ok (r.registerOperator src i)
  | .seal i => (r.sealOperator i).map fun r => ([], r)

/-- Does all tasks, of which there are at most `fuel`. -/
def walk (src : Sources) (bound : Nat) : (fuel : Nat) → List Task → Registry → Except Fault Registry
  | _, [], r => .ok r
  | 0, _ :: _, _ => .error .overflow
  | fuel + 1, task :: tasks, r =>
    match r.step src bound task with
    | .error e => .error e
    | .ok (first, r) => walk src bound fuel (first ++ tasks) r

/-- A bound on the number of tasks: an instance is registered once, and every port of it leads to at
most two tasks. -/
def taskBound (src : Sources) : Nat :=
  2 * (maxIndex + 1) * (2 * src.maxPorts + 2) + 1

/-- The root nodes of the entry graph. -/
def roots (src : Sources) : List Nat :=
  let graph := src.library.graph src.entry
  (List.range graph.nodes.size).filter fun index => (graph.node index).role = .action .root

/-- All instances that are reached from the first root. -/
def build (src : Sources) : Except Fault Registry :=
  let graph := src.library.graph src.entry
  let r := start src.entry
  match roots src with
  | [] => .ok (r.addError (.missingRoot graph.name))
  | root :: others =>
    let r := others.foldl (fun r extra => r.addError (.duplicateRoot (graph.location extra))) r
    walk src (src.library.wireBound src.entry) (taskBound src) [.action ⟨.start src.entry, root⟩] r

/-- The nodes of visited graphs that were not reached. Input and output nodes need not be. -/
def unreached (src : Sources) (r : Registry) : List CompileWarning :=
  r.graphs.toList.flatMap fun id =>
    let graph := src.library.graph id
    (List.range graph.nodes.size).filterMap fun index =>
      if (graph.node index).role.isBoundary || r.visited.contains (id, index) then none
      else some (.unreachable (graph.location index))

end Registry

end BehaviorTree
