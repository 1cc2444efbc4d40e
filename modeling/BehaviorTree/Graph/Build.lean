import BehaviorTree.Graph.Basic

/-! Building graphs: nodes with the ports that belong to their kind, links between ports of one
kind, and inline values of the right type. -/

namespace BehaviorTree

/-- What a node is built from. -/
inductive NodeSpec where
  | root
  | sequence (children : Nat)
  | selector (branches : Nat)
  | writeField (component : String) (fields : List (String × ValueType))
  | waitFor
  | waitUntil
  | fail
  | optional
  | catch
  | writeVar (var : String) (type : ValueType)
  | query (id : UInt16) (var : String)
  | parallel
  | threadRoot (looping : Bool)
  | input (ports : List (String × PortKind))
  | output (ports : List (String × PortKind))
  | call (graph : GraphId) (callee : Graph)
  | readField (component field : String) (type : ValueType)
  | lookupField (lookup : UInt16) (component field : String) (type : ValueType)
  | readVar (var : String) (type : ValueType)
  | not
  | and
  | or
  | compare (op : CompareOp) (type : ValueType)
  | arith (op : ArithOp) (type : ValueType)

namespace Port

def flowIn : Port := ⟨"in", .incoming, .flow, none⟩

def flowOut (name : String) : Port := ⟨name, .outgoing, .flow, none⟩

def valueIn (name : String) (type : ValueType) : Port := ⟨name, .incoming, .value type, none⟩

def valueOut (type : ValueType) : Port := ⟨"out", .outgoing, .value type, none⟩

end Port

/-- The ports of a call: those of the first input node, then those of the first output node, seen
from the other side. -/
def Graph.callPorts (graph : Graph) : List Port :=
  let facing (node : Option Nat) (direction : Direction) : List Port :=
    match node with
    | none => []
    | some index => (graph.node index).ports.toList.map fun port =>
      ⟨port.name, direction, port.kind, none⟩
  facing graph.inputNode? .incoming ++ facing graph.outputNode? .outgoing

namespace NodeSpec

open Port

def role : NodeSpec → Role
  | root => .action .root
  | sequence _ => .action .sequence
  | selector _ => .action .selector
  | writeField component _ => .action (.writeField component)
  | waitFor => .action .waitFor
  | waitUntil => .action .waitUntil
  | fail => .action .fail
  | optional => .action .optional
  | .catch => .action .catch
  | writeVar var _ => .action (.writeVar var)
  | query id var => .action (.query id var)
  | parallel => .action .parallel
  | threadRoot looping => .action (.threadRoot looping)
  | input _ => .input
  | output _ => .output
  | call graph _ => .call graph
  | readField component field _ => .operator (.readField component field)
  | lookupField lookup component field _ => .operator (.lookupField lookup component field)
  | readVar var _ => .operator (.readVar var)
  | not => .operator .not
  | and => .operator .and
  | or => .operator .or
  | compare op type => .operator (.compare op type)
  | arith op type => .operator (.arith op type)

def ports : NodeSpec → List Port
  | root => [flowOut "child"]
  | sequence children => flowIn :: (List.range children).map fun i => flowOut (toString i)
  | selector branches => flowIn :: (List.range branches).flatMap fun i =>
      [flowOut (toString i), valueIn s!"guard{i}" .bool]
  | writeField _ fields => flowIn :: fields.map fun (name, type) => valueIn name type
  | waitFor => [flowIn, valueIn "duration" .float]
  | waitUntil => [flowIn, valueIn "condition" .bool]
  | fail | query _ _ => [flowIn]
  | optional => [flowIn, flowOut "child", valueIn "guard" .bool]
  | .catch | threadRoot _ => [flowIn, flowOut "child"]
  | writeVar _ type => [flowIn, valueIn "value" type]
  | parallel => [flowIn, flowOut "main", flowOut "parallel"]
  | input ports => ports.map fun (name, kind) => ⟨name, .outgoing, kind, none⟩
  | output ports => ports.map fun (name, kind) => ⟨name, .incoming, kind, none⟩
  | call _ callee => callee.callPorts
  | readField _ _ type | lookupField _ _ _ type | readVar _ type => [valueOut type]
  | not => [valueIn "a" .bool, valueOut .bool]
  | and | or => [valueIn "a" .bool, valueIn "b" .bool, valueOut .bool]
  | compare _ type => [valueIn "a" type, valueIn "b" type, valueOut .bool]
  | arith _ type => [valueIn "a" type, valueIn "b" type, valueOut type]

/-- A node has its ports in one piece of memory, and this many ports fill all that can be addressed. -/
def maxPorts : Nat := 230584300921369395

/-- Whether there is room for the children of a sequence beside its first port. -/
def fits : NodeSpec → Bool
  | sequence children => children < maxPorts
  | _ => true

end NodeSpec

inductive GraphError where
  | missingNode (index : Nat)
  | unknownPort (node port : String)
  | wrongDirection (node port : String)
  | kindMismatch (source target : PortKind)
  | inlineMismatch (node port : String) (expected : PortKind)
  deriving DecidableEq, Repr

namespace GraphError

def name : GraphError → String
  | missingNode _ => "MissingNode"
  | unknownPort _ _ => "UnknownPort"
  | wrongDirection _ _ => "WrongDirection"
  | kindMismatch _ _ => "KindMismatch"
  | inlineMismatch _ _ _ => "InlineMismatch"

def message : GraphError → String
  | missingNode index => s!"no node {index}"
  | unknownPort node port => s!"node {node} has no port `{port}`"
  | wrongDirection node port => s!"`{node}.{port}` cannot be linked in this direction"
  | kindMismatch source target => s!"cannot link a {source.name} port to a {target.name} port"
  | inlineMismatch node port expected => s!"`{node}.{port}` expects a {expected.name} value"

end GraphError

namespace Graph

/-- Appends a node and returns its index. Its label is made from its kind and its index. -/
def add (graph : Graph) (spec : NodeSpec) : Graph × Nat :=
  let index := graph.nodes.size
  let node : GraphNode := ⟨s!"{spec.role.name}{index}", spec.role, spec.ports.toArray⟩
  ({ graph with nodes := graph.nodes.push node }, index)

/-- Appends a node if there is room for its ports. -/
def place (graph : Graph) (spec : NodeSpec) : Except Fault (Graph × Nat) :=
  if spec.fits then .ok (graph.add spec) else .error .tooLarge

def setLabel (graph : Graph) (index : Nat) (label : String) : Graph :=
  { graph with nodes := graph.nodes.modify index fun node => { node with label := label } }

/-- The first port of a name on a node, which has to face the given direction. -/
def resolvePort (graph : Graph) (index : Nat) (name : String) (direction : Direction) :
    Except GraphError (PortRef × PortKind) :=
  match graph.nodes[index]? with
  | none => .error (.missingNode index)
  | some node =>
    match node.port? name with
    | none => .error (.unknownPort node.label name)
    | some port =>
      if (node.port port).direction = direction then .ok (⟨index, port⟩, (node.port port).kind)
      else .error (.wrongDirection node.label name)

/-- Links an outgoing port to an incoming one. A port may have any number of links here. -/
def connect (graph : Graph) (source target : Nat × String) : Except GraphError Graph := do
  let (sourceRef, sourceKind) ← graph.resolvePort source.1 source.2 .outgoing
  let (targetRef, targetKind) ← graph.resolvePort target.1 target.2 .incoming
  if sourceKind = targetKind then
    return { graph with links := graph.links.push ⟨sourceRef, targetRef⟩ }
  else throw (.kindMismatch sourceKind targetKind)

/-- Sets the value of an incoming port for the case that it has no link. -/
def setInline (graph : Graph) (index : Nat) (name : String) (value : Constant) :
    Except GraphError Graph := do
  let (ref, kind) ← graph.resolvePort index name .incoming
  if kind = .value value.type then
    return { graph with nodes := graph.nodes.modify ref.node fun node =>
      { node with ports := node.ports.modify ref.port fun port => { port with inline := some value } } }
  else throw (.inlineMismatch (graph.node index).label name kind)

end Graph

end BehaviorTree
