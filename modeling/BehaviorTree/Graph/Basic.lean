import BehaviorTree.Expression.Basic

/-! Behavior graphs. Control runs from an outgoing flow port to the incoming flow port of the node
that is run next; values run from an outgoing value port to every incoming one that reads it. A
graph invokes another one through a call node, whose ports are those of the other graph's input
and output nodes. -/

namespace BehaviorTree

inductive Direction where
  | incoming
  | outgoing
  deriving DecidableEq, Repr, Inhabited

inductive PortKind where
  | flow
  | value (type : ValueType)
  deriving DecidableEq, Repr, Inhabited

namespace PortKind

def name : PortKind → String
  | flow => "flow"
  | value type => type.name

def ofName? (name : String) : Option PortKind :=
  if name = "flow" then some flow else (ValueType.ofName? name).map value

def type? : PortKind → Option ValueType
  | flow => none
  | value type => some type

end PortKind

structure Port where
  name : String
  direction : Direction
  kind : PortKind
  /-- The value of an incoming port without a link. -/
  inline : Option Constant
  deriving DecidableEq, Repr, Inhabited

/-- A port of a graph: the indices of its node and of the port on that node. -/
structure PortRef where
  node : Nat
  port : Nat
  deriving DecidableEq, Repr, Inhabited

/-- Leads from an outgoing port to an incoming one. -/
structure Link where
  source : PortRef
  target : PortRef
  deriving DecidableEq, Repr, Inhabited

/-- The place of a graph among the graphs that may call each other. -/
abbrev GraphId := Nat

/-- A node that computes a value. -/
inductive Operator where
  | readField (component field : String)
  | lookupField (lookup : UInt16) (component field : String)
  | readVar (var : String)
  | not
  | and
  | or
  | compare (op : CompareOp) (type : ValueType)
  | arith (op : ArithOp) (type : ValueType)
  deriving DecidableEq, Repr

/-- A node that becomes an instruction. -/
inductive Action where
  | root
  | sequence
  | selector
  | writeField (component : String)
  | waitFor
  | waitUntil
  | fail
  | optional
  | catch
  | writeVar (var : String)
  | query (id : UInt16) (var : String)
  | parallel
  | threadRoot (looping : Bool)
  deriving DecidableEq, Repr

inductive Role where
  | action (action : Action)
  | operator (operator : Operator)
  | call (graph : GraphId)
  /-- Carries the parameters of a graph. -/
  | input
  /-- Carries the results of a graph. -/
  | output
  deriving DecidableEq, Repr

def Action.name : Action → String
  | root => "root"
  | sequence => "sequence"
  | selector => "selector"
  | writeField _ => "write-field"
  | waitFor => "wait-for"
  | waitUntil => "wait-until"
  | fail => "fail"
  | optional => "optional"
  | .catch => "catch"
  | writeVar _ => "write-var"
  | query _ _ => "query"
  | parallel => "parallel"
  | threadRoot _ => "thread-root"

def Operator.name : Operator → String
  | readField _ _ => "read-field"
  | lookupField _ _ _ => "lookup-field"
  | readVar _ => "read-var"
  | not => "not"
  | and => "and"
  | or => "or"
  | compare _ _ => "compare"
  | arith _ _ => "arith"

namespace Role

def name : Role → String
  | action a => a.name
  | operator o => o.name
  | call _ => "call"
  | input => "input"
  | output => "output"

def isAction : Role → Bool
  | action _ => true
  | _ => false

/-- Whether the node only passes wires through the boundary of its graph. -/
def isBoundary : Role → Bool
  | input | output => true
  | _ => false

end Role

structure GraphNode where
  label : String
  role : Role
  ports : Array Port
  deriving DecidableEq, Repr

instance : Inhabited GraphNode := ⟨"", .input, #[]⟩

namespace GraphNode

/-- The first port of a name. -/
def port? (node : GraphNode) (name : String) : Option Nat :=
  node.ports.findIdx? (·.name = name)

def port (node : GraphNode) (index : Nat) : Port :=
  node.ports.getD index default

/-- The indices of the flow ports, or of the value ports, of a direction. -/
def portsWhere (node : GraphNode) (direction : Direction) (flow : Bool) : List Nat :=
  (List.range node.ports.size).filter fun index =>
    let port := node.port index
    port.direction = direction && (port.kind = .flow) == flow

def flowOutputs (node : GraphNode) : List Nat :=
  node.portsWhere .outgoing true

def valueInputs (node : GraphNode) : List Nat :=
  node.portsWhere .incoming false

/-- The type of the first port of a name, if it carries a value. -/
def valueType? (node : GraphNode) (name : String) : Option ValueType :=
  (node.port? name).bind fun index => (node.port index).kind.type?

end GraphNode

structure Graph where
  name : String
  nodes : Array GraphNode
  links : Array Link
  deriving DecidableEq, Repr, Inhabited

namespace Graph

def empty (name : String) : Graph :=
  ⟨name, #[], #[]⟩

def node (graph : Graph) (index : Nat) : GraphNode :=
  graph.nodes.getD index default

/-- The first node with a label. -/
def find? (graph : Graph) (label : String) : Option Nat :=
  graph.nodes.findIdx? (·.label = label)

/-- The links that leave a port, oldest first. -/
def linksFrom (graph : Graph) (source : PortRef) : List Link :=
  graph.links.toList.filter (·.source = source)

/-- The links that arrive at a port, oldest first. -/
def linksTo (graph : Graph) (target : PortRef) : List Link :=
  graph.links.toList.filter (·.target = target)

def inputNode? (graph : Graph) : Option Nat :=
  graph.nodes.findIdx? (·.role = .input)

def outputNode? (graph : Graph) : Option Nat :=
  graph.nodes.findIdx? (·.role = .output)

end Graph

/-- Graphs that call each other by their place. A graph only calls graphs that stand before it. -/
abbrev Library := Array Graph

namespace Library

def graph (library : Library) (id : GraphId) : Graph :=
  library.getD id default

/-- The first graph of a name. -/
def find? (library : Library) (name : String) : Option GraphId :=
  library.findIdx? (·.name = name)

end Library

end BehaviorTree
