import BehaviorTree.Compile.CallPath
import BehaviorTree.Compile.Diagnostic

/-! Wires: what a port leads to when the boundaries of called graphs are crossed. A wire enters a
called graph through its input node and leaves it through its output node; values are followed
against their direction. -/

namespace BehaviorTree

/-- A port of an instance. -/
structure Spot where
  path : CallPath
  node : Nat
  port : Nat
  deriving DecidableEq, Repr

/-- What was seen on the way along a wire. -/
structure Trail where
  visits : List (GraphId × Nat)
  errors : List CompileError
  warnings : List CompileWarning
  deriving DecidableEq, Repr

namespace Trail

def empty : Trail := ⟨[], [], []⟩

instance : Append Trail :=
  ⟨fun a b => ⟨a.visits ++ b.visits, a.errors ++ b.errors, a.warnings ++ b.warnings⟩⟩

/-- Trails one after another. -/
def concat (trails : List Trail) : Trail :=
  ⟨trails.flatMap (·.visits), trails.flatMap (·.errors), trails.flatMap (·.warnings)⟩

def visit (graph : GraphId) (node : Nat) : Trail := ⟨[(graph, node)], [], []⟩

def error (e : CompileError) : Trail := ⟨[], [e], []⟩

def warning (w : CompileWarning) : Trail := ⟨[], [], [w]⟩

end Trail

/-- One step along a wire: its end, or another port. -/
inductive Hop (α : Type) where
  | stop (result : α)
  | onward (spot : Spot)

/-- What feeds a value. -/
inductive ValueSource where
  | operator (source : Instance)
  | constant (value : Constant)
  deriving DecidableEq, Repr

namespace Spot

def graph (library : Library) (spot : Spot) : Graph :=
  library.graph spot.path.graph

def ref (spot : Spot) : PortRef :=
  ⟨spot.node, spot.port⟩

def location (library : Library) (spot : Spot) : Location :=
  (spot.graph library).location spot.node

def portOf (library : Library) (spot : Spot) : Port :=
  ((spot.graph library).node spot.node).port spot.port

/-- Only the first of several links counts. -/
def ambiguity (library : Library) (spot : Spot) (others : List Link) : Trail :=
  match others with
  | [] => .empty
  | _ :: _ => .error (.ambiguousConnection (spot.location library) (spot.portOf library).name)

/-- The port of the enclosing call node that stands for a port of an input or output node. -/
def outward? (library : Library) (path : CallPath) (name : String) : Option Spot := do
  let (outer, via) ← path.leave?
  let port ← ((library.graph outer.graph).node via).port? name
  return ⟨outer, via, port⟩

/-- Leaves a called graph through the port `name` of its boundary node `node`. -/
def leaveThrough {α : Type} (library : Library) (path : CallPath) (node : Nat) (name : String) :
    Hop (Option α) × Trail :=
  let seen := Trail.visit path.graph node
  match outward? library path name with
  | some spot => (.onward spot, seen)
  | none => (.stop none, seen ++ .error (.unresolvedPort ((library.graph path.graph).location node) name))

/-- Enters the graph that node `via` calls towards what its input port `name` runs. -/
def enterFlow (library : Library) (path : CallPath) (via : Nat) (callee : GraphId) (name : String) :
    Hop (Option Instance) × Trail :=
  let site := (library.graph path.graph).location via
  let sub := library.graph callee
  let seen := Trail.visit path.graph via
  match sub.inputNode? with
  | none => (.stop none, seen ++ .error (.missingBoundary site "input"))
  | some input =>
    match (sub.node input).port? name with
    | none => (.stop none, seen ++ .error (.unresolvedPort site name))
    | some port =>
      let seen := seen ++ .visit callee input
      match sub.linksFrom ⟨input, port⟩ with
      | [] => (.stop none, seen ++ .warning (.unwiredEntry site name))
      | _ :: _ => (.onward ⟨path.enter via callee, input, port⟩, seen)

/-- Follows an outgoing flow port by one link. -/
def flowHop (library : Library) (spot : Spot) : Hop (Option Instance) × Trail :=
  let graph := spot.graph library
  match graph.linksFrom spot.ref with
  | [] => (.stop none, .empty)
  | link :: others =>
    let target := graph.node link.target.node
    let name := (target.port link.target.port).name
    let (hop, trail) := match target.role with
      | .call callee => enterFlow library spot.path link.target.node callee name
      | .output => leaveThrough library spot.path link.target.node name
      | .action _ => (.stop (some ⟨spot.path, link.target.node⟩), .empty)
      | .operator _ | .input => (.stop none, .error (.wrongCategory (graph.location link.target.node) name))
    (hop, spot.ambiguity library others ++ trail)

/-- Enters the graph that node `via` calls towards what feeds its output port `name`. A result that
is not wired is zero. -/
def enterValue (library : Library) (path : CallPath) (via : Nat) (callee : GraphId) (name : String)
    (type : ValueType) : Hop (Option ValueSource) × Trail :=
  let site := (library.graph path.graph).location via
  let sub := library.graph callee
  let seen := Trail.visit path.graph via
  match sub.outputNode? with
  | none => (.stop none, seen ++ .error (.missingBoundary site "output"))
  | some output =>
    match (sub.node output).port? name with
    | none => (.stop none, seen ++ .error (.unresolvedPort site name))
    | some port =>
      let seen := seen ++ .visit callee output
      if ((sub.node output).port port).inline.isNone && (sub.linksTo ⟨output, port⟩).isEmpty then
        (.stop (some (.constant (.zero type))), seen ++ .warning (.unwiredOutput site name))
      else (.onward ⟨path.enter via callee, output, port⟩, seen)

/-- Follows an incoming value port by one link backwards. Without a link, the inline value counts. -/
def valueHop (library : Library) (spot : Spot) :
    Except Fault (Hop (Option ValueSource) × Trail) :=
  let graph := spot.graph library
  let consumer := spot.portOf library
  match consumer.kind with
  | .flow => .error (.flowAsValue consumer.name)
  | .value type =>
    match graph.linksTo spot.ref with
    | [] =>
      match consumer.inline with
      | some value => .ok (.stop (some (.constant value)), .empty)
      | none => .ok (.stop none, .error (.missingInput (spot.location library) consumer.name))
    | link :: others =>
      let source := graph.node link.source.node
      let name := (source.port link.source.port).name
      let (hop, trail) := match source.role with
        | .operator _ => (.stop (some (.operator ⟨spot.path, link.source.node⟩)), .empty)
        | .call callee => enterValue library spot.path link.source.node callee name type
        | .input => leaveThrough library spot.path link.source.node name
        | .action _ | .output =>
          (.stop none, .error (.wrongCategory (spot.location library) consumer.name))
      .ok (hop, spot.ambiguity library others ++ trail)

/-- Follows a wire to its end, through at most `ports` ports. The trails of the hops before are
given newest first. -/
def follow {α : Type} (hop : Spot → Except Fault (Hop α × Trail)) :
    (ports : Nat) → Spot → (before : List Trail) → Except Fault (α × Trail)
  | 0, _, _ => .error .circularWire
  | ports + 1, spot, before =>
    match hop spot with
    | .error e => .error e
    | .ok (.stop result, seen) => .ok (result, .concat (seen :: before).reverse)
    | .ok (.onward spot, seen) => follow hop ports spot (seen :: before)

end Spot

namespace Library

/-- The number of ports of every graph with its calls replaced by graphs of the given sizes. -/
def expand (library : Library) (sizes : Array Nat) : Array Nat :=
  library.map fun graph => graph.nodes.foldl (fun sum node =>
    match node.role with
    | .call callee => sum + node.ports.size + sizes.getD callee 0
    | _ => sum + node.ports.size) 0

/-- The number of ports of a graph after every call has been replaced by the called graph. A chain of calls
meets no graph twice, so there is nothing left to replace after one round for every graph. -/
def expandedPorts (library : Library) : Array Nat :=
  Nat.repeat library.expand library.size #[]

/-- A bound on the length of every wire of a graph: a wire that does not run in a circle meets no port
of the expanded graph twice. -/
def wireBound (library : Library) (entry : GraphId) : Nat :=
  library.expandedPorts.getD entry 0 + 1

/-- The instance that an outgoing flow port runs, if any. -/
def flowTarget (library : Library) (bound : Nat) (spot : Spot) : Except Fault (Option Instance × Trail) :=
  Spot.follow (fun spot => .ok (spot.flowHop library)) bound spot []

/-- What feeds an incoming value port, if anything. -/
def valueSource (library : Library) (bound : Nat) (spot : Spot) :
    Except Fault (Option ValueSource × Trail) :=
  Spot.follow (Spot.valueHop library) bound spot []

end Library

end BehaviorTree
