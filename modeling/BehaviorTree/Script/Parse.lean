import BehaviorTree.Graph.Build
import BehaviorTree.Memory.Component
import BehaviorTree.Script.Line

/-! Scripts: component types, variables and graphs, one directive a line.

The directives are `component`, `var`, `graph` and `end`, and inside of a graph `node`, `link` and
`set`. A link target without a port means the port `in`. A graph may only call graphs that are
complete. -/

namespace BehaviorTree

/-- Everything that a script declares. -/
structure Script where
  catalog : Catalog
  blackboard : BlackboardLayout
  graphs : Library

namespace Script

/-- The graph named `main`, or else the last one. -/
def entry (script : Script) : GraphId :=
  (script.graphs.find? "main").getD (script.graphs.size - 1)

/-- Why a line is refused. -/
inductive Cause where
  | expected (what : String)
  | malformed (token what : String)
  | unknownType (token : String)
  | untyped (token : String)
  | variableRedeclared (name : String)
  | graphStillOpen (name : String)
  | graphRedefined (name : String)
  | strayEnd
  | unknownDirective (token : String)
  | unexpected (token : String)
  | componentRedefined (name : String)
  | unknownComponent (name : String)
  | unknownField (component field : String)
  | unknownVariable (name : String)
  | nodeOutside
  | nodeRedefined (label : String)
  | undefinedGraph (name : String)
  | unknownKind (token : String)
  | linkOutside
  | portless (token : String)
  | unknownNode (label : String)
  | notLiteral (token : String)
  | graph (error : GraphError)
  | fault (cause : Fault)
  | missingEnd (name : String)
  | noGraph
  deriving DecidableEq, Repr

def Cause.message : Cause → String
  | expected what => s!"expected {what}"
  | malformed token what => s!"`{token}` is not a valid {what}"
  | unknownType token => s!"unknown type `{token}`"
  | untyped token => s!"expected name:type, got `{token}`"
  | variableRedeclared name => s!"variable `{name}` redeclared"
  | graphStillOpen name => s!"graph `{name}` is still open"
  | graphRedefined name => s!"graph `{name}` redefined"
  | strayEnd => "`end` without `graph`"
  | unknownDirective token => s!"unknown directive `{token}`"
  | unexpected token => s!"unexpected `{token}`"
  | componentRedefined name => s!"component `{name}` redefined"
  | unknownComponent name => s!"unknown component `{name}`"
  | unknownField component field => s!"`{component}` has no field `{field}`"
  | unknownVariable name => s!"unknown variable `{name}`"
  | nodeOutside => "`node` outside of a graph"
  | nodeRedefined label => s!"node `{label}` redefined"
  | undefinedGraph name => s!"graph `{name}` is not defined yet"
  | unknownKind token => s!"unknown node kind `{token}`"
  | linkOutside => "link outside of a graph"
  | portless token => s!"expected node.port, got `{token}`"
  | unknownNode label => s!"unknown node `{label}`"
  | notLiteral token => s!"`{token}` is not a literal"
  | graph error => error.message
  | fault cause => cause.text
  | missingEnd name => s!"graph `{name}` is missing `end`"
  | noGraph => "script defines no graph"

structure Error where
  line : Nat
  cause : Cause
  deriving DecidableEq, Repr

def Error.message (e : Error) : String :=
  e.cause.message

def Error.text (e : Error) : String :=
  s!"line {e.line}: {e.message}"

/-- A script up to some line, with the graph that is not yet complete. -/
structure Draft where
  catalog : Catalog
  blackboard : BlackboardLayout
  graphs : Library
  openGraph : Option Graph

def Draft.empty : Draft :=
  ⟨.empty, .empty, #[], none⟩

/-- Consumes the tokens of one line. -/
abbrev Parser := StateT (List String) (Except Cause)

namespace Parser

def next? : Parser (Option String) := do
  match ← get with
  | [] => return none
  | token :: rest =>
    set rest
    return some token

def next (what : String) : Parser String := do
  match ← next? with
  | some token => return token
  | none => throw (.expected what)

/-- All tokens that are left. -/
def rest : Parser (List String) := do
  let tokens ← get
  set ([] : List String)
  return tokens

/-- A natural number below a bound. -/
def number (bound : Nat) (what : String) : Parser Nat := do
  let token ← next what
  match Decimal.readBelow? bound token with
  | some n => return n
  | none => throw (.malformed token what)

def id16 (what : String) : Parser UInt16 :=
  return UInt16.ofNat (← number 0x10000 what)

end Parser

open BehaviorTree.Script.Parser

def valueType (token : String) : Except Cause ValueType :=
  match ValueType.ofName? token with
  | some type => .ok type
  | none => .error (.unknownType token)

def portKind (token : String) : Except Cause PortKind :=
  match PortKind.ofName? token with
  | some kind => .ok kind
  | none => .error (.unknownType token)

/-- A name and what follows its first colon. -/
def typed {α : Type} (read : String → Except Cause α) (token : String) : Except Cause (String × α) :=
  match splitOnce? ':' token with
  | some (name, type) => (read type).map fun a => (name, a)
  | none => .error (.untyped token)

namespace Draft

def fieldType (d : Draft) (component field : String) : Except Cause ValueType :=
  match d.catalog.get? component with
  | none => .error (.unknownComponent component)
  | some layout =>
    match layout.field? field with
    | some found => .ok found.type
    | none => .error (.unknownField component field)

def varType (d : Draft) (name : String) : Except Cause ValueType :=
  match d.blackboard.get? name with
  | some slot => .ok slot.type
  | none => .error (.unknownVariable name)

def component (d : Draft) : Parser Draft := do
  let name ← next "component name"
  let fields ← (← rest).mapM fun token => typed valueType token
  if (d.catalog.get? name).isSome then throw (.componentRedefined name)
  return { d with catalog := d.catalog.define name fields }

def declare (d : Draft) : Parser Draft := do
  let name ← next "variable name"
  let type ← valueType (← next "variable type")
  if (d.blackboard.get? name).isSome then throw (.variableRedeclared name)
  return { d with blackboard := (d.blackboard.declare name type).1 }

def beginGraph (d : Draft) : Parser Draft := do
  let name ← next "graph name"
  if let some graph := d.openGraph then throw (.graphStillOpen graph.name)
  if (d.graphs.find? name).isSome then throw (.graphRedefined name)
  return { d with openGraph := some (.empty name) }

def endGraph (d : Draft) : Parser Draft := do
  match d.openGraph with
  | some graph => return { d with graphs := d.graphs.push graph, openGraph := none }
  | none => throw .strayEnd

/-- The operands of a node kind that stand after it on its line. -/
def nodeSpec (d : Draft) (kind : String) : Parser NodeSpec := do
  match kind with
  | "root" => return .root
  | "sequence" => return .sequence (← number 0x10000000000000000 "child count")
  | "selector" => return .selector (← number 0x10000000000000000 "branch count")
  | "write-field" =>
    let component ← next "component"
    return .writeField component (← (← rest).mapM fun field => do
      return (field, ← d.fieldType component field))
  | "wait-for" => return .waitFor
  | "wait-until" => return .waitUntil
  | "fail" => return .fail
  | "optional" => return .optional
  | "catch" => return .catch
  | "write-var" =>
    let var ← next "variable"
    return .writeVar var (← d.varType var)
  | "query" =>
    let id ← id16 "query id"
    let var ← next "variable"
    let _ ← d.varType var
    return .query id var
  | "parallel" => return .parallel
  | "thread-root" =>
    match ← next? with
    | none => return .threadRoot false
    | some "loop" => return .threadRoot true
    | some other => throw (.unexpected other)
  | "call" =>
    let name ← next "graph name"
    match d.graphs.find? name with
    | some id => return .call id (d.graphs.graph id)
    | none => throw (.undefinedGraph name)
  | "input" => return .input (← (← rest).mapM fun token => typed portKind token)
  | "output" => return .output (← (← rest).mapM fun token => typed portKind token)
  | "read-field" =>
    let component ← next "component"
    let field ← next "field"
    return .readField component field (← d.fieldType component field)
  | "lookup-field" =>
    let lookup ← id16 "lookup index"
    let component ← next "component"
    let field ← next "field"
    return .lookupField lookup component field (← d.fieldType component field)
  | "read-var" =>
    let var ← next "variable"
    return .readVar var (← d.varType var)
  | "not" => return .not
  | "and" => return .and
  | "or" => return .or
  | other =>
    match CompareOp.ofName? other, ArithOp.ofName? other with
    | some op, _ => return .compare op (← valueType (← next "operand type"))
    | none, some op => return .arith op (← valueType (← next "operand type"))
    | none, none => throw (.unknownKind other)

def ofFault {α : Type} : Except Fault α → Except Cause α
  | .ok a => .ok a
  | .error e => .error (.fault e)

def node (d : Draft) : Parser Draft := do
  let label ← next "node label"
  let kind ← next "node kind"
  match d.openGraph with
  | none => throw .nodeOutside
  | some graph =>
    if (graph.find? label).isSome then throw (.nodeRedefined label)
    let (graph, index) ← ofFault (graph.place (← d.nodeSpec kind))
    return { d with openGraph := some (graph.setLabel index label) }

/-- A node of the open graph and the name of a port. -/
def endpoint (d : Draft) (token : String) (port? : Option String) :
    Except Cause (Graph × Nat × String) := do
  let graph ← d.openGraph.elim (throw .linkOutside) pure
  let (label, port) ← match splitOnce? '.' token, port? with
    | some (label, port), _ => pure (label, port)
    | none, some port => pure (token, port)
    | none, none => throw (.portless token)
  match graph.find? label with
  | some index => return (graph, index, port)
  | none => throw (.unknownNode label)

def ofGraph {α : Type} : Except GraphError α → Except Cause α
  | .ok a => .ok a
  | .error e => .error (.graph e)

def link (d : Draft) : Parser Draft := do
  let source ← next "source port"
  let target ← next "target"
  let (_, source) ← d.endpoint source none
  let (graph, target) ← d.endpoint target (some "in")
  return { d with openGraph := some (← ofGraph (graph.connect source target)) }

/-- The binary32 number nearest to an integer. -/
def floatOfInt (n : Int) : Constant :=
  let format := Decimal.binary32
  .float (UInt32.ofNat (format.nearest n.natAbs 1 + if n < 0 then format.signBit else 0))

/-- A literal for a port; a port for floating-point numbers also takes an integer. -/
def literal (kind : Option PortKind) (token : String) : Except Cause Constant :=
  match Constant.parse? token, kind with
  | some (.int n), some (.value .float) => .ok (floatOfInt n.toInt)
  | some value, _ => .ok value
  | none, _ => .error (.notLiteral token)

def setValue (d : Draft) : Parser Draft := do
  let target ← next "node.port"
  let token ← next "value"
  let (graph, index, port) ← d.endpoint target none
  let node := graph.node index
  let value ← literal ((node.port? port).map fun i => (node.port i).kind) token
  return { d with openGraph := some (← ofGraph (graph.setInline index port value)) }

def directive (d : Draft) : String → Parser Draft
  | "component" => d.component
  | "var" => d.declare
  | "graph" => d.beginGraph
  | "end" => d.endGraph
  | "node" => d.node
  | "link" => d.link
  | "set" => d.setValue
  | other => throw (.unknownDirective other)

/-- One line. Nothing may follow a directive and its operands. -/
def line (d : Draft) (text : String) : Except Cause Draft :=
  match tokens text with
  | [] => .ok d
  | token :: operands => do
    match ← d.directive token operands with
    | (d, []) => return d
    | (_, extra :: _) => throw (.unexpected extra)

/-- A script has at least one graph, and all of its graphs are complete. -/
def finish (d : Draft) : Except Cause Script :=
  match d.openGraph with
  | some graph => .error (.missingEnd graph.name)
  | none =>
    if d.graphs.isEmpty then .error .noGraph else .ok ⟨d.catalog, d.blackboard, d.graphs⟩

end Draft

/-- Says in which line something was refused. -/
def atLine {α : Type} (line : Nat) : Except Cause α → Except Error α
  | .ok a => .ok a
  | .error cause => .error ⟨line, cause⟩

/-- Reads a script. Lines count from one. -/
def parse (source : String) : Except Error Script := do
  let texts := lines source
  let draft ← texts.zipIdx.foldlM (fun d (text, index) => atLine (index + 1) (Draft.line d text))
    Draft.empty
  atLine texts.length draft.finish

end Script

end BehaviorTree
