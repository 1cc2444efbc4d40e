import BehaviorTree.Compile.ConstantPool
import BehaviorTree.Compile.Registry

/-! Emission: the node or operation of every registered instance. The ports of an instance are
followed once more, now for the numbers of the instances that they lead to. -/

namespace BehaviorTree

/-- What emission reads. -/
structure Plan where
  src : Sources
  bound : Nat
  registry : Registry
  /-- The component types in use, sorted by name. -/
  typeNames : List String

/-- What emission adds to. -/
structure Draft where
  pool : ConstantPool
  errors : Array CompileError
  warnings : Array CompileWarning

def Draft.empty : Draft := ⟨.empty, #[], #[]⟩

abbrev Emit := StateT Draft (Except Fault)

namespace Emit

def report (e : CompileError) : Emit Unit :=
  modify fun d => { d with errors := d.errors.push e }

def absorb (trail : Trail) : Emit Unit :=
  modify fun d => { d with errors := d.errors ++ trail.errors, warnings := d.warnings ++ trail.warnings }

def intern (value : Constant) : Emit ValueRef :=
  modifyGet fun d =>
    let (ref, pool) := d.pool.intern value
    (ref, { d with pool := pool })

/-- Runs a lookup that leaves a trail. -/
def trailed {α : Type} (lookup : Except Fault (α × Trail)) : Emit α := do
  let (a, trail) ← (lookup : Except Fault (α × Trail))
  absorb trail
  return a

end Emit

open Emit

namespace Plan

def ofRegistry (src : Sources) (registry : Registry) : Plan :=
  ⟨src, src.library.wireBound src.entry, registry, registry.types.toList⟩

def node (plan : Plan) (i : Instance) : GraphNode :=
  i.graphNode plan.src.library

def location (plan : Plan) (i : Instance) : Location :=
  (i.graph plan.src.library).location i.node

def flowTarget (plan : Plan) (i : Instance) (port : Nat) : Emit (Option Instance) :=
  trailed (plan.src.library.flowTarget plan.bound ⟨i.path, i.node, port⟩)

/-- The number of an instance; the terminal node if it has none. -/
def nodeId (plan : Plan) (i : Instance) : NodeId :=
  plan.registry.actions.getD i.key .nop

/-- What a flow port runs. -/
def childAt (plan : Plan) (i : Instance) (port : Nat) : Emit NodeId := do
  match ← plan.flowTarget i port with
  | none => return .nop
  | some child =>
    match (plan.node child).role with
    | .action .root =>
      report (.rootAsChild (plan.location child))
      return .nop
    | .action (.threadRoot _) =>
      report (.misplacedThreadRoot (plan.location child))
      return .nop
    | _ => return plan.nodeId child

/-- What the first flow port of a name runs. -/
def child (plan : Plan) (i : Instance) (name : String) : Emit NodeId :=
  match (plan.node i).port? name with
  | some port => plan.childAt i port
  | none => return .nop

/-- The thread of a parallel node. -/
def thread (plan : Plan) (i : Instance) : Emit NodeId := do
  let target ← match (plan.node i).port? "parallel" with
    | some port => plan.flowTarget i port
    | none => pure none
  match target with
  | some child =>
    match (plan.node child).role with
    | .action (.threadRoot _) => return plan.nodeId child
    | _ => invalid
  | none => invalid
where
  invalid : Emit NodeId := do
    report (.invalidParallelBranch (plan.location i))
    return .nop

/-- The value at a port, or a zero of the given type where there is none. -/
def valueAt (plan : Plan) (i : Instance) (port : Nat) (type : ValueType) : Emit ValueRef := do
  match ← trailed (plan.src.library.valueSource plan.bound ⟨i.path, i.node, port⟩) with
  | some (.operator source) =>
    match plan.registry.operators[source.key]? with
    | some index => return .output index 0
    | none => intern (.zero type)
  | some (.constant value) => intern value
  | none => intern (.zero type)

/-- The value at the first port of a name. -/
def value (plan : Plan) (i : Instance) (name : String) (type : ValueType) : Emit ValueRef :=
  match (plan.node i).port? name with
  | some port => plan.valueAt i port type
  | none => intern (.zero type)

def slot? (plan : Plan) (site : Location) (var : String) : Emit (Option VarSlot) := do
  match plan.src.blackboard.get? var with
  | some slot => return some slot
  | none =>
    report (.unknownVariable site var)
    return none

def componentIndex? (plan : Plan) (name : String) : Option UInt16 :=
  (plan.typeNames.idxOf? name).map UInt16.ofNat

def expectType (site : Location) (expected found : ValueType) : Emit Unit := do
  unless expected = found do report (.typeMismatch site expected found)

/-- One field of a component, from the port of its name. -/
def fieldWrite? (plan : Plan) (i : Instance) (layout : ComponentLayout) (port : Port) :
    Emit (Option FieldWrite) := do
  let site := plan.location i
  match port.kind, layout.field? port.name with
  | .flow, _ => return none
  | .value _, none =>
    report (.unknownField site layout.name port.name)
    return none
  | .value type, some field =>
    expectType site field.type type
    let value ← plan.value i port.name field.type
    return some ⟨field.offset, UInt16.ofNat field.type.size, value⟩

def writeField (plan : Plan) (i : Instance) (component : String) : Emit Node := do
  match plan.src.catalog.get? component, plan.componentIndex? component with
  | some layout, some index =>
    let node := plan.node i
    let fields ← node.valueInputs.mapM fun port => plan.fieldWrite? i layout (node.port port)
    return .writeField index (fields.filterMap id)
  | _, _ =>
    report (.unknownComponent (plan.location i) component)
    return .nop

/-- The children of a sequence or a selector, if they are not too many. -/
def withChildren (plan : Plan) (i : Instance) (emit : List Nat → Emit Node) : Emit Node := do
  let ports := (plan.node i).flowOutputs
  let count := ports.length
  if maxIndex < count then
    report (.tooManyChildren (plan.location i) count maxIndex)
    return .nop
  else emit ports

def action (plan : Plan) (i : Instance) : Action → Emit Node
  | .root => return .root (← plan.child i "child")
  | .sequence => plan.withChildren i fun ports => return .sequence (← ports.mapM (plan.childAt i)).toArray
  | .selector => plan.withChildren i fun ports => do
    let branches ← (ports.zip (plan.node i).valueInputs).mapM fun (port, guard) => do
      let guard ← plan.valueAt i guard .bool
      return Branch.mk guard (← plan.childAt i port)
    return .selector branches
  | .writeField component => plan.writeField i component
  | .waitFor => return .wait (.duration (← plan.value i "duration" .float))
  | .waitUntil => return .wait (.condition (← plan.value i "condition" .bool))
  | .fail => return .fail
  | .optional => do
    let guard ← plan.value i "guard" .bool
    return .optional guard (← plan.child i "child")
  | .catch => return .catch (← plan.child i "child")
  | .writeVar var => do
    let site := plan.location i
    match ← plan.slot? site var with
    | none => return .nop
    | some slot =>
      expectType site slot.type (((plan.node i).valueType? "value").getD slot.type)
      return .writeVar slot (← plan.value i "value" slot.type)
  | .query id var => do
    match ← plan.slot? (plan.location i) var with
    | none => return .nop
    | some slot => return .query id slot
  | .parallel => do
    let main ← plan.child i "main"
    return .parallel main (← plan.thread i)
  | .threadRoot looping => return .threadRoot (← plan.child i "child") looping

/-- Where a component has a field. -/
def fieldOffset (plan : Plan) (site : Location) (component field : String) (type : ValueType) :
    Emit UInt16 := do
  match plan.src.catalog.get? component with
  | none =>
    report (.unknownComponent site component)
    return 0
  | some layout =>
    match layout.field? field with
    | none =>
      report (.unknownField site component field)
      return 0
    | some found =>
      expectType site found.type type
      return found.offset

def operator (plan : Plan) (i : Instance) (op : Operator) : Emit Operation := do
  let site := plan.location i
  let out := ((plan.node i).valueType? "out").getD .bool
  match op with
  | .readField component field =>
    let offset ← plan.fieldOffset site component field out
    return .readField ((plan.componentIndex? component).getD 0) offset out
  | .lookupField lookup component field =>
    return .lookupField lookup (← plan.fieldOffset site component field out) out
  | .readVar var =>
    match ← plan.slot? site var with
    | none => return .readVar ⟨0, out⟩
    | some slot =>
      expectType site slot.type out
      return .readVar slot
  | .not => return .not (← plan.value i "a" .bool)
  | .and =>
    let a ← plan.value i "a" .bool
    return .and a (← plan.value i "b" .bool)
  | .or =>
    let a ← plan.value i "a" .bool
    return .or a (← plan.value i "b" .bool)
  | .compare op type =>
    let lhs ← plan.value i "a" type
    return .compare op type lhs (← plan.value i "b" type)
  | .arith op type =>
    if type = .bool then report (.typeMismatch site .int .bool)
    let lhs ← plan.value i "a" type
    return .arith op type lhs (← plan.value i "b" type)

/-- The node of an instance and where it came from. -/
def entry (plan : Plan) (i : Instance) : Emit Entry := do
  let node ← match (plan.node i).role with
    | .action a => plan.action i a
    | _ => pure .nop
  return ⟨node, i.debugId plan.src.library, i.path.instanceIds plan.src.library⟩

def operation (plan : Plan) (i : Instance) : Emit Operation := do
  match (plan.node i).role with
  | .operator op => plan.operator i op
  | _ => return default

/-- The component types behind the lookups, up to the last one in use. -/
def lookups (plan : Plan) : Array (Option ComponentType) :=
  let count := plan.registry.lookups.maxKey?.elim 0 (· + 1)
  Array.ofFn fun index : Fin count =>
    plan.registry.lookups[index.val]?.bind plan.src.componentType?

/-- The entries of a program, after the terminal node. Without a root there is an empty one. -/
def entries (plan : Plan) : Emit (List Entry) :=
  match plan.registry.actionOrder.toList with
  | [] => return [.ofNode (.root .nop)]
  | instances => instances.mapM plan.entry

def program (plan : Plan) : Emit Program := do
  let entries ← plan.entries
  let operations ← plan.registry.operatorOrder.toList.mapM plan.operation
  let pool := (← get).pool
  return {
    expressions := ⟨pool.bytes.toList, operations.toArray⟩
    entries := (Entry.ofNode .nop :: entries).toArray
    types := (plan.typeNames.filterMap plan.src.componentType?).toArray
    lookups := plan.lookups
    blackboardSize := UInt32.ofNat plan.src.blackboard.size }

end Plan

end BehaviorTree
