import BehaviorTree.Program.Basic

/-! Validity of programs: every cross reference, every field and variable range, and the size of
every value that a node or an operation consumes. -/

namespace BehaviorTree

inductive ProgramError where
  | tooFewNodes
  | badNop (found : NodeKind)
  | badRoot (found : NodeKind)
  | nodeOutOfRange (node target : NodeId)
  | exprOutOfRange (user : Nat) (index : UInt16)
  | constantOutOfRange (offset : UInt32) (length : UInt16) (pool : Nat)
  | componentOutOfRange (node : NodeId) (component : UInt16)
  | exprComponentOutOfRange (expr : Nat) (component : UInt16)
  | lookupOutOfRange (expr : Nat) (lookup : UInt16)
  | fieldOutOfRange (component offset : UInt16) (length : Nat) (size : UInt16)
  | varOutOfRange (offset : UInt32) (length : Nat) (size : UInt32)
  | valueSize (node : NodeId) (expected found : Nat)
  | operandSize (expr expected found : Nat)
  | forwardOperand (expr : Nat) (operand : UInt16)
  | badSlot (slot : UInt8)
  | boolArithmetic (expr : Nat)
  | tooManyChildren (node : NodeId) (count : Nat)
  | badThread (node : NodeId)
  deriving DecidableEq, Repr

namespace ProgramError

def name : ProgramError → String
  | tooFewNodes => "TooFewNodes"
  | badNop _ => "BadNop"
  | badRoot _ => "BadRoot"
  | nodeOutOfRange _ _ => "NodeOutOfRange"
  | exprOutOfRange _ _ => "ExprOutOfRange"
  | constantOutOfRange _ _ _ => "ConstantOutOfRange"
  | componentOutOfRange _ _ => "ComponentOutOfRange"
  | exprComponentOutOfRange _ _ => "ExprComponentOutOfRange"
  | lookupOutOfRange _ _ => "LookupOutOfRange"
  | fieldOutOfRange _ _ _ _ => "FieldOutOfRange"
  | varOutOfRange _ _ _ => "VarOutOfRange"
  | valueSize _ _ _ => "ValueSize"
  | operandSize _ _ _ => "OperandSize"
  | forwardOperand _ _ => "ForwardOperand"
  | badSlot _ => "BadSlot"
  | boolArithmetic _ => "BoolArithmetic"
  | tooManyChildren _ _ => "TooManyChildren"
  | badThread _ => "BadThread"

def message : ProgramError → String
  | tooFewNodes => "program needs at least a nop and a root node"
  | badNop found => s!"node 0 must be Nop, found {found.name}"
  | badRoot found => s!"node 1 must be Root, found {found.name}"
  | nodeOutOfRange node target => s!"node {node.text} refers to missing node {target.text}"
  | exprOutOfRange user index => s!"node {user} refers to missing expression {index}"
  | constantOutOfRange offset length pool =>
    s!"constant range {offset}+{length} exceeds pool of {pool} bytes"
  | componentOutOfRange node component =>
    s!"node {node.text} refers to missing component type {component}"
  | exprComponentOutOfRange expr component =>
    s!"expression {expr} refers to missing component type {component}"
  | lookupOutOfRange expr lookup => s!"expression {expr} reads undeclared lookup {lookup}"
  | fieldOutOfRange component offset length size =>
    s!"field {offset}+{length} exceeds component {component} of {size} bytes"
  | varOutOfRange offset length size =>
    s!"variable {offset}+{length} exceeds blackboard of {size} bytes"
  | valueSize node expected found =>
    s!"node {node.text} expects a {expected} byte value, found {found}"
  | operandSize expr expected found =>
    s!"expression {expr} expects {expected} byte operands, found {found}"
  | forwardOperand expr operand => s!"expression {expr} uses operand {operand} defined after it"
  | badSlot slot => s!"expression reference to output slot {slot}"
  | boolArithmetic expr => s!"expression {expr} does arithmetic on bool"
  | tooManyChildren node count => s!"node {node.text} has {count} children"
  | badThread node => s!"parallel node {node.text} must branch into a thread root"

end ProgramError

/-- Sequences and selectors count their progress in 16 bits. -/
def maxChildren : Nat := 65535

namespace Program

/-- One reference made by `user`. Operations have to stand below `limit`. -/
def validateRef (p : Program) (pool user limit : Nat) : ValueRef → Except ProgramError Unit
  | .constant offset length =>
    if offset.toNat + length.toNat ≤ pool then .ok ()
    else .error (.constantOutOfRange offset length pool)
  | .output index slot =>
    if slot ≠ 0 then .error (.badSlot slot)
    else if p.expressions.operations.size ≤ index.toNat then .error (.exprOutOfRange user index)
    else if limit ≤ index.toNat then .error (.forwardOperand user index)
    else .ok ()

def validateVar (p : Program) (slot : VarSlot) : Except ProgramError Unit :=
  if slot.offset.toNat + slot.length ≤ p.blackboardSize.toNat then .ok ()
  else .error (.varOutOfRange slot.offset slot.length p.blackboardSize)

/-- A field of the component type that stands at an index. -/
def validateField (component : UInt16) (type : ComponentType) (offset : UInt16) (length : Nat) :
    Except ProgramError Unit :=
  if offset.toNat + length ≤ type.size.toNat then .ok ()
  else .error (.fieldOutOfRange component offset length type.size)

/-- A value that a node consumes. The reference has been checked before. -/
def validateSize (p : Program) (id : NodeId) (value : ValueRef) (expected : Nat) :
    Except ProgramError Unit :=
  let found := (p.expressions.resultSize? value).getD 0
  if found = expected then .ok () else .error (.valueSize id expected found)

def validateChildCount (id : NodeId) (count : Nat) : Except ProgramError Unit :=
  if count ≤ maxChildren then .ok () else .error (.tooManyChildren id count)

def validatePayload (p : Program) (id : NodeId) : Node → Except ProgramError Unit
  | .sequence children => validateChildCount id children.size
  | .selector branches => do
    validateChildCount id branches.length
    branches.forM fun branch => p.validateSize id branch.guard ValueType.bool.size
  | .writeField component fields =>
    match p.types[component.toNat]? with
    | none => .error (.componentOutOfRange id component)
    | some type => fields.forM fun field => do
      validateField component type field.offset field.length.toNat
      p.validateSize id field.value field.length.toNat
  | .wait (.duration seconds) => p.validateSize id seconds ValueType.float.size
  | .wait (.condition holds) => p.validateSize id holds ValueType.bool.size
  | .optional guard _ => p.validateSize id guard ValueType.bool.size
  | .writeVar slot value => do
    p.validateVar slot
    p.validateSize id value slot.length
  | .query _ result => p.validateVar result
  | .parallel _ thread =>
    if (p.node? thread).map Node.kind = some .threadRoot then .ok () else .error (.badThread id)
  | .nop | .root _ | .fail | .catch _ | .threadRoot _ _ => .ok ()

def validateNode (p : Program) (pool : Nat) (id : NodeId) (node : Node) :
    Except ProgramError Unit := do
  node.children.forM fun target =>
    if target.toNat < p.size then .ok () else .error (.nodeOutOfRange id target)
  node.values.forM (p.validateRef pool id.toNat p.expressions.operations.size)
  p.validatePayload id node

/-- The sizes of the operands of an operation. -/
def validateOperands (p : Program) (index : Nat) (operation : Operation) (expected : Nat) :
    Except ProgramError Unit :=
  operation.operands.forM fun operand =>
    let found := (p.expressions.resultSize? operand).getD 0
    if found = expected then .ok () else .error (.operandSize index expected found)

/-- An operation. Its operands precede it, which keeps evaluation finite. -/
def validateOperation (p : Program) (pool index : Nat) (operation : Operation) :
    Except ProgramError Unit := do
  operation.operands.forM (p.validateRef pool index index)
  match operation with
  | .readField component offset type =>
    match p.types[component.toNat]? with
    | none => throw (.exprComponentOutOfRange index component)
    | some layout => validateField component layout offset type.size
  | .lookupField lookup offset type =>
    match p.lookups[lookup.toNat]? with
    | some (some layout) => validateField lookup layout offset type.size
    | _ => throw (.lookupOutOfRange index lookup)
  | .readVar slot => p.validateVar slot
  | .not _ | .and _ _ | .or _ _ => p.validateOperands index operation ValueType.bool.size
  | .compare _ type _ _ => p.validateOperands index operation type.size
  | .arith _ type _ _ =>
    if type = .bool then throw (.boolArithmetic index)
    else p.validateOperands index operation type.size

/-- The first two nodes have fixed roles. -/
def validateHead (p : Program) : Except ProgramError Unit :=
  match p.entries[0]?, p.entries[1]? with
  | some first, some second =>
    if first.node ≠ .nop then .error (.badNop first.node.kind)
    else if second.node.kind ≠ .root then .error (.badRoot second.node.kind)
    else .ok ()
  | _, _ => .error .tooFewNodes

/-- Checks a program: first its head, then all nodes, then all operations. The first defect is
reported. -/
def validate (p : Program) : Except ProgramError Unit := do
  let pool := p.expressions.constants.length
  p.validateHead
  p.entries.toList.zipIdx.forM fun (entry, index) =>
    p.validateNode pool ⟨UInt16.ofNat index⟩ entry.node
  p.expressions.operations.toList.zipIdx.forM fun (operation, index) =>
    p.validateOperation pool index operation

end Program

end BehaviorTree
