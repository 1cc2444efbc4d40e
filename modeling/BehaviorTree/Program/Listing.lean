import BehaviorTree.Program.Basic

/-! A readable listing of a program: component types, lookups, the constant pool, operations, and
nodes with their origin. -/

namespace BehaviorTree

/-- A range of the pool, or an output. The end of the range has to be a number of 32 bits. -/
def ValueRef.text : ValueRef → Except Fault String
  | .constant offset length =>
    let last := offset.toNat + length.toNat
    if last < 0x100000000 then .ok s!"c[{offset}..{last}]" else .error .overflow
  | .output index slot => .ok s!"e{index}.{slot}"

def VarSlot.text (slot : VarSlot) : String :=
  s!"@{slot.offset} {slot.type.name}"

def Operation.text : Operation → Except Fault String
  | .readField component offset type => return s!"read-field t{component}+{offset} {type.name}"
  | .lookupField lookup offset type => return s!"lookup-field l{lookup}+{offset} {type.name}"
  | .readVar slot => return s!"read-var {slot.text}"
  | .not a => return "not " ++ (← a.text)
  | .and a b => return "and " ++ (← a.text) ++ " " ++ (← b.text)
  | .or a b => return "or " ++ (← a.text) ++ " " ++ (← b.text)
  | .compare op type lhs rhs => return s!"{op.name} {type.name} " ++ (← lhs.text) ++ " " ++ (← rhs.text)
  | .arith op type lhs rhs => return s!"{op.name} {type.name} " ++ (← lhs.text) ++ " " ++ (← rhs.text)

/-- What a node shows beside its kind. -/
def Node.payloadText : Node → Except Fault String
  | .nop | .fail => return ""
  | .root child | .catch child => return s!" {child.text}"
  | .sequence children => return String.join (children.toList.map fun child => s!" {child.text}")
  | .selector branches => return String.join (← branches.mapM fun branch =>
      return " [" ++ (← branch.guard.text) ++ s!" -> {branch.child.text}]")
  | .writeField component fields => return s!" t{component}" ++ String.join (← fields.mapM fun field =>
      return s!" +{field.offset}:{field.length} = " ++ (← field.value.text))
  | .wait (.duration seconds) => return " for " ++ (← seconds.text)
  | .wait (.condition holds) => return " until " ++ (← holds.text)
  | .optional guard child => return " " ++ (← guard.text) ++ s!" -> {child.text}"
  | .writeVar slot value => return s!" {slot.text} = " ++ (← value.text)
  | .query id result => return s!" q{id} -> {result.text}"
  | .parallel main thread => return s!" main={main.text} thread={thread.text}"
  | .threadRoot child looping => return s!" {child.text}" ++ if looping then " loop" else ""

def DebugId.text (id : DebugId) : String :=
  Text.hex 16 id.high.toNat ++ Text.hex 16 id.low.toNat

/-- Where a node came from, if that is known. -/
def Entry.originText (entry : Entry) : String :=
  if entry.debugId = ⟨0, 0⟩ ∧ entry.path = [] then ""
  else
    "  ; " ++ DebugId.text entry.debugId ++
      String.join (entry.path.map fun instanceId => " <" ++ Text.hex 16 instanceId.toNat ++ ">")

namespace Program

/-- Groups of at most eight bytes. -/
def rows : Bytes → List Bytes
  | [] => []
  | b :: rest => (b :: rest.take 7) :: rows (rest.drop 7)
termination_by bytes => bytes.length
decreasing_by simp only [List.length_drop, List.length_cons]; omega

/-- A titled block of lines, left out if it is empty. -/
def block (title : String) (lines : List String) : List String :=
  if lines = [] then [] else title :: lines

def typeLines (p : Program) : List String :=
  p.types.toList.zipIdx.map fun (type, i) =>
    s!"  t{i} {type.name} size={type.size} id=0x" ++ Text.hex 16 type.id.toNat

def lookupLines (p : Program) : List String :=
  p.lookups.toList.zipIdx.map fun
    | (some type, i) => s!"  l{i} {type.name} size={type.size}"
    | (none, i) => s!"  l{i} unused"

def constantLines (p : Program) : List String :=
  (rows p.expressions.constants).zipIdx.map fun (row, i) =>
    "  " ++ Text.hex 4 (8 * i) ++ ":" ++ String.join (row.map fun b => " " ++ Text.hex 2 b.toNat)

def operationLines (p : Program) : Except Fault (List String) :=
  p.expressions.operations.toList.zipIdx.mapM fun (operation, i) =>
    return s!"  e{i} = " ++ (← operation.text)

def nodeLines (p : Program) : Except Fault (List String) :=
  p.entries.toList.zipIdx.mapM fun (entry, i) => do
    let id : NodeId := ⟨UInt16.ofNat i⟩
    return s!"  {id.text} " ++ Text.padRight 11 entry.node.kind.name ++ (← entry.node.payloadText) ++
      entry.originText

/-- The lines of the listing. -/
def listing (p : Program) : Except Fault (List String) := do
  let summary := s!"program: {p.size} nodes, {p.expressions.operations.size} expressions, " ++
    s!"{p.expressions.constants.length} constant bytes, {p.blackboardSize} blackboard bytes"
  return [summary] ++ block "types:" p.typeLines ++ block "lookups:" p.lookupLines ++
    block "constants:" p.constantLines ++ block "expressions:" (← p.operationLines) ++
    ("nodes:" :: (← p.nodeLines))

/-- The listing as one text; every line ends in a line feed. -/
def listingText (p : Program) : Except Fault String :=
  p.listing.map fun lines => String.join (lines.map (· ++ "\n"))

end Program

end BehaviorTree
