import BehaviorTree.Program.Basic

/-! The binary form of a program: a header, then the sections for expressions, nodes, debug ids,
sub-graph paths, component types, lookups and the blackboard. Numbers are little-endian. Every
record is padded to a multiple of eight bytes, so that every record starts at such an offset. -/

namespace BehaviorTree

namespace Binary

def magic : Bytes := [0x42, 0x48, 0x56, 0x50]

def versionMajor : UInt16 := 1

def versionMinor : UInt16 := 0

/-- The number of bytes from `offset` to the next record boundary. -/
def padding (offset : Nat) : Nat :=
  (8 - offset % 8) % 8

/-- Fills a record up to the next boundary with zeros. -/
def pad (bytes : Bytes) : Bytes :=
  bytes ++ Bytes.zeros (padding bytes.length)

def word16 (n : UInt16) : Bytes := Bytes.littleEndian 2 n.toNat

def word32 (n : UInt32) : Bytes := Bytes.littleEndian 4 n.toNat

def word64 (n : UInt64) : Bytes := Bytes.littleEndian 8 n.toNat

/-- The length of a section, in 32 bits. -/
def encodeCount (count : Nat) : Except Fault Bytes :=
  if count < 0x100000000 then .ok (Bytes.littleEndian 4 count) else .error .sectionTooLarge

/-- The length of a section in a record of its own. -/
def encodeHead (count : Nat) : Except Fault Bytes :=
  (encodeCount count).map (· ++ word32 0)

/-- The length of a list inside of a node, in 16 bits. -/
def shortCount (count : Nat) : Bytes :=
  Bytes.littleEndian 2 count

/-- Eight bytes: kind, slot, length or index, offset. -/
def encodeRef : ValueRef → Bytes
  | .constant offset length => [0, 0] ++ word16 length ++ word32 offset
  | .output index slot => [1, slot] ++ word16 index ++ word32 0

def encodeSlot (slot : VarSlot) : Bytes :=
  word32 slot.offset ++ [slot.type.tag]

def encodeOperation : Operation → Bytes
  | .readField component offset type => pad ([0, type.tag] ++ word16 component ++ word16 offset)
  | .lookupField lookup offset type => pad ([1, type.tag] ++ word16 lookup ++ word16 offset)
  | .readVar slot => pad ([2, 0] ++ encodeSlot slot)
  | .not a => pad [3] ++ encodeRef a
  | .and a b => pad [4] ++ encodeRef a ++ encodeRef b
  | .or a b => pad [5] ++ encodeRef a ++ encodeRef b
  | .compare op type lhs rhs => pad [6, op.tag, type.tag] ++ encodeRef lhs ++ encodeRef rhs
  | .arith op type lhs rhs => pad [7, op.tag, type.tag] ++ encodeRef lhs ++ encodeRef rhs

def encodeBranch (branch : Branch) : Bytes :=
  pad (encodeRef branch.guard ++ word16 branch.child.index)

def encodeWrite (field : FieldWrite) : Bytes :=
  word16 field.offset ++ word16 field.length ++ word32 0 ++ encodeRef field.value

/-- What follows the tag of a node, with the tag as its first byte. -/
def encodePayload (tag : UInt8) : Node → Bytes
  | .nop | .fail => [tag]
  | .root child | .catch child => [tag, 0] ++ word16 child.index
  | .threadRoot child looping => [tag, if looping then 1 else 0] ++ word16 child.index
  | .sequence children =>
    [tag, 0] ++ shortCount children.size ++ children.toList.flatMap fun child => word16 child.index
  | .selector branches => pad ([tag, 0] ++ shortCount branches.length) ++ branches.flatMap encodeBranch
  | .writeField component fields =>
    pad ([tag, 0] ++ word16 component ++ shortCount fields.length) ++ fields.flatMap encodeWrite
  | .wait (.duration seconds) => pad [tag, 0] ++ encodeRef seconds
  | .wait (.condition holds) => pad [tag, 1] ++ encodeRef holds
  | .optional guard child => pad ([tag, 0] ++ word16 child.index) ++ encodeRef guard
  | .writeVar slot value => pad ([tag, 0] ++ word16 0 ++ encodeSlot slot) ++ encodeRef value
  | .query query result => [tag, 0] ++ word16 query ++ encodeSlot result
  | .parallel main thread => [tag, 0] ++ word16 main.index ++ word16 thread.index

def encodeNode (node : Node) : Bytes :=
  pad (encodePayload node.kind.tag node)

def encodeDebugId (id : DebugId) : Bytes :=
  word64 id.low ++ word64 id.high

def encodePath (path : List InstanceId) : Except Fault Bytes :=
  (encodeHead path.length).map (· ++ path.flatMap word64)

def encodeType (type : ComponentType) : Except Fault Bytes :=
  let name := Bytes.ofText type.name
  if name.length < 0x10000 then
    .ok (pad (word64 type.id ++ word16 type.size ++ shortCount name.length ++ name))
  else .error .typeNameTooLong

def encodeLookup : Option ComponentType → Except Fault Bytes
  | none => .ok (pad [0])
  | some type => (encodeType type).map (pad [1] ++ ·)

/-- The concatenation of records that may be refused. -/
def encodeAll {α : Type} (encode : α → Except Fault Bytes) (items : List α) : Except Fault Bytes :=
  (items.mapM encode).map List.flatten

def encodeExpressions (exprs : Expressions) : Except Fault Bytes := do
  return (← encodeCount exprs.constants.length) ++ (← encodeCount exprs.operations.size) ++
    pad exprs.constants ++ exprs.operations.toList.flatMap encodeOperation

end Binary

open Binary

/-- The bytes of a program. -/
def Program.encode (p : Program) : Except Fault Bytes := do
  let entries := p.entries.toList
  let expressions ← encodeExpressions p.expressions
  let nodeHead ← encodeHead entries.length
  let paths ← encodeAll (encodePath ·.path) entries
  let typeHead ← encodeHead p.types.size
  let types ← encodeAll encodeType p.types.toList
  let lookupHead ← encodeHead p.lookups.size
  let lookups ← encodeAll encodeLookup p.lookups.toList
  return magic ++ word16 versionMajor ++ word16 versionMinor ++ expressions ++
    nodeHead ++ entries.flatMap (encodeNode ·.node) ++ entries.flatMap (encodeDebugId ·.debugId) ++ paths ++
    typeHead ++ types ++ lookupHead ++ lookups ++ pad (word32 p.blackboardSize)

end BehaviorTree
