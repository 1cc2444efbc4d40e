import BehaviorTree.Program.Encode
import BehaviorTree.Program.Validity

/-! Reading the binary form of a program. Padding and reserved bytes are skipped and the minor
version is ignored; all else has to be just what encoding writes, and the program has to be valid. -/

namespace BehaviorTree

namespace Binary

/-- The fields that hold a tag. -/
inductive TagField where
  | valueRef
  | valueType
  | compareOp
  | arithOp
  | operation
  | node
  | waitMode
  | lookup
  deriving DecidableEq, Repr

def TagField.name : TagField → String
  | valueRef => "expression reference"
  | valueType => "value type"
  | compareOp => "compare op"
  | arithOp => "arith op"
  | operation => "expression"
  | node => "node"
  | waitMode => "wait mode"
  | lookup => "lookup"

end Binary

inductive DecodeError where
  | unexpectedEnd
  | badMagic
  | unsupportedVersion (major minor : UInt16)
  | unknownTag (field : Binary.TagField) (tag : UInt8)
  | invalidText
  | trailingBytes (count : Nat)
  | invalid (error : ProgramError)
  deriving DecidableEq, Repr

namespace DecodeError

def name : DecodeError → String
  | unexpectedEnd => "UnexpectedEof"
  | badMagic => "BadMagic"
  | unsupportedVersion _ _ => "UnsupportedVersion"
  | unknownTag _ _ => "UnknownTag"
  | invalidText => "InvalidUtf8"
  | trailingBytes _ => "TrailingBytes"
  | invalid _ => "Invalid"

def message : DecodeError → String
  | unexpectedEnd => "unexpected end of input"
  | badMagic => "bad magic header"
  | unsupportedVersion major minor => s!"unsupported version {major}.{minor}"
  | unknownTag field tag => s!"unknown {field.name} tag {tag}"
  | invalidText => "invalid UTF-8 in type name"
  | trailingBytes count => s!"{count} trailing bytes after program"
  | invalid error => s!"invalid program: {error.message}"

end DecodeError

namespace Binary

/-- The bytes still to be read, and how many have been read. -/
structure Cursor where
  rest : Bytes
  offset : Nat

abbrev Reader := StateT Cursor (Except DecodeError)

namespace Reader

/-- The next `count` bytes. -/
def take (count : Nat) : Reader Bytes := fun cursor =>
  let taken := cursor.rest.take count
  if taken.length = count then .ok (taken, ⟨cursor.rest.drop count, cursor.offset + count⟩)
  else .error .unexpectedEnd

def number (width : Nat) : Reader Nat :=
  return (← take width).value

def word8 : Reader UInt8 := return UInt8.ofNat (← number 1)

def word16 : Reader UInt16 := return UInt16.ofNat (← number 2)

def word32 : Reader UInt32 := return UInt32.ofNat (← number 4)

def word64 : Reader UInt64 := return UInt64.ofNat (← number 8)

/-- Skips to the next record boundary. -/
def align : Reader Unit := fun cursor =>
  (take (padding cursor.offset) cursor).map fun (_, cursor) => ((), cursor)

/-- Reads `count` items into `reversed`. -/
def manyInto {α : Type} (item : Reader α) :
    (count : Nat) → (reversed : List α) → Cursor → Except DecodeError (List α × Cursor)
  | 0, reversed, cursor => .ok (reversed.reverse, cursor)
  | count + 1, reversed, cursor =>
    match item cursor with
    | .ok (a, cursor) => manyInto item count (a :: reversed) cursor
    | .error e => .error e

/-- Reads exactly `count` items. -/
def many {α : Type} (count : Nat) (item : Reader α) : Reader (List α) :=
  manyInto item count []

/-- A byte that has to be one of the known tags. -/
def tagged {α : Type} (field : TagField) (ofTag? : UInt8 → Option α) : Reader α := do
  let tag ← word8
  match ofTag? tag with
  | some a => return a
  | none => throw (.unknownTag field tag)

/-- The length of a section in a record of its own. -/
def head : Reader Nat := do
  let count ← number 4
  let _ ← word32
  return count

end Reader

open Reader

def decodeRef : Reader ValueRef := do
  let kind ← word8
  let slot ← word8
  let short ← Reader.word16
  let offset ← Reader.word32
  match kind with
  | 0 => return .constant offset short
  | 1 => return .output short slot
  | tag => throw (.unknownTag .valueRef tag)

def decodeValueType : Reader ValueType :=
  tagged .valueType ValueType.ofTag?

def decodeSlot : Reader VarSlot := do
  let offset ← Reader.word32
  return ⟨offset, ← decodeValueType⟩

def decodeNodeId : Reader NodeId :=
  return ⟨← Reader.word16⟩

/-- What follows the tag of an operation. -/
def decodeOperationOf (tag : UInt8) : Reader Operation :=
  match tag with
  | 0 => do
    let type ← decodeValueType
    let component ← Reader.word16
    return .readField component (← Reader.word16) type
  | 1 => do
    let type ← decodeValueType
    let lookup ← Reader.word16
    return .lookupField lookup (← Reader.word16) type
  | 2 => do
    let _ ← word8
    return .readVar (← decodeSlot)
  | 3 => do
    align
    return .not (← decodeRef)
  | 4 => do
    align
    let a ← decodeRef
    return .and a (← decodeRef)
  | 5 => do
    align
    let a ← decodeRef
    return .or a (← decodeRef)
  | 6 => do
    let op ← tagged .compareOp CompareOp.ofTag?
    let type ← decodeValueType
    align
    let lhs ← decodeRef
    return .compare op type lhs (← decodeRef)
  | 7 => do
    let op ← tagged .arithOp ArithOp.ofTag?
    let type ← decodeValueType
    align
    let lhs ← decodeRef
    return .arith op type lhs (← decodeRef)
  | tag => throw (.unknownTag .operation tag)

def decodeOperation : Reader Operation := do
  let operation ← decodeOperationOf (← word8)
  align
  return operation

def decodeBranch : Reader Branch := do
  let guard ← decodeRef
  let child ← decodeNodeId
  align
  return ⟨guard, child⟩

def decodeWrite : Reader FieldWrite := do
  let offset ← Reader.word16
  let length ← Reader.word16
  let _ ← Reader.word32
  return ⟨offset, length, ← decodeRef⟩

/-- What follows the tag of a node. -/
def decodePayload : NodeKind → Reader Node
  | .nop => return .nop
  | .fail => return .fail
  | .root => do
    let _ ← word8
    return .root (← decodeNodeId)
  | .catch => do
    let _ ← word8
    return .catch (← decodeNodeId)
  | .threadRoot => do
    let looping ← word8
    return .threadRoot (← decodeNodeId) (looping != 0)
  | .sequence => do
    let _ ← word8
    let count ← number 2
    return .sequence (← many count decodeNodeId).toArray
  | .selector => do
    let _ ← word8
    let count ← number 2
    align
    return .selector (← many count decodeBranch)
  | .writeField => do
    let _ ← word8
    let component ← Reader.word16
    let count ← number 2
    align
    return .writeField component (← many count decodeWrite)
  | .wait => do
    let mode ← word8
    align
    let value ← decodeRef
    match mode with
    | 0 => return .wait (.duration value)
    | 1 => return .wait (.condition value)
    | tag => throw (.unknownTag .waitMode tag)
  | .optional => do
    let _ ← word8
    let child ← decodeNodeId
    align
    return .optional (← decodeRef) child
  | .writeVar => do
    let _ ← word8
    let _ ← Reader.word16
    let slot ← decodeSlot
    align
    return .writeVar slot (← decodeRef)
  | .query => do
    let _ ← word8
    let query ← Reader.word16
    return .query query (← decodeSlot)
  | .parallel => do
    let _ ← word8
    let main ← decodeNodeId
    return .parallel main (← decodeNodeId)

def decodeNode : Reader Node := do
  let node ← decodePayload (← tagged .node NodeKind.ofTag?)
  align
  return node

def decodeDebugId : Reader DebugId := do
  let low ← Reader.word64
  return ⟨← Reader.word64, low⟩

def decodePath : Reader (List InstanceId) := do
  many (← head) Reader.word64

def decodeType : Reader ComponentType := do
  let id ← Reader.word64
  let size ← Reader.word16
  let name ← take (← number 2)
  match String.fromUTF8? ⟨name.toArray⟩ with
  | none => throw .invalidText
  | some name =>
    align
    return ⟨name, id, size⟩

def decodeLookup : Reader (Option ComponentType) := do
  let present ← word8
  align
  match present with
  | 0 => return none
  | 1 => return some (← decodeType)
  | tag => throw (.unknownTag .lookup tag)

def decodeExpressions : Reader Expressions := do
  let pool ← number 4
  let count ← number 4
  let constants ← take pool
  align
  return ⟨constants, (← many count decodeOperation).toArray⟩

/-- Everything after the header. -/
def decodeSections : Reader Program := do
  let expressions ← decodeExpressions
  let count ← head
  let nodes ← many count decodeNode
  let debugIds ← many count decodeDebugId
  let paths ← many count decodePath
  let types ← many (← head) decodeType
  let lookups ← many (← head) decodeLookup
  let blackboardSize ← Reader.word32
  align
  let entries := (nodes.zip (debugIds.zip paths)).map fun (node, debugId, path) => Entry.mk node debugId path
  return ⟨expressions, entries.toArray, types.toArray, lookups.toArray, blackboardSize⟩

def decodeHeader : Reader Unit := do
  unless (← take 4) = magic do throw .badMagic
  let major ← Reader.word16
  let minor ← Reader.word16
  unless major = versionMajor do throw (.unsupportedVersion major minor)

/-- The whole input, up to its last byte. -/
def decodeAll : Reader Program := do
  decodeHeader
  let program ← decodeSections
  let cursor ← get
  unless cursor.rest = [] do throw (.trailingBytes cursor.rest.length)
  return program

end Binary

/-- Reads and checks a program. -/
def Program.decode (bytes : Bytes) : Except DecodeError Program := do
  let (program, _) ← Binary.decodeAll ⟨bytes, 0⟩
  match program.validate with
  | .ok () => return program
  | .error e => throw (.invalid e)

end BehaviorTree
