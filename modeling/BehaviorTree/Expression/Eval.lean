import BehaviorTree.Expression.Basic
import BehaviorTree.Memory.Basic

/-! Evaluation of expressions. An operation reads memory or combines the values of its operands;
operands are evaluated from left to right, and only as far as they are needed. -/

namespace BehaviorTree

/-- Memory of a component, and the type that it claims to have. -/
structure Storage where
  typeId : UInt64
  data : Memory
  deriving Inhabited

/-- Everything that an expression may read. -/
structure Surroundings where
  expressions : Expressions
  components : Array Storage
  lookups : Array Storage
  blackboard : Memory

/-- A value of at most four bytes. -/
structure Scalar where
  bytes : Bytes
  short : bytes.length ≤ 4

namespace Scalar

def ofBytes (bytes : Bytes) : Except Fault Scalar :=
  if h : bytes.length ≤ 4 then .ok ⟨bytes, h⟩ else .error (.scalarTooLong bytes.length)

def ofBool (b : Bool) : Scalar :=
  ⟨[if b then 1 else 0], by simp⟩

/-- The four bytes of a word. -/
def ofWord (w : UInt32) : Scalar :=
  ⟨Bytes.littleEndian 4 w.toNat, by simp [Bytes.littleEndian]⟩

def toBool (s : Scalar) : Bool :=
  s.bytes.headD 0 != 0

/-- The bytes as a number; missing bytes are zero. -/
def toWord (s : Scalar) : UInt32 :=
  UInt32.ofNat s.bytes.value

def toFloat (s : Scalar) : Float32 :=
  Float32.ofBits s.toWord

end Scalar

/-- The order of two numbers, if neither is a NaN. -/
def floatOrder (a b : Float32) : Option Ordering :=
  if a < b then some .lt else if a == b then some .eq else if b < a then some .gt else none

/-- The order of two scalars of a type. -/
def ValueType.order (type : ValueType) (a b : Scalar) : Option Ordering :=
  match type with
  | .bool => some (Ord.compare a.toBool b.toBool)
  | .int => some (Ord.compare a.toWord.toInt32 b.toWord.toInt32)
  | .float => floatOrder a.toFloat b.toFloat

/-- Integers wrap at 32 bits. -/
def ArithOp.ofWords (op : ArithOp) (a b : UInt32) : UInt32 :=
  match op with
  | .add => a + b
  | .sub => a - b
  | .mul => a * b

def ArithOp.ofFloats (op : ArithOp) (a b : Float32) : Float32 :=
  match op with
  | .add => a + b
  | .sub => a - b
  | .mul => a * b

/-- The result of arithmetic on two scalars of a type. -/
def ArithOp.apply (op : ArithOp) (type : ValueType) (a b : Scalar) : Except Fault Scalar :=
  match type with
  | .bool => .error .boolArithmetic
  | .int => .ok (.ofWord (op.ofWords a.toWord b.toWord))
  | .float => .ok (.ofWord (op.ofFloats a.toFloat b.toFloat).toBits)

namespace Surroundings

/-- A scalar of a component's memory. -/
def readStorage (stores : Array Storage) (index offset : UInt16) (type : ValueType) :
    Except Fault Scalar :=
  match stores[index.toNat]? with
  | none => .error .outOfRange
  | some store => do Scalar.ofBytes (← store.data.slice offset.toNat type.size)

/-- One operation, given the values of its operands. -/
def apply (s : Surroundings) (operand : ValueRef → Except Fault Scalar) :
    Operation → Except Fault Scalar
  | .readField component offset type => readStorage s.components component offset type
  | .lookupField lookup offset type => readStorage s.lookups lookup offset type
  | .readVar slot => do Scalar.ofBytes (← s.blackboard.slice slot.offset.toNat slot.length)
  | .not a => return .ofBool !(← operand a).toBool
  | .and a b => do
    if (← operand a).toBool then return .ofBool (← operand b).toBool else return .ofBool false
  | .or a b => do
    if (← operand a).toBool then return .ofBool true else return .ofBool (← operand b).toBool
  | .compare op type lhs rhs => do
    let l ← operand lhs
    let r ← operand rhs
    return .ofBool (op.holds (type.order l r))
  | .arith op type lhs rhs => do
    let l ← operand lhs
    let r ← operand rhs
    op.apply type l r

/-- The value of a reference, through at most `depth` nested operations. -/
def evalWithin (s : Surroundings) : (depth : Nat) → ValueRef → Except Fault Scalar
  | _, .constant offset length => do
    Scalar.ofBytes (← s.expressions.constants.slice offset.toNat length.toNat)
  | 0, .output _ _ => .error .circularExpression
  | depth + 1, .output index slot =>
    if slot ≠ 0 then .error .unknownOutput
    else
      match s.expressions.operations[index.toNat]? with
      | none => .error .outOfRange
      | some operation => s.apply (s.evalWithin depth) operation

/-- The value of a reference. Operations that do not lead back to themselves are nested no deeper
than there are operations. -/
def eval (s : Surroundings) (ref : ValueRef) : Except Fault Scalar :=
  s.evalWithin (s.expressions.operations.size + 1) ref

/-- The bytes of a value that has to fill exactly `size` bytes. -/
def evaluate (s : Surroundings) (ref : ValueRef) (size : Nat) : Except Fault Bytes := do
  let value ← s.eval ref
  if value.bytes.length = size then return value.bytes else throw .resultSize

def evaluateBool (s : Surroundings) (ref : ValueRef) : Except Fault Bool :=
  (s.evaluate ref 1).map fun bytes => bytes.headD 0 != 0

/-- The bits of a floating-point value. -/
def evaluateFloat (s : Surroundings) (ref : ValueRef) : Except Fault UInt32 :=
  (s.evaluate ref 4).map fun bytes => UInt32.ofNat bytes.value

end Surroundings

end BehaviorTree
