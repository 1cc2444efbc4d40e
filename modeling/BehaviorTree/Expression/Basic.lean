import BehaviorTree.Memory.Blackboard

/-! Expressions: a pool of constant bytes and a table of pure operations that refer to the pool,
to memory and to each other by index. -/

namespace BehaviorTree

/-- Refers to a value: bytes of the constant pool, or an output of an operation. -/
inductive ValueRef where
  | constant (offset : UInt32) (length : UInt16)
  | output (index : UInt16) (slot : UInt8)
  deriving DecidableEq, Repr, Inhabited

inductive CompareOp where
  | lt
  | le
  | gt
  | ge
  | eq
  | ne
  deriving DecidableEq, Repr

namespace CompareOp

def tag : CompareOp → UInt8
  | lt => 0
  | le => 1
  | gt => 2
  | ge => 3
  | eq => 4
  | ne => 5

def ofTag? : UInt8 → Option CompareOp
  | 0 => some lt
  | 1 => some le
  | 2 => some gt
  | 3 => some ge
  | 4 => some eq
  | 5 => some ne
  | _ => none

def name : CompareOp → String
  | lt => "lt"
  | le => "le"
  | gt => "gt"
  | ge => "ge"
  | eq => "eq"
  | ne => "ne"

def ofName? : String → Option CompareOp
  | "lt" => some lt
  | "le" => some le
  | "gt" => some gt
  | "ge" => some ge
  | "eq" => some eq
  | "ne" => some ne
  | _ => none

/-- Whether the comparison holds of two values in the given order. Values that have no order are
different, and no other comparison holds of them. -/
def holds : CompareOp → Option Ordering → Bool
  | lt, some .lt => true
  | le, some .lt | le, some .eq => true
  | gt, some .gt => true
  | ge, some .gt | ge, some .eq => true
  | eq, some .eq => true
  | ne, order => order ≠ some .eq
  | _, _ => false

end CompareOp

inductive ArithOp where
  | add
  | sub
  | mul
  deriving DecidableEq, Repr

namespace ArithOp

def tag : ArithOp → UInt8
  | add => 0
  | sub => 1
  | mul => 2

def ofTag? : UInt8 → Option ArithOp
  | 0 => some add
  | 1 => some sub
  | 2 => some mul
  | _ => none

def name : ArithOp → String
  | add => "add"
  | sub => "sub"
  | mul => "mul"

def ofName? : String → Option ArithOp
  | "add" => some add
  | "sub" => some sub
  | "mul" => some mul
  | _ => none

end ArithOp

/-- A pure operation with a single output, in slot 0. -/
inductive Operation where
  | readField (component offset : UInt16) (type : ValueType)
  | lookupField (lookup offset : UInt16) (type : ValueType)
  | readVar (slot : VarSlot)
  | not (a : ValueRef)
  | and (a b : ValueRef)
  | or (a b : ValueRef)
  | compare (op : CompareOp) (type : ValueType) (lhs rhs : ValueRef)
  | arith (op : ArithOp) (type : ValueType) (lhs rhs : ValueRef)
  deriving DecidableEq, Repr, Inhabited

namespace Operation

def outputType : Operation → ValueType
  | readField _ _ type | lookupField _ _ type => type
  | readVar slot => slot.type
  | not _ | and _ _ | or _ _ | compare _ _ _ _ => .bool
  | arith _ type _ _ => type

def operands : Operation → List ValueRef
  | readField _ _ _ | lookupField _ _ _ | readVar _ => []
  | not a => [a]
  | and a b | or a b => [a, b]
  | compare _ _ lhs rhs | arith _ _ lhs rhs => [lhs, rhs]

end Operation

/-- The expressions of a program. -/
structure Expressions where
  constants : Bytes
  operations : Array Operation
  deriving DecidableEq, Repr, Inhabited

/-- Number of bytes of a referenced value, where the operation exists. -/
def Expressions.resultSize? (exprs : Expressions) : ValueRef → Option Nat
  | .constant _ length => some length.toNat
  | .output index _ => exprs.operations[index.toNat]?.map (·.outputType.size)

end BehaviorTree
