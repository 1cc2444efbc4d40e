import BehaviorTree.Memory.Basic
import BehaviorTree.Value
import Std.Data.TreeMap

/-! Blackboard variables: named slots in one piece of memory that a program and everything that it
invokes share. -/

namespace BehaviorTree

/-- Where a variable is stored. -/
structure VarSlot where
  offset : UInt32
  type : ValueType
  deriving DecidableEq, Repr, Inhabited, Hashable

namespace VarSlot

def length (slot : VarSlot) : Nat :=
  slot.type.size

/-- Whether a scalar of the given type may be read from or stored in the slot: a truth value takes
the slot's first byte, all else needs a slot of its size. -/
def Suits (slot : VarSlot) (type : ValueType) : Prop :=
  type = .bool ∨ type.size = slot.length

instance (slot : VarSlot) (type : ValueType) : Decidable (slot.Suits type) :=
  inferInstanceAs (Decidable (_ ∨ _))

/-- The scalar of the given type in the slot. -/
def readAs (slot : VarSlot) (type : ValueType) (board : Memory) : Except Fault Constant :=
  if slot.Suits type then
    (board.slice slot.offset.toNat type.size).map (Constant.ofBytes type)
  else .error .slotSize

/-- Stores a scalar in the slot. -/
def write (slot : VarSlot) (value : Constant) (board : Memory) : Except Fault Memory :=
  if slot.Suits value.type then board.overwrite slot.offset.toNat value.bytes
  else .error .slotSize

end VarSlot

/-- The slot of every variable, ordered by name, and the number of bytes that they take. -/
structure BlackboardLayout where
  vars : Std.TreeMap String VarSlot
  size : Nat

namespace BlackboardLayout

def empty : BlackboardLayout := ⟨∅, 0⟩

instance : Inhabited BlackboardLayout := ⟨empty⟩

def get? (layout : BlackboardLayout) (name : String) : Option VarSlot :=
  layout.vars[name]?

/-- The slot after all others that suits a variable of the given type. -/
def nextSlot (layout : BlackboardLayout) (type : ValueType) : VarSlot :=
  ⟨UInt32.ofNat (alignUp layout.size type.size), type⟩

/-- Appends a variable. A name that already has the type keeps its slot; with another type it moves
to a new one. -/
def declare (layout : BlackboardLayout) (name : String) (type : ValueType) :
    BlackboardLayout × VarSlot :=
  match (layout.get? name).filter (·.type = type) with
  | some slot => (layout, slot)
  | none =>
    let slot := layout.nextSlot type
    (⟨layout.vars.insert name slot, alignUp layout.size type.size + type.size⟩, slot)

def toList (layout : BlackboardLayout) : List (String × VarSlot) :=
  layout.vars.toList

/-- A blackboard with every variable zero. -/
def blank (layout : BlackboardLayout) : Memory :=
  Memory.zeros layout.size

end BlackboardLayout

end BehaviorTree
