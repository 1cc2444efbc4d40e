import BehaviorTree.Bytes

/-! Memory: a fixed number of bytes that are read and overwritten in pieces. It is a byte string
that can change in place, and its operations are those of byte strings. -/

namespace BehaviorTree

/-- The memory of a component, or a blackboard. -/
abbrev Memory := ByteArray

namespace Memory

/-- The contents of the memory. -/
def toBytes (m : Memory) : Bytes :=
  m.data.toList

def ofBytes (bytes : Bytes) : Memory :=
  ⟨bytes.toArray⟩

def zeros (size : Nat) : Memory :=
  ofBytes (Bytes.zeros size)

/-- The `length` bytes at `offset`. -/
def slice (m : Memory) (offset length : Nat) : Except Fault Bytes :=
  if offset + length ≤ m.size then .ok (toBytes (m.extract offset (offset + length)))
  else .error .outOfRange

/-- Puts `new` in place of as many bytes at `offset`. -/
def overwrite (m : Memory) (offset : Nat) (new : Bytes) : Except Fault Memory :=
  if offset + new.length ≤ m.size then .ok ((ofBytes new).copySlice 0 m offset new.length)
  else .error .outOfRange

@[simp] theorem toBytes_ofBytes (bytes : Bytes) : toBytes (ofBytes bytes) = bytes := rfl

@[simp] theorem ofBytes_toBytes (m : Memory) : ofBytes (toBytes m) = m := rfl

theorem length_toBytes (m : Memory) : (toBytes m).length = m.size := rfl

@[simp] theorem toBytes_zeros (size : Nat) : toBytes (zeros size) = Bytes.zeros size := rfl

/-- Memory is read like a byte string. -/
theorem slice_toBytes (m : Memory) (offset length : Nat) :
    (toBytes m).slice offset length = m.slice offset length := by
  by_cases h : offset + length ≤ m.size
  · simp [slice, Bytes.slice, h, toBytes, ByteArray.data_extract]
  · simp [slice, Bytes.slice, length_toBytes, h]

/-- Memory is overwritten like a byte string. -/
theorem overwrite_toBytes (m : Memory) (offset : Nat) (new : Bytes) :
    (toBytes m).overwrite offset new = (m.overwrite offset new).map toBytes := by
  by_cases h : offset + new.length ≤ m.size
  · have rest : (m.data.toList.drop (offset + new.length)).length ≤ m.size - (offset + new.length) := by
      rw [List.length_drop]
      exact Nat.le_refl _
    simp [overwrite, Bytes.overwrite, h, Except.map, toBytes, ofBytes, ByteArray.copySlice,
      List.take_of_length_le rest]
  · simp [overwrite, Bytes.overwrite, length_toBytes, h, Except.map]

end Memory

end BehaviorTree
