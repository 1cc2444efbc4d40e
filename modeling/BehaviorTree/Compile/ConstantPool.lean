import BehaviorTree.Expression.Basic
import Std.Data.HashMap

/-! The constant pool of a program. Equal bytes are stored once, and every value is aligned to its
own size. -/

namespace BehaviorTree

structure ConstantPool where
  bytes : Array UInt8
  offsets : Std.HashMap Bytes UInt32

namespace ConstantPool

def empty : ConstantPool := ⟨#[], ∅⟩

/-- Refers to a value, which is appended unless its bytes are there already. -/
def intern (pool : ConstantPool) (value : Constant) : ValueRef × ConstantPool :=
  let encoded := value.bytes
  let length := UInt16.ofNat encoded.length
  match pool.offsets[encoded]? with
  | some offset => (.constant offset length, pool)
  | none =>
    let offset := alignUp pool.bytes.size encoded.length
    let gap := Array.replicate (offset - pool.bytes.size) 0
    (.constant (UInt32.ofNat offset) length,
      ⟨pool.bytes ++ gap ++ encoded.toArray, pool.offsets.insert encoded (UInt32.ofNat offset)⟩)

end ConstantPool

end BehaviorTree
