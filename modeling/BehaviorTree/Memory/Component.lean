import BehaviorTree.Hash.Xxh64
import BehaviorTree.Value
import Std.Data.TreeMap

/-! Component types as the storage layer sees them: named fields at byte offsets with natural
alignment. Offsets and sizes are kept in 16 bits. -/

namespace BehaviorTree

/-- A field of a component. -/
structure Field where
  name : String
  offset : UInt16
  type : ValueType
  deriving DecidableEq, Repr

/-- The byte layout of one component type. -/
structure ComponentLayout where
  name : String
  size : UInt16
  fields : List Field
  deriving DecidableEq, Repr

/-- The stable identity of a component type. -/
def componentTypeId (name : String) : UInt64 :=
  Xxh64.hash 0 (Bytes.ofText name)

namespace ComponentLayout

/-- Fields placed so far, the first byte after them and the largest alignment among them. -/
structure Placement where
  fields : Array Field
  extent : Nat
  align : Nat

namespace Placement

def empty : Placement := ⟨#[], 0, 1⟩

/-- Places one more field at the next offset that suits its size. -/
def place (p : Placement) (field : String × ValueType) : Placement :=
  let (name, type) := field
  let offset := alignUp p.extent type.size
  ⟨p.fields.push ⟨name, UInt16.ofNat offset, type⟩, offset + type.size, max p.align type.size⟩

end Placement

/-- Lays fields out in the given order. The size is a multiple of every alignment. -/
def ofFields (name : String) (fields : List (String × ValueType)) : ComponentLayout :=
  let placed := fields.foldl Placement.place Placement.empty
  ⟨name, UInt16.ofNat (alignUp placed.extent placed.align), placed.fields.toList⟩

/-- The first field of a name. -/
def field? (layout : ComponentLayout) (name : String) : Option Field :=
  layout.fields.find? (·.name = name)

def typeId (layout : ComponentLayout) : UInt64 :=
  componentTypeId layout.name

end ComponentLayout

/-- The component types that a program may read or write, ordered by name. -/
structure Catalog where
  types : Std.TreeMap String ComponentLayout

namespace Catalog

def empty : Catalog := ⟨∅⟩

instance : Inhabited Catalog := ⟨empty⟩

/-- Adds a component type, in place of an earlier one of that name. -/
def define (catalog : Catalog) (name : String) (fields : List (String × ValueType)) : Catalog :=
  ⟨catalog.types.insert name (ComponentLayout.ofFields name fields)⟩

def get? (catalog : Catalog) (name : String) : Option ComponentLayout :=
  catalog.types[name]?

def field? (catalog : Catalog) (component field : String) : Option Field :=
  (catalog.get? component).bind (·.field? field)

def toList (catalog : Catalog) : List ComponentLayout :=
  catalog.types.values

end Catalog

end BehaviorTree
