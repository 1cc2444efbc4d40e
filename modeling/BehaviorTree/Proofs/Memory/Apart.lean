import BehaviorTree.Proofs.Compile.Soundness
import BehaviorTree.Proofs.Machine.Evaluation

/-! Variables and fields stand apart. Each is placed behind all that were placed before, so that no two of them have
a byte in common. Offsets of fields are kept in 16 bits, and a layout in which one of them wraps has a field that
does not end within the size of its component. -/

namespace BehaviorTree

/-! ### Variables -/

namespace BlackboardLayout

/-- Variables of different names have no byte in common. -/
theorem Built.apart {layout : BlackboardLayout} (built : layout.Built) (hsize : layout.size < 2 ^ 32)
    {name name' : String} (hne : name ≠ name') {slot slot' : VarSlot} (h : layout.get? name = some slot)
    (h' : layout.get? name' = some slot') :
    slot.offset.toNat + slot.length ≤ slot'.offset.toNat ∨ slot'.offset.toNat + slot'.length ≤ slot.offset.toNat := by
  induction built with
  | empty => simp [get?, BlackboardLayout.empty] at h
  | @declare layout built declared type ih =>
    rcases layout.declare_cases declared type with hdeclare | hdeclare
    · rw [hdeclare] at h h' hsize
      exact ih hsize h h'
    · rw [hdeclare] at h h' hsize
      have hle := le_alignUp layout.size type
      have hsize : alignUp layout.size type.size + type.size < 2 ^ 32 := hsize
      have hplace : (layout.nextSlot type).offset.toNat = alignUp layout.size type.size :=
        UInt32.toNat_ofNat_of_lt' (show alignUp layout.size type.size < 2 ^ 32 by omega)
      have hinside {other : String} {old : VarSlot} (hold : layout.get? other = some old) :
          old.offset.toNat + old.length ≤ (layout.nextSlot type).offset.toNat := by
        have := built.inRange other old hold
        omega
      have hget (other : String) : get? ⟨layout.vars.insert declared (layout.nextSlot type),
          alignUp layout.size type.size + type.size⟩ other =
            if declared = other then some (layout.nextSlot type) else layout.get? other := by
        simp [get?, Std.TreeMap.getElem?_insert]
      rw [hget] at h h'
      split_ifs at h h' with hname hname' hname'
      · exact absurd (hname.symm.trans hname') hne
      · obtain rfl := Option.some.inj h
        exact .inr (hinside h')
      · obtain rfl := Option.some.inj h'
        exact .inl (hinside h)
      · exact ih (by omega) h h'

end BlackboardLayout

/-! ### Fields -/

/-- The first byte after a field. -/
def Field.stop (field : Field) : Nat :=
  field.offset.toNat + field.type.size

/-- The fields have no byte in common. -/
def Field.Apart (field field' : Field) : Prop :=
  field.stop ≤ field'.offset.toNat ∨ field'.stop ≤ field.offset.toNat

instance : Std.Symm Field.Apart :=
  ⟨fun _ _ => Or.symm⟩

namespace ComponentLayout

namespace Placement

/-- Every field is placed behind all earlier ones, and the last one ends where the next one may begin. -/
structure Packed (p : Placement) : Prop where
  small : p.extent < 65536
  inside : ∀ field ∈ p.fields, field.stop ≤ p.extent
  last : p.extent = 0 ∨ ∃ field ∈ p.fields, field.stop = p.extent
  apart : p.fields.toList.Pairwise fun field later => field.stop ≤ later.offset.toNat

/-- A field ends behind every size that has 16 bits and suits the alignment. -/
def Spilled (p : Placement) : Prop :=
  ∃ field ∈ p.fields, 65536 ≤ field.stop ∨ p.align = 4 ∧ 65532 < field.stop

variable {p : Placement} {name : String} {type : ValueType}

theorem Spilled.place (spilled : p.Spilled) : (p.place (name, type)).Spilled := by
  obtain ⟨field, hmem, hstop⟩ := spilled
  refine ⟨field, Array.mem_push_of_mem _ hmem, hstop.imp_right fun ⟨halign, hstop⟩ => ⟨?_, hstop⟩⟩
  show max p.align type.size = 4
  have := Surroundings.size_le_four type
  omega

/-- A field whose offset fits in 16 bits. -/
theorem Packed.place (packed : p.Packed) (hfits : alignUp p.extent type.size + type.size < 65536) :
    (p.place (name, type)).Packed := by
  have hle := le_alignUp p.extent type
  have hoffset : (UInt16.ofNat (alignUp p.extent type.size)).toNat = alignUp p.extent type.size :=
    UInt16.toNat_ofNat_of_lt' (show alignUp p.extent type.size < 65536 by omega)
  have hstop : Field.stop ⟨name, UInt16.ofNat (alignUp p.extent type.size), type⟩ =
      alignUp p.extent type.size + type.size := by
    rw [Field.stop, hoffset]
  refine ⟨hfits, fun field hmem => ?_, .inr ⟨_, Array.mem_push_self, hstop⟩, ?_⟩
  · obtain hmem | rfl := Array.mem_push.mp hmem
    · have := packed.inside field hmem
      show field.stop ≤ alignUp p.extent type.size + type.size
      omega
    · exact Nat.le_of_eq hstop
  · show (p.fields.push _).toList.Pairwise _
    rw [Array.toList_push, List.pairwise_append]
    refine ⟨packed.apart, List.pairwise_singleton _ _, fun field hmem later hlater => ?_⟩
    obtain rfl := List.mem_singleton.mp hlater
    have := packed.inside field (Array.mem_toList_iff.mp hmem)
    show field.stop ≤ (UInt16.ofNat (alignUp p.extent type.size)).toNat
    omega

/-- A field whose offset does not, or that is followed by one that does not. -/
theorem Packed.place_spilled (packed : p.Packed) (haligned : p.align ≤ 4)
    (hfull : 65536 ≤ alignUp p.extent type.size + type.size) : (p.place (name, type)).Spilled := by
  have hsmall := packed.small
  by_cases hfits : alignUp p.extent type.size < 65536
  · refine ⟨_, Array.mem_push_self, .inl ?_⟩
    rw [Field.stop, UInt16.toNat_ofNat_of_lt' hfits]
    exact hfull
  · -- The last field ends in the last four bytes, which no size that suits the alignment of this one reaches.
    obtain ⟨hwide, hlate⟩ : type.size = 4 ∧ 65532 < p.extent := by
      rw [alignUp] at hfits
      cases type with
      | bool => simp only [ValueType.size] at hfits; omega
      | int | float => simp only [ValueType.size] at hfits; exact ⟨rfl, by omega⟩
    obtain hzero | ⟨field, hmem, hstop⟩ := packed.last
    · omega
    · refine ⟨field, Array.mem_push_of_mem _ hmem, .inr ⟨?_, by omega⟩⟩
      show max p.align type.size = 4
      omega

theorem Spilled.foldl (spilled : p.Spilled) (fields : List (String × ValueType)) :
    (fields.foldl Placement.place p).Spilled := by
  induction fields generalizing p with
  | nil => exact spilled
  | cons field fields ih => exact ih spilled.place

/-- Fields are placed one behind the other, until one of them ends too late. -/
theorem Packed.foldl (packed : p.Packed) (haligned : p.align ≤ 4) (fields : List (String × ValueType)) :
    (fields.foldl Placement.place p).Packed ∨ (fields.foldl Placement.place p).Spilled := by
  induction fields generalizing p with
  | nil => exact .inl packed
  | cons field fields ih =>
    have haligned' : (p.place field).align ≤ 4 := Nat.max_le.mpr ⟨haligned, Surroundings.size_le_four field.2⟩
    by_cases hfits : alignUp p.extent field.2.size + field.2.size < 65536
    · exact ih (packed.place hfits) haligned'
    · exact .inr ((packed.place_spilled haligned (Nat.le_of_not_lt hfits)).foldl fields)

theorem packed_empty : empty.Packed where
  small := by decide
  inside := by simp [empty]
  last := .inl rfl
  apart := by simp [empty]

/-- A field that ends too late does not end within its component. -/
theorem Spilled.lt_stop (spilled : p.Spilled) :
    ∃ field ∈ p.fields, (UInt16.ofNat (alignUp p.extent p.align)).toNat < field.stop := by
  obtain ⟨field, hmem, hstop⟩ := spilled
  refine ⟨field, hmem, ?_⟩
  rw [UInt16.toNat_ofNat']
  obtain hstop | ⟨halign, hstop⟩ := hstop
  · exact Nat.lt_of_lt_of_le (Nat.mod_lt _ (by decide)) hstop
  · rw [alignUp, halign]
    omega

end Placement

/-- Fields that end within the size of the component have no byte in common. -/
theorem apart_ofFields {component : String} {fields : List (String × ValueType)}
    (inside : ∀ field ∈ (ofFields component fields).fields, field.stop ≤ (ofFields component fields).size.toNat)
    {field field' : Field} (h : field ∈ (ofFields component fields).fields)
    (h' : field' ∈ (ofFields component fields).fields) (hne : field ≠ field') : field.Apart field' := by
  obtain packed | spilled := Placement.packed_empty.foldl (by decide) fields
  · have apart : (ofFields component fields).fields.Pairwise Field.Apart := packed.apart.imp Or.inl
    exact apart.forall h h' hne
  · obtain ⟨field, hmem, hlt⟩ := spilled.lt_stop
    exact absurd (inside field (Array.mem_toList_iff.mpr hmem)) (Nat.not_le.mpr hlt)

end ComponentLayout

namespace Catalog

/-- The catalogs that are defined component by component. -/
inductive Built : Catalog → Prop
  | empty : Built .empty
  | define {catalog : Catalog} (built : Built catalog) (name : String) (fields : List (String × ValueType)) :
    Built (catalog.define name fields)

theorem Built.eq_ofFields {catalog : Catalog} (built : catalog.Built) {name : String} {layout : ComponentLayout}
    (h : catalog.get? name = some layout) : ∃ fields, layout = .ofFields name fields := by
  induction built with
  | empty => simp [get?, Catalog.empty] at h
  | @define catalog built defined fields ih =>
    have h : (catalog.types.insert defined (.ofFields defined fields))[name]? = some layout := h
    rw [Std.TreeMap.getElem?_insert] at h
    split_ifs at h with hname
    · obtain rfl := Option.some.inj h
      obtain rfl : defined = name := by simpa using hname
      exact ⟨fields, rfl⟩
    · exact ih h

/-- The fields of a component have no byte in common. -/
theorem Built.apart {catalog : Catalog} (built : catalog.Built) (inRange : catalog.InRange) {name : String}
    {layout : ComponentLayout} (hlayout : catalog.get? name = some layout) {field field' : Field}
    (h : field ∈ layout.fields) (h' : field' ∈ layout.fields) (hne : field ≠ field') : field.Apart field' := by
  have inside := inRange name layout hlayout
  obtain ⟨fields, rfl⟩ := built.eq_ofFields hlayout
  exact ComponentLayout.apart_ofFields inside h h' hne

end Catalog

end BehaviorTree
