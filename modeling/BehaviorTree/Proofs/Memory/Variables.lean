import BehaviorTree.Proofs.Binary.Reading
import BehaviorTree.Proofs.Machine.Isolation
import BehaviorTree.Proofs.Memory.Apart

/-! Variables as cells of their own. A declaration either finds the slot that the name has or takes bytes that no
slot has had before, so that no two slots ever share a byte, not even one that its name has given up. On a blackboard of
the layout a variable is what was stored in its slot last, whatever has been stored in the others. -/

namespace BehaviorTree

open Refusal

/-! ### Scalars in memory -/

/-- A scalar is read back from its bytes. -/
theorem Constant.ofBytes_bytes (value : Constant) : ofBytes value.type value.bytes = value := by
  cases value with
  | bool value => cases value <;> rfl
  | int value =>
    have hfits := UInt32.toNat_lt value.toUInt32
    have hvalue := Bytes.value_littleEndian 4 value.toUInt32.toNat hfits
    simp [bytes, type, ofBytes, hvalue]
  | float bits =>
    have hfits := UInt32.toNat_lt bits
    have hvalue := Bytes.value_littleEndian 4 bits.toNat hfits
    simp [bytes, type, ofBytes, hvalue]

/-- Zero is all zeros. -/
theorem Constant.bytes_zero (type : ValueType) : (zero type).bytes = Bytes.zeros type.size := by
  cases type <;> rfl

@[simp] theorem Constant.type_zero (type : ValueType) : (zero type).type = type := by
  cases type <;> rfl

namespace Memory

/-- What was written is there. -/
theorem slice_of_overwrite {m m' : Memory} {offset : Nat} {new : Bytes} (h : m.overwrite offset new = .ok m') :
    m'.slice offset new.length = .ok new := by
  have hsize := (Spared.of_overwrite h).size
  have hbytes := overwrite_toBytes m offset new
  rw [h, Bytes.overwrite, length_toBytes] at hbytes
  obtain ⟨hle, hbytes⟩ := ite_eq_ok_iff.mp hbytes
  have hbefore : ((toBytes m).take offset).length = offset := by
    rw [List.length_take, length_toBytes]
    omega
  rw [← slice_toBytes, Bytes.slice, length_toBytes, hsize, if_pos hle, ← hbytes, List.append_assoc,
    List.drop_left' hbefore, List.take_left' rfl]

/-- Blank memory reads as zeros. -/
theorem slice_zeros {size offset length : Nat} (h : offset + length ≤ size) :
    (zeros size).slice offset length = .ok (Bytes.zeros length) := by
  rw [← slice_toBytes, toBytes_zeros, Bytes.slice, Bytes.length_zeros, if_pos h, Bytes.zeros, Bytes.zeros,
    List.drop_replicate, List.take_replicate, Nat.min_eq_left (by omega)]

end Memory

/-! ### Slots -/

namespace VarSlot

/-- The first byte after a slot. -/
def stop (slot : VarSlot) : Nat :=
  slot.offset.toNat + slot.length

/-- The slots have no byte in common. -/
def Apart (slot slot' : VarSlot) : Prop :=
  slot.stop ≤ slot'.offset.toNat ∨ slot'.stop ≤ slot.offset.toNat

theorem Apart.symm {slot slot' : VarSlot} (h : slot.Apart slot') : slot'.Apart slot :=
  Or.symm h

/-- The bytes of a scalar stand in the slot. -/
def Holds (slot : VarSlot) (value : Constant) (board : Memory) : Prop :=
  board.slice slot.offset.toNat slot.length = .ok value.bytes

variable {slot other : VarSlot} {value : Constant} {board : Memory}

theorem length_bytes (h : value.type = slot.type) : value.bytes.length = slot.length := by
  rw [Constant.length_bytes, h, length]

/-- A variable that holds a scalar of its type reads as that scalar. -/
theorem Holds.readAs (h : slot.Holds value board) (htype : value.type = slot.type) :
    slot.readAs slot.type board = .ok value := by
  have hsuits : slot.Suits slot.type := .inr rfl
  rw [VarSlot.readAs, if_pos hsuits, show slot.type.size = slot.length from rfl, h, Except.map, ← htype,
    Constant.ofBytes_bytes]

/-- Storing a scalar in a slot that lies in memory. The slots beside it keep what they hold. -/
theorem write_holds (htype : value.type = slot.type) (hinside : slot.stop ≤ board.size) :
    ∃ board', slot.write value board = .ok board' ∧ board'.size = board.size ∧ slot.Holds value board' ∧
      ∀ other old, slot.Apart other → other.Holds old board → other.Holds old board' := by
  have hsuits : slot.Suits value.type := .inr (congrArg ValueType.size htype)
  have hlength := length_bytes htype
  have hfits : slot.offset.toNat + value.bytes.length ≤ board.size := by
    rw [hlength]
    exact hinside
  obtain ⟨board', hwrite, hsize⟩ := Memory.overwrite_of_le hfits
  refine ⟨board', by rw [write, if_pos hsuits, hwrite], hsize, ?_, fun other old apart hold => ?_⟩
  · rw [Holds, ← hlength]
    exact Memory.slice_of_overwrite hwrite
  · have spared := Memory.Spared.of_overwrite hwrite
    rw [hlength] at spared
    have hfree (k : Nat) (hk : Memory.Within other.offset.toNat other.length k) :
        ¬Memory.Within slot.offset.toNat slot.length k := by
      rintro ⟨hfrom, hto⟩
      obtain ⟨hfrom', hto'⟩ := hk
      simp only [Apart, stop] at apart
      omega
    rw [Holds, spared.slice_eq hfree]
    exact hold

/-! ### Stores -/

/-- Stores scalars in slots, one after the other. -/
def storeAll (stores : List (VarSlot × Constant)) (board : Memory) : Except Fault Memory :=
  stores.foldlM (fun board store => store.1.write store.2 board) board

/-- What was stored in the slot last, and zero if nothing was. -/
def lastStored (slot : VarSlot) (stores : List (VarSlot × Constant)) : Constant :=
  ((stores.reverse.find? (·.1 = slot)).map (·.2)).getD (.zero slot.type)

@[simp] theorem lastStored_nil (slot : VarSlot) : slot.lastStored [] = .zero slot.type := rfl

theorem lastStored_concat (slot : VarSlot) (stores : List (VarSlot × Constant)) (store : VarSlot × Constant) :
    slot.lastStored (stores ++ [store]) = if store.1 = slot then store.2 else slot.lastStored stores := by
  rw [lastStored, List.reverse_concat, List.find?_cons]
  by_cases h : store.1 = slot <;> simp [h, lastStored]

/-- Every store has the type of its slot. -/
def WellTyped (slots : List VarSlot) (stores : List (VarSlot × Constant)) : Prop :=
  ∀ store ∈ stores, store.1 ∈ slots ∧ store.2.type = store.1.type

theorem type_lastStored {slots : List VarSlot} {stores : List (VarSlot × Constant)} (typed : WellTyped slots stores)
    (slot : VarSlot) : (slot.lastStored stores).type = slot.type := by
  induction stores using List.reverseRecOn with
  | nil => exact Constant.type_zero slot.type
  | append_singleton stores store ih =>
    rw [lastStored_concat]
    split_ifs with hslot
    · rw [← hslot]
      exact (typed store (by simp)).2
    · exact ih fun store hstore => typed store (List.mem_append_left _ hstore)

end VarSlot

namespace BlackboardLayout

open VarSlot

/-! ### Declarations -/

variable {layout : BlackboardLayout} {slots : List VarSlot}

/-- The layout after a sequence of declarations, with the slots that they returned. -/
def declareAll (declarations : List (String × ValueType)) : BlackboardLayout × List VarSlot :=
  declarations.foldl (fun (layout, slots) (name, type) =>
    ((layout.declare name type).1, slots ++ [(layout.declare name type).2])) (empty, [])

theorem declareAll_concat (declarations : List (String × ValueType)) (name : String) (type : ValueType) :
    declareAll (declarations ++ [(name, type)]) =
      (((declareAll declarations).1.declare name type).1,
        (declareAll declarations).2 ++ [((declareAll declarations).1.declare name type).2]) := by
  simp [declareAll]

theorem built_declareAll (declarations : List (String × ValueType)) : (declareAll declarations).1.Built := by
  induction declarations using List.reverseRecOn with
  | nil => exact .empty
  | append_singleton declarations declaration ih =>
    rw [declareAll_concat]
    exact ih.declare _ _

/-- A name that has the type keeps its slot. -/
theorem declare_of_get? {name : String} {slot : VarSlot} (h : layout.get? name = some slot) :
    layout.declare name slot.type = (layout, slot) := by
  rw [declare, h]
  simp [Option.filter]

/-- A name that is new or had another type gets the slot behind all others. -/
theorem declare_of_ne {name : String} {type : ValueType}
    (h : ∀ slot, layout.get? name = some slot → slot.type ≠ type) :
    layout.declare name type = (⟨layout.vars.insert name (layout.nextSlot type),
      alignUp layout.size type.size + type.size⟩, layout.nextSlot type) := by
  have hnone : (layout.get? name).filter (·.type = type) = none := by
    cases hget : layout.get? name with
    | none => rfl
    | some slot => simpa [Option.filter] using h slot hget
  rw [declare, hnone]

/-- The two ways of a declaration. -/
theorem declare_split (layout : BlackboardLayout) (name : String) (type : ValueType) :
    (∃ slot, layout.get? name = some slot ∧ slot.type = type) ∨
      ∀ slot, layout.get? name = some slot → slot.type ≠ type := by
  by_cases h : ∃ slot, layout.get? name = some slot ∧ slot.type = type
  · exact .inl h
  · exact .inr fun slot hslot htype => h ⟨slot, hslot, htype⟩

/-- The name has the slot that its declaration returns, of the declared type; all other names keep theirs. -/
theorem get?_declare_eq (layout : BlackboardLayout) (name : String) (type : ValueType) (other : String) :
    (layout.declare name type).2.type = type ∧ (layout.declare name type).1.get? other =
      if other = name then some (layout.declare name type).2 else layout.get? other := by
  obtain ⟨slot, hslot, rfl⟩ | hnew := layout.declare_split name type
  · rw [declare_of_get? hslot]
    refine ⟨rfl, ?_⟩
    split_ifs with hother
    · rw [hother, hslot]
    · rfl
  · rw [declare_of_ne hnew]
    refine ⟨rfl, ?_⟩
    change (layout.vars.insert name (layout.nextSlot type))[other]? = _
    rw [Std.TreeMap.getElem?_insert]
    simp only [Std.LawfulEqCmp.compare_eq_iff_eq, eq_comm (a := name)]
    rfl

/-! ### No two slots share a byte -/

/-- What is known of all slots that declarations have returned, whether or not a name still has them. -/
structure Allotted (layout : BlackboardLayout) (slots : List VarSlot) : Prop where
  current : ∀ name slot, layout.get? name = some slot → slot ∈ slots
  aligned : ∀ slot ∈ slots, slot.length ∣ slot.offset.toNat
  inside : ∀ slot ∈ slots, slot.stop ≤ layout.size
  apart : ∀ slot ∈ slots, ∀ slot' ∈ slots, slot ≠ slot' → slot.Apart slot'

theorem allotted_empty : empty.Allotted [] where
  current _ _ h := by simp [get?, empty] at h
  aligned := by simp
  inside := by simp
  apart := by simp

/-- One declaration more. -/
theorem Allotted.declare (allotted : layout.Allotted slots) (name : String) (type : ValueType)
    (hsize : (layout.declare name type).1.size < 2 ^ 32) :
    (layout.declare name type).1.Allotted (slots ++ [(layout.declare name type).2]) := by
  obtain ⟨slot, hslot, rfl⟩ | hnew := layout.declare_split name type
  · have hold := allotted.current name slot hslot
    have hmem : ∀ s, s ∈ slots ++ [slot] ↔ s ∈ slots := by simp +contextual [hold, or_iff_left_of_imp]
    rw [declare_of_get? hslot]
    refine ⟨fun other s hs => (hmem s).mpr (allotted.current other s hs), ?_, ?_, ?_⟩ <;> simp only [hmem]
    · exact allotted.aligned
    · exact allotted.inside
    · exact allotted.apart
  · have hcurrent := layout.get?_declare_eq name type
    rw [declare_of_ne hnew] at hsize hcurrent ⊢
    have hle := le_alignUp layout.size type
    have hfits : alignUp layout.size type.size + type.size < 2 ^ 32 := hsize
    have hplace : (layout.nextSlot type).offset.toNat = alignUp layout.size type.size :=
      UInt32.toNat_ofNat_of_lt' (show alignUp layout.size type.size < 2 ^ 32 by omega)
    have hstop : (layout.nextSlot type).stop = alignUp layout.size type.size + type.size :=
      congrArg (· + type.size) hplace
    have hbehind (slot : VarSlot) (h : slot ∈ slots) : slot.Apart (layout.nextSlot type) :=
      .inl (hplace ▸ (allotted.inside slot h).trans hle)
    refine ⟨fun other slot hslot => ?_, fun slot h => ?_, fun slot h => ?_, fun slot h slot' h' hne => ?_⟩
    · rw [(hcurrent other).2] at hslot
      split_ifs at hslot
      · obtain rfl := Option.some.inj hslot
        exact List.mem_append_right _ (List.mem_singleton_self _)
      · exact List.mem_append_left _ (allotted.current other slot hslot)
    · obtain h | h := List.mem_append.mp h
      · exact allotted.aligned slot h
      · rw [List.mem_singleton.mp h, hplace]
        exact Nat.dvd_mul_left ..
    · show slot.stop ≤ alignUp layout.size type.size + type.size
      obtain h | h := List.mem_append.mp h
      · have := allotted.inside slot h
        omega
      · rw [List.mem_singleton.mp h, hstop]
    · obtain h | h := List.mem_append.mp h <;> obtain h' | h' := List.mem_append.mp h'
      · exact allotted.apart slot h slot' h' hne
      · rw [List.mem_singleton.mp h']
        exact hbehind slot h
      · rw [List.mem_singleton.mp h]
        exact (hbehind slot' h').symm
      · exact absurd ((List.mem_singleton.mp h).trans (List.mem_singleton.mp h').symm) hne

/-- A declaration takes no bytes back. -/
theorem size_le_declare (layout : BlackboardLayout) (name : String) (type : ValueType) :
    layout.size ≤ (layout.declare name type).1.size := by
  obtain h | h := layout.declare_cases name type
  · rw [h]
  · rw [h]
    exact (le_alignUp layout.size type).trans (Nat.le_add_right _ _)

/-- No two slots share a byte as long as offsets have 32 bits. -/
theorem allotted_declareAll (declarations : List (String × ValueType)) (hsize : (declareAll declarations).1.size < 2 ^ 32) :
    (declareAll declarations).1.Allotted (declareAll declarations).2 := by
  induction declarations using List.reverseRecOn with
  | nil => exact allotted_empty
  | append_singleton declarations declaration ih =>
    obtain ⟨name, type⟩ := declaration
    rw [declareAll_concat] at hsize ⊢
    exact (ih ((size_le_declare _ name type).trans_lt hsize)).declare name type hsize

/-! ### Reading back -/

/-- Stores are independent: every slot holds what was stored in it last. -/
theorem Allotted.stores (allotted : layout.Allotted slots) {stores : List (VarSlot × Constant)}
    (typed : WellTyped slots stores) : ∃ board, storeAll stores layout.blank = .ok board ∧ board.size = layout.size ∧
      ∀ slot ∈ slots, slot.Holds (slot.lastStored stores) board := by
  induction stores using List.reverseRecOn with
  | nil =>
    refine ⟨layout.blank, rfl, ?_, fun slot hslot => ?_⟩
    · rw [← Memory.length_toBytes, blank, Memory.toBytes_zeros, Bytes.length_zeros]
    · rw [lastStored_nil, Holds, Constant.bytes_zero]
      exact Memory.slice_zeros (allotted.inside slot hslot)
  | append_singleton stores store ih =>
    obtain ⟨slot, value⟩ := store
    obtain ⟨board, hstores, hsize, hholds⟩ := ih fun store hstore => typed store (List.mem_append_left _ hstore)
    obtain ⟨hslot, htype⟩ := typed (slot, value) (by simp)
    obtain ⟨board', hwrite, hsize', hnew, hrest⟩ := write_holds htype (hsize ▸ allotted.inside slot hslot)
    refine ⟨board', ?_, hsize'.trans hsize, fun other hother => ?_⟩
    · rw [storeAll, List.foldlM_append]
      exact bind_eq_ok_iff.mpr ⟨board, hstores, bind_eq_ok_iff.mpr ⟨board', hwrite, rfl⟩⟩
    · rw [lastStored_concat]
      split_ifs with hsame
      · exact hsame ▸ hnew
      · exact hrest other _ (allotted.apart slot hslot other hother hsame) (hholds other hother)

/-- Variables are independent cells. Slots are aligned, lie in the blackboard and share no byte, neither those of two
names nor those that a name has had and given up. A declaration gives its name a slot of the type, which is the one that
it has if the type is the same, and moves no other name. Stores through any slots that were returned succeed, and every
variable then reads as what was stored in its slot last. -/
theorem variables_independent {declarations : List (String × ValueType)} {layout : BlackboardLayout}
    {slots : List VarSlot} (h : declareAll declarations = (layout, slots)) (hsize : layout.size < 2 ^ 32) :
    layout.Allotted slots ∧
    (∀ name name' slot slot', name ≠ name' → layout.get? name = some slot → layout.get? name' = some slot' →
      slot.Apart slot') ∧
    (∀ name slot, layout.get? name = some slot → layout.declare name slot.type = (layout, slot)) ∧
    (∀ name type other, (layout.declare name type).2.type = type ∧ (layout.declare name type).1.get? other =
      if other = name then some (layout.declare name type).2 else layout.get? other) ∧
    ∀ stores, WellTyped slots stores → ∃ board, storeAll stores layout.blank = .ok board ∧
      ∀ name slot, layout.get? name = some slot → slot.readAs slot.type board = .ok (slot.lastStored stores) := by
  have allotted := allotted_declareAll declarations (by rwa [h])
  have built := built_declareAll declarations
  rw [h] at allotted built
  refine ⟨allotted, fun name name' slot slot' hne hslot hslot' => built.apart hsize hne hslot hslot',
    fun name slot hslot => declare_of_get? hslot, layout.get?_declare_eq, fun stores typed => ?_⟩
  obtain ⟨board, hstores, -, hholds⟩ := allotted.stores typed
  exact ⟨board, hstores, fun name slot hslot =>
    (hholds slot (allotted.current name slot hslot)).readAs (type_lastStored typed slot)⟩

/-- One name changes its type and another one is declared again. -/
def traded : List (String × ValueType) :=
  [("alert", .bool), ("count", .int), ("count", .float), ("alert", .bool), ("done", .bool)]

/-- The slot that `count` has given up is used as well. -/
def tradedStores : List (VarSlot × Constant) :=
  [(⟨8, .float⟩, .float 0x40200000), (⟨0, .bool⟩, .bool true), (⟨8, .float⟩, .float 0x3f800000), (⟨4, .int⟩, .int (-1))]

theorem variables_independent_traded : (declareAll traded).1.size = 13 ∧
    (declareAll traded).2 = [⟨0, .bool⟩, ⟨4, .int⟩, ⟨8, .float⟩, ⟨0, .bool⟩, ⟨12, .bool⟩] ∧
    WellTyped (declareAll traded).2 tradedStores ∧
    ∃ board, storeAll tradedStores (declareAll traded).1.blank = .ok board ∧
      (⟨0, .bool⟩ : VarSlot).readAs .bool board = .ok (.bool true) ∧
      (⟨8, .float⟩ : VarSlot).readAs .float board = .ok (.float 0x3f800000) ∧
      (⟨12, .bool⟩ : VarSlot).readAs .bool board = .ok (.bool false) := by
  have hsize : (declareAll traded).1.size = 13 := by cbv
  have hslots : (declareAll traded).2 = [⟨0, .bool⟩, ⟨4, .int⟩, ⟨8, .float⟩, ⟨0, .bool⟩, ⟨12, .bool⟩] := by cbv
  have typed : WellTyped (declareAll traded).2 tradedStores := by
    rw [hslots]
    unfold WellTyped
    decide
  have hdeclare : declareAll traded = ((declareAll traded).1, (declareAll traded).2) := rfl
  obtain ⟨-, -, -, -, hstores⟩ := variables_independent hdeclare (by rw [hsize]; decide)
  obtain ⟨board, hboard, hreads⟩ := hstores tradedStores typed
  have halert : (declareAll traded).1.get? "alert" = some ⟨0, .bool⟩ := by cbv
  have hcount : (declareAll traded).1.get? "count" = some ⟨8, .float⟩ := by cbv
  have hdone : (declareAll traded).1.get? "done" = some ⟨12, .bool⟩ := by cbv
  exact ⟨hsize, hslots, typed, board, hboard, hreads _ _ halert, hreads _ _ hcount, hreads _ _ hdone⟩

end BlackboardLayout

end BehaviorTree
