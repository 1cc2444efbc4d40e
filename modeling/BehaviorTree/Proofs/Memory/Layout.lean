import BehaviorTree.Proofs.Memory.Apart

/-! How far component layouts are sound. Fields keep their order, and offsets and sizes suit the alignments, however
many fields there are. That fields have no byte in common and end within their component holds as long as the bytes
that they take can be counted in 16 bits: the first field behind 65536 bytes begins where the first field does. -/

namespace BehaviorTree

namespace ComponentLayout

/-- The first byte after the fields, each of them placed at the next offset that suits its size. -/
def extent (fields : List (String × ValueType)) : Nat :=
  fields.foldl (fun stop field => alignUp stop field.2.size + field.2.size) 0

/-- The largest alignment of a field. -/
def alignment (fields : List (String × ValueType)) : Nat :=
  fields.foldl (fun align field => max align field.2.size) 1

/-- The bytes of a component with these fields. -/
def needed (fields : List (String × ValueType)) : Nat :=
  alignUp (extent fields) (alignment fields)

/-- The fields where they are placed, with nothing wrapped yet but their offsets. -/
def placed (fields : List (String × ValueType)) : Placement :=
  fields.foldl Placement.place Placement.empty

/-! ### One field more -/

variable {fields : List (String × ValueType)} {field : String × ValueType}

theorem placed_concat : placed (fields ++ [field]) = (placed fields).place field := by
  simp [placed]

theorem extent_concat : extent (fields ++ [field]) = alignUp (extent fields) field.2.size + field.2.size := by
  simp [extent]

theorem alignment_concat : alignment (fields ++ [field]) = max (alignment fields) field.2.size := by
  simp [alignment]

theorem placed_extent (fields : List (String × ValueType)) : (placed fields).extent = extent fields := by
  induction fields using List.reverseRecOn with
  | nil => rfl
  | append_singleton fields field ih => rw [placed_concat, extent_concat, ← ih]; rfl

theorem placed_align (fields : List (String × ValueType)) : (placed fields).align = alignment fields := by
  induction fields using List.reverseRecOn with
  | nil => rfl
  | append_singleton fields field ih => rw [placed_concat, alignment_concat, ← ih]; rfl

theorem size_ofFields (component : String) (fields : List (String × ValueType)) :
    (ofFields component fields).size = UInt16.ofNat (needed fields) := by
  rw [needed, ← placed_extent, ← placed_align]
  rfl

/-- The field that is placed behind the others. -/
def behind (fields : List (String × ValueType)) (field : String × ValueType) : Field :=
  ⟨field.1, UInt16.ofNat (alignUp (extent fields) field.2.size), field.2⟩

theorem fields_concat :
    (placed (fields ++ [field])).fields.toList = (placed fields).fields.toList ++ [behind fields field] := by
  rw [placed_concat, behind, ← placed_extent]
  exact Array.toList_push

/-! ### What holds of every list of fields -/

theorem names_placed (fields : List (String × ValueType)) :
    (placed fields).fields.toList.map (fun field => (field.name, field.type)) = fields := by
  induction fields using List.reverseRecOn with
  | nil => rfl
  | append_singleton fields field ih => rw [fields_concat, List.map_append, ih]; rfl

/-- Wrapping to 16 bits keeps an offset aligned, since 65536 is a multiple of each alignment. -/
theorem dvd_wrapped {align n : Nat} (halign : align ∣ 65536) (h : align ∣ n) : align ∣ (UInt16.ofNat n).toNat := by
  rw [UInt16.toNat_ofNat']
  exact (Nat.dvd_mod_iff halign).mpr h

theorem size_cases (type : ValueType) : type.size = 1 ∨ type.size = 4 := by
  cases type <;> decide

theorem size_dvd (type : ValueType) : type.size ∣ 65536 := by
  cases type <;> decide

theorem dvd_alignUp (n align : Nat) : align ∣ alignUp n align :=
  Nat.dvd_mul_left ..

theorem aligned {placedField : Field} (h : placedField ∈ (placed fields).fields.toList) :
    placedField.type.size ∣ placedField.offset.toNat := by
  induction fields using List.reverseRecOn with
  | nil => simp [placed, Placement.empty] at h
  | append_singleton fields field ih =>
    rw [fields_concat] at h
    obtain h | h := List.mem_append.mp h
    · exact ih h
    · obtain rfl := List.mem_singleton.mp h
      exact dvd_wrapped (size_dvd field.2) (dvd_alignUp _ _)

theorem alignment_cases (fields : List (String × ValueType)) : alignment fields = 1 ∨ alignment fields = 4 := by
  induction fields using List.reverseRecOn with
  | nil => exact .inl rfl
  | append_singleton fields field ih =>
    have := size_cases field.2
    rw [alignment_concat]
    omega

theorem size_dvd_alignment (h : field ∈ fields) : field.2.size ∣ alignment fields := by
  have hle : field.2.size ≤ alignment fields := by
    induction fields using List.reverseRecOn with
    | nil => simp at h
    | append_singleton fields last ih =>
      rw [alignment_concat]
      obtain h | h := List.mem_append.mp h
      · exact (ih h).trans (Nat.le_max_left _ _)
      · obtain rfl := List.mem_singleton.mp h
        exact Nat.le_max_right _ _
  obtain hsize | hsize := size_cases field.2
  · exact hsize ▸ Nat.one_dvd _
  · obtain halign | halign := alignment_cases fields
    · omega
    · rw [hsize, halign]

/-- No field ends behind the bytes that all of them take: wrapping only moves a field to the front. -/
theorem stop_le_extent {placedField : Field} (h : placedField ∈ (placed fields).fields.toList) :
    placedField.stop ≤ extent fields := by
  induction fields using List.reverseRecOn with
  | nil => simp [placed, Placement.empty] at h
  | append_singleton fields field ih =>
    rw [fields_concat] at h
    rw [extent_concat]
    obtain h | h := List.mem_append.mp h
    · have := ih h
      have := le_alignUp (extent fields) field.2
      omega
    · obtain rfl := List.mem_singleton.mp h
      have hle : (UInt16.ofNat (alignUp (extent fields) field.2.size)).toNat ≤ alignUp (extent fields) field.2.size := by
        rw [UInt16.toNat_ofNat']
        exact Nat.mod_le _ _
      exact Nat.add_le_add_right hle _

/-! ### As long as every offset has 16 bits -/

theorem ordered_of_extent_le (h : extent fields ≤ 65536) :
    (placed fields).fields.toList.Pairwise fun earlier later => earlier.stop ≤ later.offset.toNat := by
  induction fields using List.reverseRecOn with
  | nil => exact .nil
  | append_singleton fields field ih =>
    rw [extent_concat] at h
    have hle := le_alignUp (extent fields) field.2
    have := size_cases field.2
    have hoffset : (behind fields field).offset.toNat = alignUp (extent fields) field.2.size :=
      UInt16.toNat_ofNat_of_lt' (show alignUp (extent fields) field.2.size < 65536 by omega)
    rw [fields_concat, List.pairwise_append]
    refine ⟨ih (by omega), List.pairwise_singleton _ _, fun earlier hearlier later hlater => ?_⟩
    obtain rfl := List.mem_singleton.mp hlater
    have := stop_le_extent hearlier
    omega

/-! ### The first field whose offset has more -/

/-- The first field has no bytes before it. -/
theorem exists_offset_zero (h : fields ≠ []) : ∃ first ∈ (placed fields).fields.toList, first.offset = 0 := by
  induction fields using List.reverseRecOn with
  | nil => exact absurd rfl h
  | append_singleton fields field ih =>
    rw [fields_concat]
    by_cases hfields : fields = []
    · subst hfields
      refine ⟨behind [] field, List.mem_append_right _ (List.mem_singleton_self _), ?_⟩
      obtain hsize | hsize := size_cases field.2 <;> rw [behind, hsize] <;> rfl
    · obtain ⟨first, hmem, hfirst⟩ := ih hfields
      exact ⟨first, List.mem_append_left _ hmem, hfirst⟩

/-- An offset that has more than 16 bits, behind bytes that do not, is 65536. -/
theorem alignUp_eq_of_lt {n : Nat} {type : ValueType} (h : n ≤ 65536) (hlt : 65536 < alignUp n type.size + type.size) :
    alignUp n type.size = 65536 := by
  cases type <;> simp only [alignUp, ValueType.size] at hlt ⊢ <;> omega

/-- Fields that take more than 65536 bytes are not all behind each other: a later one begins at 0 like the first. -/
theorem aliased_of_lt_extent (h : 65536 < extent fields) :
    ∃ first later : Field, [first, later].Sublist (placed fields).fields.toList ∧ first.offset = 0 ∧ later.offset = 0 := by
  induction fields using List.reverseRecOn with
  | nil => exact absurd h (by decide)
  | append_singleton fields field ih =>
    rw [fields_concat]
    rw [extent_concat] at h
    by_cases hwide : 65536 < extent fields
    · obtain ⟨first, later, hsub, hzero⟩ := ih hwide
      exact ⟨first, later, hsub.trans (List.sublist_append_left _ _), hzero⟩
    · have hoffset := alignUp_eq_of_lt (Nat.le_of_not_lt hwide) h
      have hfields : fields ≠ [] := by
        rintro rfl
        have hzero : alignUp (extent []) field.2.size = 0 := by
          obtain hsize | hsize := size_cases field.2 <;> rw [hsize] <;> rfl
        omega
      obtain ⟨first, hmem, hfirst⟩ := exists_offset_zero hfields
      refine ⟨first, behind fields field, (List.singleton_sublist.mpr hmem).append (.refl _), hfirst, ?_⟩
      rw [behind, hoffset]
      rfl

/-- Two fields at offset 0 have their first byte in common. -/
theorem not_apart_of_offset_zero {first later : Field} (hfirst : first.offset = 0) (hlater : later.offset = 0) :
    ¬first.Apart later := by
  have := size_cases first.type
  have := size_cases later.type
  simp only [Field.Apart, Field.stop, hfirst, hlater, UInt16.toNat_zero]
  omega

/-! ### Where the fields lie -/

/-- Every field lies behind the ones before it just if the last one ends within 65536 bytes. -/
theorem ordered_iff (component : String) (fields : List (String × ValueType)) :
    (ofFields component fields).fields.Pairwise (fun earlier later => earlier.stop ≤ later.offset.toNat) ↔
      extent fields ≤ 65536 := by
  refine ⟨fun ordered => Nat.le_of_not_lt fun hlt => ?_, ordered_of_extent_le⟩
  obtain ⟨first, later, hsub, hfirst, hlater⟩ := aliased_of_lt_extent hlt
  exact not_apart_of_offset_zero hfirst hlater (.inl (List.pairwise_iff_forall_sublist.mp ordered hsub))

/-- The fields have no byte in common under the same condition. -/
theorem apart_iff (component : String) (fields : List (String × ValueType)) :
    (ofFields component fields).fields.Pairwise Field.Apart ↔ extent fields ≤ 65536 := by
  refine ⟨fun apart => Nat.le_of_not_lt fun hlt => ?_, fun h => (ordered_of_extent_le h).imp Or.inl⟩
  obtain ⟨first, later, hsub, hfirst, hlater⟩ := aliased_of_lt_extent hlt
  exact not_apart_of_offset_zero hfirst hlater (List.pairwise_iff_forall_sublist.mp apart hsub)

/-- A component has room for its fields. -/
theorem extent_le_needed (fields : List (String × ValueType)) : extent fields ≤ needed fields := by
  obtain halign | halign := alignment_cases fields <;> rw [needed, halign, alignUp] <;> omega

/-- Fields that fit in 16 bits need more only by the padding at the end. -/
theorem needed_eq_of_extent_lt (h : extent fields < 65536) (hlarge : 65536 ≤ needed fields) :
    needed fields = 65536 ∧ 0 < extent fields := by
  obtain halign | halign := alignment_cases fields <;> rw [needed, halign, alignUp] at hlarge ⊢ <;> omega

/-- The fields end within the component just if its bytes can be counted in 16 bits. -/
theorem inside_iff (component : String) (fields : List (String × ValueType)) :
    (∀ field ∈ (ofFields component fields).fields, field.stop ≤ (ofFields component fields).size.toNat) ↔
      needed fields ≤ 65535 := by
  refine ⟨fun inside => Nat.le_of_lt_succ (Nat.lt_of_not_le fun hlarge => ?_), fun h field hmem => ?_⟩
  · obtain packed | spilled : (placed fields).Packed ∨ (placed fields).Spilled :=
      Placement.packed_empty.foldl (by decide) fields
    · -- The size of the component wraps to 0, and the last field ends behind that.
      obtain ⟨hneeded, hpos⟩ := needed_eq_of_extent_lt (placed_extent fields ▸ packed.small) hlarge
      have hzero : (ofFields component fields).size = 0 := by
        rw [size_ofFields, hneeded]
        rfl
      obtain hempty | ⟨last, hmem, hstop⟩ := packed.last
      · rw [placed_extent] at hempty
        omega
      · have hinside := inside last (Array.mem_toList_iff.mpr hmem)
        rw [hstop, placed_extent, hzero, UInt16.toNat_zero] at hinside
        omega
    · obtain ⟨field, hmem, hlt⟩ := spilled.lt_stop
      exact absurd (inside field (Array.mem_toList_iff.mpr hmem)) (Nat.not_le.mpr hlt)
  · rw [size_ofFields, UInt16.toNat_ofNat_of_lt' (show needed fields < 65536 by omega)]
    exact (stop_le_extent hmem).trans (extent_le_needed fields)

/-- The layout of a component. Its fields are the declared ones in their order, every offset is a multiple of the
size of its field and the size of the component a multiple of all of them. The fields lie behind each other, and
have no byte in common, as long as they end within 65536 bytes; and they end within the component as long as it needs
at most 65535. -/
theorem ofFields_sound (component : String) (fields : List (String × ValueType)) :
    (ofFields component fields).fields.map (fun field => (field.name, field.type)) = fields ∧
      (∀ field ∈ (ofFields component fields).fields,
        field.type.size ∣ field.offset.toNat ∧ field.type.size ∣ (ofFields component fields).size.toNat) ∧
      ((ofFields component fields).fields.Pairwise (fun earlier later => earlier.stop ≤ later.offset.toNat) ↔
        extent fields ≤ 65536) ∧
      ((ofFields component fields).fields.Pairwise Field.Apart ↔ extent fields ≤ 65536) ∧
      ((∀ field ∈ (ofFields component fields).fields, field.stop ≤ (ofFields component fields).size.toNat) ↔
        needed fields ≤ 65535) := by
  have hnames := names_placed fields
  refine ⟨hnames, fun field hmem => ⟨aligned hmem, ?_⟩, ordered_iff component fields, apart_iff component fields,
    inside_iff component fields⟩
  have hdeclared : (field.name, field.type) ∈ fields := hnames ▸ List.mem_map_of_mem hmem
  have hdvd : field.type.size ∣ needed fields := (size_dvd_alignment hdeclared).trans (dvd_alignUp _ _)
  rw [size_ofFields]
  exact dvd_wrapped (size_dvd field.type) hdvd

theorem extent_floats (names : List String) : extent (names.map (·, .float)) = 4 * names.length := by
  induction names using List.reverseRecOn with
  | nil => rfl
  | append_singleton names name ih =>
    rw [List.map_append, List.map_singleton, extent_concat, ih, List.length_append, List.length_singleton]
    simp only [alignUp, ValueType.size]
    omega

/-- More than 16384 numbers share bytes. -/
theorem not_apart_floats (component : String) {names : List String} (h : 16384 < names.length) :
    ¬(ofFields component (names.map (·, .float))).fields.Pairwise Field.Apart := by
  rw [apart_iff, extent_floats]
  omega

end ComponentLayout

end BehaviorTree
