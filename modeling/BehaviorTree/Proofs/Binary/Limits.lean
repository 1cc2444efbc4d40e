import BehaviorTree.Proofs.Binary.Canonical

/-! What the binary form cannot hold of a program that validation accepts. Only the children of sequences and
selectors are bounded by validation; fields that a node writes, nodes and names are not. Names that are too long
are refused when the program is written. The count of the fields is cut to 16 bits, so that such a node is written
and another one is read. -/

namespace BehaviorTree

/-! ### A node with more fields than can be counted -/

/-- The node that is read from the record of a node. -/
def Node.stored : Node → Node
  | writeField component fields => writeField component (fields.take (fields.length % 0x10000))
  | node => node

/-- The end of the record of a node, with the fields that its count leaves out. -/
def Node.leftover : Node → Bytes
  | writeField _ fields => (fields.drop (fields.length % 0x10000)).flatMap Binary.encodeWrite
  | _ => []

theorem Node.stored_eq_iff (node : Node) : node.stored = node ↔ node.fieldCount ≤ 65535 := by
  cases node with
  | writeField component fields =>
    simp only [stored, fieldCount, writeField.injEq, true_and, List.take_eq_self_iff]
    omega
  | _ => simp [stored, fieldCount]

/-- Validation bounds what is read of a node. -/
theorem Program.PayloadValid.shortLists_stored {p : Program} {node : Node} (h : p.PayloadValid node) :
    node.stored.ShortLists := by
  have hshort := h.shortLists
  cases node with
  | writeField component fields =>
    rw [Node.stored, Node.ShortLists, List.length_take]
    omega
  | _ => exact hshort (Nat.zero_le _)

namespace Binary

open Bytes Reader

theorem littleEndian_mod (width n : Nat) : littleEndian width (n % Nat.pow 256 width) = littleEndian width n := by
  induction width generalizing n with
  | zero => rfl
  | succ width ih =>
    have hpow : Nat.pow 256 (width + 1) = 256 * Nat.pow 256 width := Nat.mul_comm _ _
    rw [hpow, littleEndian, littleEndian, Nat.mod_mul_right_mod, Nat.mod_mul_right_div_self, ih]

theorem shortCount_mod (count : Nat) : shortCount (count % 0x10000) = shortCount count :=
  littleEndian_mod 2 count

theorem dvd_length_writes (fields : List FieldWrite) : 8 ∣ (fields.flatMap encodeWrite).length :=
  (Reads.many encodeWrite fields fun field _ => reads_write field).whole

/-- The record of a node is the record of what is read, and the fields that are left out. -/
theorem encodeNode_eq_append (node : Node) : encodeNode node = encodeNode node.stored ++ node.leftover := by
  cases node with
  | writeField component fields =>
    have hcount : (fields.take (fields.length % 0x10000)).length = fields.length % 0x10000 := by
      rw [List.length_take]
      exact Nat.min_eq_left (Nat.mod_le _ _)
    -- The payload of such a node is whole, so that the padding of the record adds nothing.
    have hwhole (fields : List FieldWrite) : encodeNode (.writeField component fields) =
        pad ([NodeKind.writeField.tag, 0] ++ word16 component ++ shortCount fields.length) ++
          fields.flatMap encodeWrite := by
      have hpadding : padding (encodePayload NodeKind.writeField.tag (.writeField component fields)).length = 0 := by
        have hhead := dvd_length_pad ([NodeKind.writeField.tag, 0] ++ word16 component ++ shortCount fields.length)
        have hfields := dvd_length_writes fields
        simp only [encodePayload, List.length_append] at hhead ⊢
        unfold padding
        omega
      rw [encodeNode, pad, Node.kind, hpadding, zeros, List.replicate_zero, List.append_nil]
      rfl
    rw [Node.stored, Node.leftover, hwhole, hwhole, hcount, shortCount_mod, List.append_assoc (pad _),
      ← List.flatMap_append, List.take_append_drop]
  | _ => exact (List.append_nil _).symm

end Binary

/-! ### Counts and names -/

namespace Program

/-- Every section of the binary form can count its records. -/
structure CountsFit (p : Program) : Prop where
  constants : p.expressions.constants.length < 0x100000000
  operations : p.expressions.operations.size < 0x100000000
  entries : p.entries.size < 0x100000000
  paths : ∀ entry ∈ p.entries, entry.path.length < 0x100000000
  types : p.types.size < 0x100000000
  lookups : p.lookups.size < 0x100000000

/-- The length of every name fits into its 16 bits. -/
structure NamesFit (p : Program) : Prop where
  types : ∀ type ∈ p.types, type.name.utf8ByteSize ≤ 65535
  lookups : ∀ lookup ∈ p.lookups, ∀ type ∈ lookup, type.name.utf8ByteSize ≤ 65535

theorem encodable_iff {p : Program} :
    p.Encodable ↔ p.CountsFit ∧ p.NamesFit ∧ ∀ entry ∈ p.entries, entry.node.fieldCount ≤ 65535 := by
  constructor
  · intro fits
    exact ⟨⟨fits.constants, fits.operations, fits.entries, fits.paths, fits.types, fits.lookups⟩,
      ⟨fits.typeNames, fits.lookupNames⟩, fits.fields⟩
  · rintro ⟨counts, names, fields⟩
    exact ⟨counts.constants, counts.operations, counts.entries, fields, counts.paths, counts.types, names.types,
      counts.lookups, names.lookups⟩

end Program

namespace Binary

/-- The writer returns only if the counts and the names fit, and is refused for what does not fit. -/
structure Writes {α : Type} (counts names : Prop) (x : Except Fault α) : Prop where
  ok : ∀ a, x = .ok a → counts ∧ names
  error : ∀ e, x = .error e → e = .sectionTooLarge ∧ ¬counts ∨ e = .typeNameTooLong ∧ ¬names

namespace Writes

variable {α β : Type} {counts names counts' names' : Prop}

theorem pure (a : α) : Writes True True (Pure.pure a : Except Fault α) where
  ok _ _ := ⟨trivial, trivial⟩
  error _ h := nomatch h

theorem bind {x : Except Fault α} {f : α → Except Fault β} (hx : Writes counts names x)
    (hf : ∀ a, Writes counts' names' (f a)) : Writes (counts ∧ counts') (names ∧ names') (x >>= f) where
  ok b h := by
    obtain ⟨a, ha, hb⟩ := Refusal.bind_eq_ok_iff.mp h
    exact ⟨⟨(hx.ok a ha).1, ((hf a).ok b hb).1⟩, (hx.ok a ha).2, ((hf a).ok b hb).2⟩
  error e h := by
    obtain h | ⟨a, -, h⟩ := Refusal.bind_eq_error_iff.mp h
    · exact (hx.error e h).imp (And.imp_right (mt And.left)) (And.imp_right (mt And.left))
    · exact ((hf a).error e h).imp (And.imp_right (mt And.right)) (And.imp_right (mt And.right))

theorem congr {x : Except Fault α} (h : Writes counts names x) (hcounts : counts ↔ counts')
    (hnames : names ↔ names') : Writes counts' names' x where
  ok a ha := (h.ok a ha).imp hcounts.mp hnames.mp
  error e he := by
    rw [← hcounts, ← hnames]
    exact h.error e he

theorem map {x : Except Fault α} (h : Writes counts names x) (f : α → β) : Writes counts names (x.map f) where
  ok b hb := by
    obtain ⟨a, ha, -⟩ := Refusal.map_eq_ok_iff.mp hb
    exact h.ok a ha
  error e he := by
    cases x with
    | error e' => exact h.error e (congrArg Except.error (Except.error.inj he))
    | ok a => cases he

theorem all {encode : α → Except Fault Bytes} {counts names : α → Prop} (items : List α)
    (h : ∀ a ∈ items, Writes (counts a) (names a) (encode a)) :
    Writes (∀ a ∈ items, counts a) (∀ a ∈ items, names a) (encodeAll encode items) := by
  refine Writes.map ?_ List.flatten
  induction items with
  | nil => exact (Writes.pure []).congr (by simp) (by simp)
  | cons a items ih =>
    rw [List.mapM_cons]
    refine ((h a List.mem_cons_self).bind fun _ => (ih fun b hb => h b (List.mem_cons_of_mem _ hb)).bind fun _ =>
      Writes.pure _).congr ?_ ?_
    · rw [and_true, List.forall_mem_cons]
    · rw [and_true, List.forall_mem_cons]

end Writes

theorem encodeCount_writes (count : Nat) : Writes (count < 0x100000000) True (encodeCount count) := by
  unfold encodeCount
  split_ifs with h
  · exact (Writes.pure _).congr (by simpa using h) Iff.rfl
  · refine ⟨fun bytes hbytes => ?_, fun e he => .inl ⟨(Except.error.inj he).symm, h⟩⟩
    cases hbytes

theorem encodeHead_writes (count : Nat) : Writes (count < 0x100000000) True (encodeHead count) :=
  (encodeCount_writes count).map _

theorem encodeExpressions_writes (exprs : Expressions) :
    Writes (exprs.constants.length < 0x100000000 ∧ exprs.operations.size < 0x100000000) True
      (encodeExpressions exprs) :=
  ((encodeCount_writes _).bind fun _ => (encodeCount_writes _).bind fun _ => Writes.pure _).congr
    (by rw [and_true]) (by simp)

theorem encodePath_writes (path : List InstanceId) : Writes (path.length < 0x100000000) True (encodePath path) :=
  (encodeHead_writes path.length).map _

theorem encodeType_writes (type : ComponentType) : Writes True (type.name.utf8ByteSize ≤ 65535) (encodeType type) := by
  rw [encodeType, Bytes.length_ofText]
  split_ifs with h
  · exact (Writes.pure _).congr Iff.rfl (by simpa using Nat.le_of_lt_succ h)
  · refine ⟨fun bytes hbytes => ?_, fun e he => .inr ⟨(Except.error.inj he).symm, by omega⟩⟩
    cases hbytes

theorem encodeLookup_writes (lookup : Option ComponentType) :
    Writes True (∀ type ∈ lookup, type.name.utf8ByteSize ≤ 65535) (encodeLookup lookup) := by
  cases lookup with
  | none => exact (Writes.pure _).congr Iff.rfl (by simp)
  | some type => exact ((encodeType_writes type).map _).congr Iff.rfl (by simp)

end Binary

namespace Program

open Binary

variable {p : Program}

/-- A program is written if and only if its counts and its names fit. -/
theorem encode_writes (p : Program) : Writes p.CountsFit p.NamesFit p.encode := by
  have hcounts : (p.expressions.constants.length < 0x100000000 ∧ p.expressions.operations.size < 0x100000000) ∧
      p.entries.toList.length < 0x100000000 ∧ (∀ entry ∈ p.entries.toList, entry.path.length < 0x100000000) ∧
      p.types.size < 0x100000000 ∧ (∀ type ∈ p.types.toList, True) ∧ p.lookups.size < 0x100000000 ∧
      (∀ lookup ∈ p.lookups.toList, True) ∧ True ↔ p.CountsFit := by
    simp only [Array.length_toList, Array.mem_toList_iff, implies_true, and_true, true_and]
    exact ⟨fun ⟨⟨hc, ho⟩, he, hp, ht, hl⟩ => ⟨hc, ho, he, hp, ht, hl⟩,
      fun h => ⟨⟨h.constants, h.operations⟩, h.entries, h.paths, h.types, h.lookups⟩⟩
  have hnames : True ∧ True ∧ (∀ entry ∈ p.entries.toList, True) ∧ True ∧
      (∀ type ∈ p.types.toList, type.name.utf8ByteSize ≤ 65535) ∧ True ∧
      (∀ lookup ∈ p.lookups.toList, ∀ type ∈ lookup, type.name.utf8ByteSize ≤ 65535) ∧ True ↔ p.NamesFit := by
    simp only [Array.mem_toList_iff, implies_true, and_true, true_and]
    exact ⟨fun ⟨ht, hl⟩ => ⟨ht, hl⟩, fun h => ⟨h.types, h.lookups⟩⟩
  refine Writes.congr ?_ hcounts hnames
  refine (encodeExpressions_writes p.expressions).bind fun _ => ?_
  refine (encodeHead_writes p.entries.toList.length).bind fun _ => ?_
  refine (Writes.all p.entries.toList fun entry _ => encodePath_writes entry.path).bind fun _ => ?_
  refine (encodeHead_writes p.types.size).bind fun _ => ?_
  refine (Writes.all p.types.toList fun type _ => encodeType_writes type).bind fun _ => ?_
  refine (encodeHead_writes p.lookups.size).bind fun _ => ?_
  exact (Writes.all p.lookups.toList fun lookup _ => encodeLookup_writes lookup).bind fun _ => Writes.pure _

/-- What is written for a valid program is read as this program unless a count of fields was cut. -/
theorem decode_eq_iff_of_encode (valid : p.validate = .ok ()) {bytes : Bytes} (h : p.encode = .ok bytes) :
    decode bytes = .ok p ↔ ∀ entry ∈ p.entries, entry.node.fieldCount ≤ 65535 := by
  constructor
  · exact fun hdecode => (length_of_decode hdecode).2.fields
  · intro hfields
    obtain ⟨counts, names⟩ := p.encode_writes.ok bytes h
    obtain ⟨sections, hencode, hreads⟩ :=
      encode_sections p (validate_eq_ok_iff.mp valid) (encodable_iff.mpr ⟨counts, names, hfields⟩)
    obtain rfl := Except.ok.inj (h.symm.trans hencode)
    exact decode_of_reads valid hreads

end Program

/-! ### What validation does not bound -/

/-- The node with its fields written `copies` times. -/
def Node.copied (copies : Nat) : Node → Node
  | writeField component fields => writeField component (List.replicate copies fields).flatten
  | node => node

def ComponentType.renamed (rename : String → String) (type : ComponentType) : ComponentType :=
  { type with name := rename type.name }

theorem Node.children_copied (copies : Nat) (node : Node) : (node.copied copies).children = node.children := by
  cases node <;> rfl

theorem Node.kind_copied (copies : Nat) (node : Node) : (node.copied copies).kind = node.kind := by
  cases node <;> rfl

theorem Node.fieldCount_copied (copies : Nat) (node : Node) :
    (node.copied copies).fieldCount = copies * node.fieldCount := by
  cases node <;> simp [copied, fieldCount]

theorem Node.mem_values_of_copied {copies : Nat} {node : Node} {value : ValueRef}
    (h : value ∈ (node.copied copies).values) : value ∈ node.values := by
  cases node with
  | writeField component fields =>
    obtain ⟨field, hfield, rfl⟩ := List.mem_map.mp h
    obtain ⟨copy, hcopy, hmem⟩ := List.mem_flatten.mp hfield
    exact List.mem_map_of_mem (List.eq_of_mem_replicate hcopy ▸ hmem)
  | _ => exact h

namespace Program

open Binary

/-- The program with the fields of every node written `copies` times, with `spare` more nodes and with other names. -/
def swollen (p : Program) (copies spare : Nat) (rename : String → String) : Program where
  expressions := p.expressions
  entries := p.entries.map (fun entry => { entry with node := entry.node.copied copies }) ++
    Array.replicate spare (.ofNode .nop)
  types := p.types.map (·.renamed rename)
  lookups := p.lookups.map (·.map (·.renamed rename))
  blackboardSize := p.blackboardSize

section

variable {p : Program} {copies spare : Nat} {rename : String → String}

theorem size_le_swollen : p.size ≤ (p.swollen copies spare rename).size := by
  simp [size, swollen]

theorem node?_swollen {id : NodeId} {node : Node} (h : p.node? id = some node) :
    (p.swollen copies spare rename).node? id = some (node.copied copies) := by
  obtain ⟨entry, hentry, rfl⟩ := Option.map_eq_some_iff.mp h
  obtain ⟨hlt, -⟩ := Array.getElem?_eq_some_iff.mp hentry
  rw [node?, swollen, Array.getElem?_append_left (by simpa using hlt), Array.getElem?_map, hentry]
  rfl

theorem NodeValid.swollen {node : Node} (h : p.NodeValid node) :
    (p.swollen copies spare rename).NodeValid (node.copied copies) where
  children child hchild := by
    rw [Node.children_copied] at hchild
    exact Nat.lt_of_lt_of_le (h.children child hchild) size_le_swollen
  values value hvalue := h.values value (Node.mem_values_of_copied hvalue)
  payload := by
    have hpayload := h.payload
    cases node with
    | writeField component fields =>
      obtain ⟨type, htype, hfields⟩ := hpayload
      refine ⟨type.renamed rename, ?_, fun field hfield => ?_⟩
      · rw [Program.swollen, Array.getElem?_map, htype]
        rfl
      · obtain ⟨copy, hcopy, hmem⟩ := List.mem_flatten.mp hfield
        exact hfields field (List.eq_of_mem_replicate hcopy ▸ hmem)
    | parallel main thread =>
      obtain ⟨node, hnode, hkind⟩ := Option.map_eq_some_iff.mp hpayload
      show ((p.swollen copies spare rename).node? thread).map Node.kind = some .threadRoot
      rw [node?_swollen hnode, Option.map_some, Node.kind_copied, hkind]
    | wait goal => cases goal <;> exact hpayload
    | _ => exact hpayload

theorem OperationValid.swollen {index : Nat} {operation : Operation} (h : p.OperationValid index operation) :
    (p.swollen copies spare rename).OperationValid index operation where
  operands := h.operands
  kind := by
    have hkind := h.kind
    cases operation with
    | readField component offset type =>
      obtain ⟨layout, hlayout, hfield⟩ := hkind
      refine ⟨layout.renamed rename, ?_, hfield⟩
      rw [Program.swollen, Array.getElem?_map, hlayout]
      rfl
    | lookupField lookup offset type =>
      obtain ⟨layout, hlayout, hfield⟩ := hkind
      refine ⟨layout.renamed rename, ?_, hfield⟩
      rw [Program.swollen, Array.getElem?_map, hlayout]
      rfl
    | _ => exact hkind

/-- Validation bounds neither the fields that a node writes nor the nodes nor the names. -/
theorem Valid.swollen (valid : p.Valid) : (p.swollen copies spare rename).Valid where
  nop := node?_swollen valid.nop
  root := valid.root.imp fun _ hroot => node?_swollen hroot
  nodes entry hentry := by
    obtain hold | hnew := Array.mem_append.mp hentry
    · obtain ⟨before, hbefore, rfl⟩ := Array.mem_map.mp hold
      exact (valid.nodes before hbefore).swollen
    · obtain ⟨-, rfl⟩ := Array.mem_replicate.mp hnew
      exact ⟨nofun, nofun, trivial⟩
  operations index operation h := (valid.operations index operation h).swollen

end

variable {p : Program}

/-- Validation bounds the children of sequences and selectors and, of what the binary form cannot hold, nothing
else: a program stays valid with more fields, more nodes and other names. The record of a node is read as this node
unless it has more than 65535 fields; then it is read with `n % 65536` of its `n` fields, and the others are left
over. A program with a name of more than 65535 bytes is refused when it is written. Otherwise it is written, unless a
section is too large, and it is recovered unless one of its nodes has more than 65535 fields. -/
theorem limits_of_validate (accepted : p.validate = .ok ()) :
    (∀ entry ∈ p.entries, (∀ children, entry.node = .sequence children → children.size ≤ 65535) ∧
      ∀ branches, entry.node = .selector branches → branches.length ≤ 65535) ∧
    (∀ copies spare rename, (p.swollen copies spare rename).validate = .ok ()) ∧
    (∀ entry ∈ p.entries, (entry.node.stored = entry.node ↔ entry.node.fieldCount ≤ 65535) ∧
      ∀ rest k, 8 ∣ k → decodeNode ⟨encodeNode entry.node ++ rest, k⟩ =
        .ok (entry.node.stored, ⟨entry.node.leftover ++ rest, k + (encodeNode entry.node.stored).length⟩)) ∧
    (∀ e, p.encode = .error e → e = .sectionTooLarge ∧ ¬p.CountsFit ∨ e = .typeNameTooLong ∧ ¬p.NamesFit) ∧
    ∀ bytes, p.encode = .ok bytes → p.CountsFit ∧ p.NamesFit ∧
      (decode bytes = .ok p ↔ ∀ entry ∈ p.entries, entry.node.fieldCount ≤ 65535) := by
  have valid := validate_eq_ok_iff.mp accepted
  refine ⟨fun entry hentry => ?_, fun copies spare rename => validate_eq_ok_iff.mpr valid.swollen,
    fun entry hentry => ⟨entry.node.stored_eq_iff, fun rest k hk => ?_⟩, p.encode_writes.error, fun bytes h => ?_⟩
  · have hpayload := (valid.nodes entry hentry).payload
    constructor
    · intro children hnode
      rw [hnode] at hpayload
      exact hpayload
    · intro branches hnode
      rw [hnode] at hpayload
      exact hpayload.1
  · have hread := reads_node entry.node.stored (valid.nodes entry hentry).payload.shortLists_stored
    rw [encodeNode_eq_append, List.append_assoc]
    exact hread.run _ k hk
  · obtain ⟨counts, names⟩ := p.encode_writes.ok bytes h
    exact ⟨counts, names, decode_eq_iff_of_encode accepted h⟩

def stamp : Node :=
  .writeField 0 [⟨0, 4, .constant 0 4⟩]

/-- A node that writes one field. -/
def stamper : Program where
  expressions := ⟨[0, 0, 0, 0], #[]⟩
  entries := #[.ofNode .nop, .ofNode (.root ⟨2⟩), .ofNode stamp]
  types := #[⟨"T", 0, 4⟩]
  lookups := #[]
  blackboardSize := 0

theorem stamper_accepted : stamper.validate = .ok () := rfl

/-- A node that writes one field 65536 times is accepted and written, and it is not recovered. -/
theorem limits_of_validate_stamper : (stamper.swollen 65536 0 id).validate = .ok () ∧
    ∃ bytes, (stamper.swollen 65536 0 id).encode = .ok bytes ∧ decode bytes ≠ .ok (stamper.swollen 65536 0 id) := by
  have accepted : (stamper.swollen 65536 0 id).validate = .ok () :=
    validate_eq_ok_iff.mpr (validate_eq_ok_iff.mp stamper_accepted).swollen
  have counts : (stamper.swollen 65536 0 id).CountsFit := by
    constructor <;> simp [swollen, stamper, Entry.ofNode]
  have hname : (ComponentType.renamed id ⟨"T", 0, 4⟩).name.utf8ByteSize ≤ 65535 := by decide
  have names : (stamper.swollen 65536 0 id).NamesFit :=
    ⟨by simpa [swollen, stamper] using hname, by simp [swollen, stamper]⟩
  obtain ⟨-, -, -, herror, hok⟩ := limits_of_validate accepted
  cases h : (stamper.swollen 65536 0 id).encode with
  | error e => exact ((herror e h).elim (·.2 counts) (·.2 names)).elim
  | ok bytes =>
    refine ⟨accepted, bytes, rfl, fun hdecode => ?_⟩
    have hstamp : .ofNode stamp ∈ stamper.entries := by simp [stamper]
    have hfields : (stamp.copied 65536).fieldCount ≤ 65535 := (hok bytes h).2.2.mp hdecode
      _ (Array.mem_append.mpr (.inl (Array.mem_map.mpr ⟨_, hstamp, rfl⟩)))
    rw [Node.fieldCount_copied] at hfields
    exact absurd hfields (by decide)

end Program

end BehaviorTree
