import BehaviorTree.Proofs.Binary.Records
import BehaviorTree.Proofs.Program.Validity

/-! A program is recovered from its binary form. What the form cannot hold are lists and names whose
length does not fit into the field for it; validity bounds the children of sequences and selectors, and
the other bounds are stated here. -/

namespace BehaviorTree

/-- Every length fits into its field of the binary form. Children of a node are counted elsewhere. -/
structure Program.Encodable (p : Program) : Prop where
  constants : p.expressions.constants.length < 0x100000000
  operations : p.expressions.operations.size < 0x100000000
  entries : p.entries.size < 0x100000000
  fields : ∀ entry ∈ p.entries, entry.node.fieldCount ≤ 65535
  paths : ∀ entry ∈ p.entries, entry.path.length < 0x100000000
  types : p.types.size < 0x100000000
  typeNames : ∀ type ∈ p.types, type.name.utf8ByteSize ≤ 65535
  lookups : p.lookups.size < 0x100000000
  lookupNames : ∀ lookup ∈ p.lookups, ∀ type ∈ lookup, type.name.utf8ByteSize ≤ 65535

/-- Validity bounds the children of sequences and selectors. -/
theorem Program.PayloadValid.shortLists {p : Program} {node : Node} (h : p.PayloadValid node)
    (hfields : node.fieldCount ≤ 65535) : node.ShortLists := by
  cases node with
  | sequence children => exact Nat.lt_succ_of_le h
  | selector branches => exact Nat.lt_succ_of_le h.1
  | writeField component fields => exact Nat.lt_succ_of_le hfields
  | _ => trivial

theorem Program.Valid.shortLists {p : Program} (valid : p.Valid) (fits : p.Encodable) (entry : Entry)
    (h : entry ∈ p.entries) : entry.node.ShortLists :=
  (valid.nodes entry h).payload.shortLists (fits.fields entry h)

namespace Binary

open Bytes Reader

theorem encodeExpressions_reads (exprs : Expressions) (hpool : exprs.constants.length < 0x100000000)
    (hcount : exprs.operations.size < 0x100000000) :
    ∃ bytes, encodeExpressions exprs = .ok bytes ∧ Reads 8 decodeExpressions bytes exprs := by
  have hmany := Reads.many encodeOperation exprs.operations.toList fun op _ => reads_operation op
  rw [Array.length_toList] at hmany
  refine ⟨_, by rw [encodeExpressions, encodeCount, encodeCount, if_pos hpool, if_pos hcount]; rfl, ?_, ?_⟩
  · simp only [List.length_append, length_littleEndian]
    exact Nat.dvd_add (Nat.dvd_add (by decide) (dvd_length_pad _)) hmany.whole
  · intro rest k hk
    have htake := take_append exprs.constants
    have hoperations := hmany.run rest (k + 4 + 4 + exprs.constants.length + padding exprs.constants.length)
      (by have := dvd_length_pad exprs.constants; rw [length_pad] at this; omega)
    simp (disch := first | omega | (unfold padding; omega)) [-bind_pure_comp, -List.length_flatMap,
      decodeExpressions, pad, bind_apply, number_littleEndian 4 _ hpool, number_littleEndian 4 _ hcount, htake,
      align_zeros, hoperations]
    omega

/-- The header is read at the beginning of the input. -/
theorem decodeHeader_append (rest : Bytes) :
    decodeHeader ⟨magic ++ word16 versionMajor ++ word16 versionMinor ++ rest, 0⟩ = .ok ((), ⟨rest, 8⟩) := by
  have htake : take 4 ⟨magic ++ (word16 versionMajor ++ (word16 versionMinor ++ rest)), 0⟩ =
      .ok (magic, ⟨word16 versionMajor ++ (word16 versionMinor ++ rest), 4⟩) := take_append magic _ 0
  simp [-bind_pure_comp, decodeHeader, bind_apply, htake]

/-- The three sections for nodes, debug ids and paths are put together again. -/
theorem zip_entries (entries : List Entry) :
    ((entries.map (·.node)).zip ((entries.map (·.debugId)).zip (entries.map (·.path)))).map
      (fun (node, debugId, path) => Entry.mk node debugId path) = entries := by
  induction entries with
  | nil => rfl
  | cons entry entries ih => simpa using ih

theorem encodePaths_reads (entries : List Entry) (h : ∀ entry ∈ entries, entry.path.length < 0x100000000) :
    ∃ bytes, encodeAll (encodePath ·.path) entries = .ok bytes ∧
      Reads 8 (Reader.many entries.length decodePath) bytes (entries.map (·.path)) := by
  have hpaths : ∀ path ∈ entries.map (·.path), ∃ bytes, encodePath path = .ok bytes ∧ Reads 8 decodePath bytes path := by
    intro path hmem
    obtain ⟨entry, hentry, rfl⟩ := List.mem_map.mp hmem
    exact encodePath_reads entry.path (h entry hentry)
  obtain ⟨bytes, hencode, hreads⟩ := encodeAll_reads (entries.map (·.path)) hpaths
  refine ⟨bytes, ?_, by rwa [List.length_map] at hreads⟩
  rw [← hencode, encodeAll, encodeAll, List.mapM_map]
  rfl

/-- Everything after the header is written and read back. -/
theorem encode_sections (p : Program) (valid : p.Valid) (fits : p.Encodable) :
    ∃ sections, p.encode = .ok (magic ++ word16 versionMajor ++ word16 versionMinor ++ sections) ∧
      Reads 8 decodeSections sections p := by
  obtain ⟨exprs, hexprs, hexprsRead⟩ := encodeExpressions_reads p.expressions fits.constants fits.operations
  obtain ⟨paths, hpaths, hpathsRead⟩ := encodePaths_reads p.entries.toList fun entry h =>
    fits.paths entry (Array.mem_toList_iff.mp h)
  obtain ⟨types, htypes, htypesRead⟩ := encodeAll_reads p.types.toList fun type h =>
    encodeType_reads type (fits.typeNames type (Array.mem_toList_iff.mp h))
  obtain ⟨lookups, hlookups, hlookupsRead⟩ := encodeAll_reads p.lookups.toList fun lookup h =>
    encodeLookup_reads lookup (fits.lookupNames lookup (Array.mem_toList_iff.mp h))
  have hnodesRead := Reads.many encodeNode (p.entries.toList.map (·.node)) fun node h => by
    obtain ⟨entry, hentry, rfl⟩ := List.mem_map.mp h
    exact reads_node entry.node (valid.shortLists fits entry (Array.mem_toList_iff.mp hentry))
  have hidsRead := Reads.many encodeDebugId (p.entries.toList.map (·.debugId)) fun id _ => reads_debugId id
  rw [List.length_map, Array.length_toList, List.flatMap_map] at hnodesRead hidsRead
  rw [Array.length_toList] at hpathsRead htypesRead hlookupsRead
  have hread : Reads 8 decodeSections (exprs ++ ((littleEndian 4 p.entries.size ++ word32 0) ++
      (p.entries.toList.flatMap (encodeNode ·.node) ++ (p.entries.toList.flatMap (encodeDebugId ·.debugId) ++
      (paths ++ ((littleEndian 4 p.types.size ++ word32 0) ++ (types ++
      ((littleEndian 4 p.lookups.size ++ word32 0) ++ (lookups ++ pad (word32 p.blackboardSize)))))))))) p := by
    unfold decodeSections
    refine hexprsRead.bind ?_
    refine (reads_head p.entries.size fits.entries).bind ?_
    refine hnodesRead.bind ?_
    refine hidsRead.bind ?_
    refine hpathsRead.bind ?_
    refine (reads_head p.types.size fits.types).bind ?_
    refine htypesRead.bind ?_
    refine (reads_head p.lookups.size fits.lookups).bind ?_
    refine hlookupsRead.bind ⟨dvd_length_pad _, ?_⟩
    intro rest k hk
    simp (disch := (unfold padding; omega)) [-bind_pure_comp, pad, bind_apply, align_zeros, zip_entries]
    omega
  refine ⟨_, ?_, hread⟩
  simp only [Program.encode, hexprs, hpaths, htypes, hlookups, Array.length_toList, encodeHead_of_lt _ fits.entries,
    encodeHead_of_lt _ fits.types, encodeHead_of_lt _ fits.lookups, List.append_assoc]
  rfl

end Binary

/-- What is read from its binary form has been validated. -/
theorem Program.validate_of_decode {p : Program} {bytes : Bytes} (h : decode bytes = .ok p) : p.validate = .ok () := by
  obtain ⟨⟨program, cursor⟩, -, hchecked⟩ := Refusal.bind_eq_ok_iff.mp h
  dsimp only at hchecked
  split at hchecked
  next hvalid =>
    obtain rfl := Except.ok.inj hchecked
    exact hvalid
  next => cases hchecked

/-- A program that validation accepts is read from its sections behind a header. -/
theorem Program.decode_of_reads {p : Program} {sections : Bytes} (valid : p.validate = .ok ())
    (hreads : Binary.Reader.Reads 8 Binary.decodeSections sections p) :
    decode (Binary.magic ++ Binary.word16 Binary.versionMajor ++ Binary.word16 Binary.versionMinor ++ sections) =
      .ok p := by
  have hsections := hreads.run [] 8 (by decide)
  rw [List.append_nil] at hsections
  have hall : Binary.decodeAll ⟨Binary.magic ++ Binary.word16 Binary.versionMajor ++
      Binary.word16 Binary.versionMinor ++ sections, 0⟩ = .ok (p, ⟨[], 8 + sections.length⟩) := by
    rw [Binary.decodeAll, Binary.Reader.bind_of_ok (Binary.decodeHeader_append sections),
      Binary.Reader.bind_of_ok hsections]
    rfl
  simp only [decode, hall, bind, Except.bind, valid]
  rfl

/-- A valid program whose lengths fit is recovered from its binary form, with the origin of every node. -/
theorem Program.decode_encode (p : Program) (valid : p.validate = .ok ()) (fits : p.Encodable) :
    ∃ bytes, p.encode = .ok bytes ∧ Program.decode bytes = .ok p := by
  obtain ⟨sections, hencode, hreads⟩ := Binary.encode_sections p (validate_eq_ok_iff.mp valid) fits
  exact ⟨_, hencode, decode_of_reads valid hreads⟩

/-- A program with a list of every kind. -/
def Program.patrol : Program where
  expressions := ⟨[0, 0, 128, 63, 1], #[.readVar ⟨0, .bool⟩, .not (.output 0 0), .lookupField 1 2 .bool]⟩
  entries := #[.ofNode .nop, .ofNode (.root ⟨2⟩), ⟨.sequence #[⟨3⟩, ⟨4⟩], ⟨1, 2⟩, [7, 8]⟩,
    .ofNode (.writeField 0 [⟨0, 4, .constant 0 4⟩]), .ofNode (.selector [⟨.output 1 0, ⟨5⟩⟩, ⟨.output 2 0, ⟨0⟩⟩]),
    .ofNode (.writeVar ⟨0, .bool⟩ (.constant 4 1))]
  types := #[⟨"Mover", 5, 4⟩]
  lookups := #[none, some ⟨"Health", 6, 4⟩]
  blackboardSize := 1

theorem Program.patrol_encodable : patrol.Encodable where
  constants := by decide
  operations := by decide
  entries := by decide
  fields := by decide
  paths := by decide
  types := by decide
  typeNames := by decide
  lookups := by decide
  lookupNames := by decide

theorem Program.decode_encode_patrol : patrol.validate = .ok () ∧ patrol.Encodable ∧
    ∃ bytes, patrol.encode = .ok bytes ∧ Program.decode bytes = .ok patrol :=
  ⟨rfl, patrol_encodable, decode_encode patrol rfl patrol_encodable⟩

end BehaviorTree
