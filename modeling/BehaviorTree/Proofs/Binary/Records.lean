import BehaviorTree.Proofs.Binary.Reading

/-! The records of the binary form, each read back from what is written for it: references, variables,
operations, nodes, debug ids, paths, component types and lookups. -/

namespace BehaviorTree

theorem ValueType.ofTag?_tag (type : ValueType) : ofTag? type.tag = some type := by
  cases type <;> rfl

theorem CompareOp.ofTag?_tag (op : CompareOp) : ofTag? op.tag = some op := by
  cases op <;> rfl

theorem ArithOp.ofTag?_tag (op : ArithOp) : ofTag? op.tag = some op := by
  cases op <;> rfl

theorem NodeKind.ofTag?_tag (kind : NodeKind) : ofTag? kind.tag = some kind := by
  cases kind <;> rfl

/-- The number of fields that a node writes. -/
def Node.fieldCount : Node → Nat
  | writeField _ fields => fields.length
  | _ => 0

/-- Whether the length of a list inside of a node fits into 16 bits. -/
def Node.ShortLists : Node → Prop
  | sequence children => children.size < 0x10000
  | selector branches => branches.length < 0x10000
  | writeField _ fields => fields.length < 0x10000
  | nop | root _ | wait _ | fail | optional _ _ | .catch _ | writeVar _ _ | query _ _ | parallel _ _
  | threadRoot _ _ => True

namespace Binary

open Bytes Reader

/-! ### References and variables -/

@[simp] theorem length_encodeRef (ref : ValueRef) : (encodeRef ref).length = 8 := by
  cases ref <;> simp [encodeRef]

@[simp] theorem length_encodeSlot (slot : VarSlot) : (encodeSlot slot).length = 5 := by
  simp [encodeSlot]

@[simp] theorem decodeRef_append (ref : ValueRef) (rest : Bytes) (k : Nat) :
    decodeRef ⟨encodeRef ref ++ rest, k⟩ = .ok (ref, ⟨rest, k + 8⟩) := by
  cases ref <;> simp [-bind_pure_comp, decodeRef, encodeRef, bind_apply]

@[simp] theorem decodeValueType_cons (type : ValueType) (rest : Bytes) (k : Nat) :
    decodeValueType ⟨type.tag :: rest, k⟩ = .ok (type, ⟨rest, k + 1⟩) :=
  tagged_cons _ _ _ _ type.ofTag?_tag rest k

@[simp] theorem decodeSlot_append (slot : VarSlot) (rest : Bytes) (k : Nat) :
    decodeSlot ⟨encodeSlot slot ++ rest, k⟩ = .ok (slot, ⟨rest, k + 5⟩) := by
  simp [-bind_pure_comp, decodeSlot, encodeSlot, bind_apply]

@[simp] theorem decodeNodeId_append (id : NodeId) (rest : Bytes) (k : Nat) :
    decodeNodeId ⟨word16 id.index ++ rest, k⟩ = .ok (id, ⟨rest, k + 2⟩) := by
  simp [-bind_pure_comp, decodeNodeId, bind_apply]

/-! ### Operations -/

theorem reads_operation (op : Operation) : Reads 8 decodeOperation (encodeOperation op) op where
  whole := by
    have hpad := dvd_length_pad
    cases op <;> simp [encodeOperation, length_pad, padding]
  run rest k hk := by
    cases op <;>
      simp (disch := (unfold padding; omega)) [-bind_pure_comp, encodeOperation, decodeOperation,
        decodeOperationOf, pad, bind_apply, align_zeros, align_of_dvd,
        tagged_cons _ _ _ _ (CompareOp.ofTag?_tag _), tagged_cons _ _ _ _ (ArithOp.ofTag?_tag _)] <;>
      omega

/-! ### Nodes -/

theorem reads_nodeId (id : NodeId) : Reads 2 decodeNodeId (word16 id.index) id where
  whole := by simp
  run rest k _ := by simp

theorem reads_branch (branch : Branch) : Reads 8 decodeBranch (encodeBranch branch) branch where
  whole := dvd_length_pad _
  run rest k hk := by
    simp (disch := (unfold padding; omega)) [-bind_pure_comp, encodeBranch, decodeBranch, pad, bind_apply,
      align_zeros]
    omega

theorem reads_write (field : FieldWrite) : Reads 8 decodeWrite (encodeWrite field) field where
  whole := by simp [encodeWrite]
  run rest k _ := by simp [-bind_pure_comp, encodeWrite, decodeWrite, bind_apply]

theorem encodePayload_eq_cons (tag : UInt8) (node : Node) :
    encodePayload tag node = tag :: (encodePayload tag node).tail := by
  cases node with
  | wait goal => cases goal <;> rfl
  | _ => rfl

/-- What follows the tag of a node is read back, where the tag stands at a record boundary. -/
theorem decodePayload_append (node : Node) (short : node.ShortLists) (tag : UInt8) (rest : Bytes) (k : Nat)
    (hk : 8 ∣ k) :
    decodePayload node.kind ⟨(encodePayload tag node).tail ++ rest, k + 1⟩ =
      .ok (node, ⟨rest, k + (encodePayload tag node).length⟩) := by
  cases node with
  | sequence children =>
    have hcount := number_shortCount children.size short
    have hmany := (Reads.many (fun id : NodeId => word16 id.index) children.toList fun id _ => reads_nodeId id).run
    rw [Array.length_toList] at hmany
    simp (disch := omega) [-bind_pure_comp, -List.length_flatMap, encodePayload, Node.kind, decodePayload,
      bind_apply, hcount, hmany]
    omega
  | selector branches =>
    have hcount := number_shortCount branches.length short
    have hmany := (Reads.many encodeBranch branches fun branch _ => reads_branch branch).run
    simp (disch := (unfold padding; omega)) [-bind_pure_comp, -List.length_flatMap, encodePayload, Node.kind,
      decodePayload, bind_apply, pad, align_zeros, hcount, hmany]
    omega
  | writeField component fields =>
    have hcount := number_shortCount fields.length short
    have hmany := (Reads.many encodeWrite fields fun field _ => reads_write field).run
    simp (disch := (unfold padding; omega)) [-bind_pure_comp, -List.length_flatMap, encodePayload, Node.kind,
      decodePayload, bind_apply, pad, align_zeros, hcount, hmany]
    omega
  | wait goal =>
    cases goal <;>
      simp (disch := (unfold padding; omega)) [-bind_pure_comp, encodePayload, Node.kind, decodePayload,
        bind_apply, pad, align_zeros] <;>
      omega
  | threadRoot child looping =>
    cases looping <;> simp [-bind_pure_comp, encodePayload, Node.kind, decodePayload, bind_apply]
  | _ =>
    simp (disch := (unfold padding; omega)) [-bind_pure_comp, encodePayload, Node.kind, decodePayload,
      bind_apply, pad, align_zeros] <;> omega

theorem reads_node (node : Node) (short : node.ShortLists) : Reads 8 decodeNode (encodeNode node) node where
  whole := dvd_length_pad _
  run rest k hk := by
    have htag := tagged_cons .node NodeKind.ofTag? node.kind.tag node.kind node.kind.ofTag?_tag
    have hcons := encodePayload_eq_cons node.kind.tag node
    have hpayload := decodePayload_append node short node.kind.tag
      (zeros (padding (encodePayload node.kind.tag node).length) ++ rest) k hk
    have halign := align_zeros _ _ (padding_add k (encodePayload node.kind.tag node).length hk) rest
    have hbytes : encodeNode node ++ rest = node.kind.tag :: ((encodePayload node.kind.tag node).tail ++
        (zeros (padding (encodePayload node.kind.tag node).length) ++ rest)) := by
      rw [encodeNode, pad, List.append_assoc, ← List.cons_append, ← hcons]
    rw [hbytes, decodeNode, bind_of_ok (htag _ k), bind_of_ok hpayload, bind_of_ok halign, encodeNode, length_pad,
      Nat.add_assoc]
    rfl

/-! ### Origins, component types and lookups -/

theorem reads_debugId (id : DebugId) : Reads 8 decodeDebugId (encodeDebugId id) id where
  whole := by simp [encodeDebugId]
  run rest k _ := by simp [-bind_pure_comp, encodeDebugId, decodeDebugId, bind_apply]

theorem encodeHead_of_lt (count : Nat) (h : count < 0x100000000) :
    encodeHead count = .ok (littleEndian 4 count ++ word32 0) := by
  rw [encodeHead, encodeCount, if_pos h]
  rfl

theorem reads_head (count : Nat) (h : count < 0x100000000) :
    Reads 8 Reader.head (littleEndian 4 count ++ word32 0) count where
  whole := by simp
  run rest k _ := by
    rw [Reader.head, List.append_assoc, bind_of_ok (number_littleEndian 4 count h _ k),
      bind_of_ok (word32_append 0 rest (k + 4))]
    simp

/-- A path of fewer than 2^32 calls is written and read back. -/
theorem encodePath_reads (path : List InstanceId) (h : path.length < 0x100000000) :
    ∃ bytes, encodePath path = .ok bytes ∧ Reads 8 decodePath bytes path := by
  have hid (id : InstanceId) : Reads 8 Reader.word64 (word64 id) id :=
    ⟨by simp, fun rest k _ => by simp⟩
  refine ⟨_, by rw [encodePath, encodeHead_of_lt _ h]; rfl, ?_⟩
  exact (reads_head path.length h).bind (Reads.many word64 path fun id _ => hid id)

/-- A component type with a name of fewer than 2^16 bytes is written and read back. -/
theorem encodeType_reads (type : ComponentType) (h : type.name.utf8ByteSize ≤ 65535) :
    ∃ bytes, encodeType type = .ok bytes ∧ Reads 8 decodeType bytes type := by
  replace h : (ofText type.name).length < 0x10000 := by rw [length_ofText]; omega
  refine ⟨_, by rw [encodeType, if_pos h], dvd_length_pad _, ?_⟩
  intro rest k hk
  have hcount := number_shortCount _ h
  have htake := take_append (ofText type.name)
  simp (disch := (unfold padding; omega)) [-bind_pure_comp, decodeType, pad, bind_apply, hcount, htake,
    fromUTF8_ofText, align_zeros]
  omega

theorem encodeLookup_reads (lookup : Option ComponentType)
    (h : ∀ type ∈ lookup, type.name.utf8ByteSize ≤ 65535) :
    ∃ bytes, encodeLookup lookup = .ok bytes ∧ Reads 8 decodeLookup bytes lookup := by
  cases lookup with
  | none =>
    refine ⟨_, rfl, dvd_length_pad _, ?_⟩
    intro rest k hk
    simp (disch := (unfold padding; omega)) [decodeLookup, pad, bind_apply, align_zeros]
    omega
  | some type =>
    obtain ⟨bytes, hencode, hreads⟩ := encodeType_reads type (h type rfl)
    refine ⟨pad [1] ++ bytes, by rw [encodeLookup, hencode]; rfl, ?_, ?_⟩
    · rw [List.length_append]
      exact Nat.dvd_add (dvd_length_pad _) hreads.whole
    · intro rest k hk
      have hrun := hreads.run rest (k + 1 + padding 1) (by unfold padding; omega)
      simp (disch := (unfold padding; omega)) [-bind_pure_comp, decodeLookup, pad, bind_apply, align_zeros, hrun]
      omega

theorem encodeAll_of_ok {α : Type} {encode : α → Except Fault Bytes} (bytes : α → Bytes) (items : List α)
    (h : ∀ a ∈ items, encode a = .ok (bytes a)) : encodeAll encode items = .ok (items.flatMap bytes) := by
  have hmap : items.mapM encode = .ok (items.map bytes) := by
    induction items with
    | nil => rfl
    | cons a items ih =>
      rw [List.mapM_cons, h a List.mem_cons_self, ih fun b hb => h b (List.mem_cons_of_mem _ hb)]
      rfl
  rw [encodeAll, hmap]
  rfl

/-- Records that may be refused are written one after another and read back as a list. -/
theorem encodeAll_reads {α : Type} {encode : α → Except Fault Bytes} {item : Reader α} (items : List α)
    (h : ∀ a ∈ items, ∃ bytes, encode a = .ok bytes ∧ Reads 8 item bytes a) :
    ∃ bytes, encodeAll encode items = .ok bytes ∧ Reads 8 (Reader.many items.length item) bytes items := by
  have hencode : ∀ a ∈ items, encode a = .ok ((encode a).toOption.getD []) ∧
      Reads 8 item ((encode a).toOption.getD []) a := by
    intro a ha
    obtain ⟨bytes, hbytes, hreads⟩ := h a ha
    rw [hbytes]
    exact ⟨rfl, hreads⟩
  exact ⟨_, encodeAll_of_ok _ items fun a ha => (hencode a ha).1,
    Reads.many _ items fun a ha => (hencode a ha).2⟩

end Binary

end BehaviorTree
