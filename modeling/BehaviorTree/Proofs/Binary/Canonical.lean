import BehaviorTree.Proofs.Binary.RoundTrip
import BehaviorTree.Proofs.Refusal

/-! Accepted input. Whatever stands in the bytes that are skipped, a reader takes off the input exactly as many
bytes as are written for what it returns. A program that is read can therefore be written, in the same number of
bytes, and what is written is read as the same program. -/

namespace BehaviorTree

/-- Digits make a number that fits. -/
theorem Bytes.value_lt (bytes : Bytes) : bytes.value < Nat.pow 256 bytes.length := by
  induction bytes with
  | nil => decide
  | cons b rest ih =>
    have hb := b.toNat_lt
    have hpow : Nat.pow 256 (b :: rest).length = Nat.pow 256 rest.length * 256 := rfl
    rw [value, hpow]
    omega

/-- A text of the given bytes has just these bytes. -/
theorem Bytes.ofText_of_fromUTF8 {bytes : Bytes} {text : String}
    (h : String.fromUTF8? ⟨bytes.toArray⟩ = some text) : ofText text = bytes := by
  unfold String.fromUTF8? at h
  split_ifs at h
  rw [ofText_eq, ← Option.some.inj h]
  rfl

theorem Node.ShortLists.fieldCount_le {node : Node} (short : node.ShortLists) : node.fieldCount ≤ 65535 := by
  cases node with
  | writeField component fields => exact Nat.le_of_lt_succ short
  | _ => exact Nat.zero_le _

namespace Binary.Reader

open Bytes

variable {α β : Type}

/-- A reader that comes to a value has come to a value with its first part. -/
theorem bind_eq_ok {r : Reader α} {f : α → Reader β} {c c' : Cursor} {b : β} (h : (r >>= f) c = .ok (b, c')) :
    ∃ a c₁, r c = .ok (a, c₁) ∧ f a c₁ = .ok (b, c') := by
  obtain ⟨⟨a, c₁⟩, hr, hf⟩ := Refusal.bind_eq_ok_iff.mp h
  exact ⟨a, c₁, hr, hf⟩

/-- Whatever the reader returns at offset `k`, it has taken a number of bytes of which `post` holds. -/
def Takes (k : Nat) (r : Reader α) (post : α → Nat → Prop) : Prop :=
  ∀ (rest : Bytes) (a : α) (c : Cursor), r ⟨rest, k⟩ = .ok (a, c) →
    ∃ taken, rest = taken ++ c.rest ∧ c.offset = k + taken.length ∧ post a taken.length

namespace Takes

variable {k : Nat} {r : Reader α} {post mid : α → Nat → Prop}

theorem pure {a : α} (h : post a 0) : Takes k (Pure.pure a) post := by
  intro rest b c heq
  obtain ⟨rfl, rfl⟩ := Prod.mk.inj (Except.ok.inj heq)
  exact ⟨[], rfl, rfl, h⟩

theorem throw (e : DecodeError) : Takes k (MonadExcept.throw e : Reader α) post :=
  fun _ _ _ heq => nomatch heq

theorem mono (h : Takes k r mid) (hmono : ∀ a n, mid a n → post a n) : Takes k r post := by
  intro rest a c heq
  obtain ⟨taken, hrest, hoffset, hmid⟩ := h rest a c heq
  exact ⟨taken, hrest, hoffset, hmono a _ hmid⟩

theorem bind {f : α → Reader β} {last : β → Nat → Prop} (h : Takes k r mid)
    (hf : ∀ a n, mid a n → Takes (k + n) (f a) fun b m => last b (n + m)) : Takes k (r >>= f) last := by
  intro rest b c heq
  obtain ⟨a, c₁, hr, hlater⟩ := bind_eq_ok heq
  obtain ⟨taken, rfl, hoffset, hmid⟩ := h rest a c₁ hr
  obtain ⟨more, hrest, hoffset', hlast⟩ := hf a _ hmid c₁.rest b c (hoffset ▸ hlater)
  refine ⟨taken ++ more, ?_, ?_, ?_⟩
  · rw [hrest, List.append_assoc]
  · rw [hoffset', List.length_append, Nat.add_assoc]
  · rwa [List.length_append]

/-! ### Primitive readers -/

theorem take (count : Nat) : Takes k (Reader.take count) fun bytes n => n = count ∧ bytes.length = count := by
  intro rest bytes c heq
  unfold Reader.take at heq
  dsimp only at heq
  split_ifs at heq with hcount
  obtain ⟨rfl, rfl⟩ := Prod.mk.inj (Except.ok.inj heq)
  exact ⟨rest.take count, (List.take_append_drop count rest).symm, by rw [hcount], hcount, hcount⟩

theorem number (width : Nat) : Takes k (Reader.number width) fun a n => n = width ∧ a < Nat.pow 256 width := by
  refine (take width).bind ?_
  rintro bytes _ ⟨rfl, hlength⟩
  exact .pure ⟨rfl, hlength ▸ value_lt bytes⟩

theorem word8 : Takes k Reader.word8 fun _ n => n = 1 :=
  (number 1).bind fun _ _ h => .pure h.1

theorem word16 : Takes k Reader.word16 fun _ n => n = 2 :=
  (number 2).bind fun _ _ h => .pure h.1

theorem word32 : Takes k Reader.word32 fun _ n => n = 4 :=
  (number 4).bind fun _ _ h => .pure h.1

theorem word64 : Takes k Reader.word64 fun _ n => n = 8 :=
  (number 8).bind fun _ _ h => .pure h.1

theorem align : Takes k Reader.align fun _ n => n = padding k := by
  intro rest _ c heq
  obtain ⟨⟨skipped, c'⟩, htake, hc⟩ := Refusal.map_eq_ok_iff.mp heq
  obtain ⟨-, rfl⟩ := Prod.mk.inj hc
  obtain ⟨taken, hrest, hoffset, hlength, -⟩ := take (padding k) rest skipped c' htake
  exact ⟨taken, hrest, hoffset, hlength⟩

theorem tagged (field : TagField) (ofTag? : UInt8 → Option α) :
    Takes k (Reader.tagged field ofTag?) fun _ n => n = 1 := by
  refine word8.bind ?_
  rintro tag _ rfl
  cases ofTag? tag with
  | none => exact .throw _
  | some a => exact .pure rfl

theorem head : Takes k Reader.head fun count n => n = 8 ∧ count < 0x100000000 := by
  refine (number 4).bind ?_
  rintro count _ ⟨rfl, hcount⟩
  refine word32.bind ?_
  rintro _ _ rfl
  exact .pure ⟨rfl, hcount⟩

private theorem manyInto {unit : Nat} {item : Reader α} {width : α → Nat} {good : α → Prop}
    (h : ∀ k, unit ∣ k → Takes k item fun a n => n = width a ∧ unit ∣ n ∧ good a) (count : Nat)
    (reversed : List α) {k : Nat} (hk : unit ∣ k) :
    Takes k (Reader.manyInto item count reversed) fun items n => ∃ new, items = reversed.reverse ++ new ∧
      new.length = count ∧ n = (new.map width).sum ∧ unit ∣ n ∧ ∀ a ∈ new, good a := by
  induction count generalizing reversed k with
  | zero =>
    intro rest items c heq
    obtain ⟨rfl, rfl⟩ := Prod.mk.inj (Except.ok.inj heq)
    exact ⟨[], rfl, rfl, [], by simp, rfl, rfl, Nat.dvd_zero _, by simp⟩
  | succ count ih =>
    intro rest items c heq
    rw [Reader.manyInto] at heq
    split at heq
    next a c₁ hitem =>
      obtain ⟨taken, rfl, hoffset, hwidth, hunit, hgood⟩ := h k hk rest a c₁ hitem
      obtain ⟨more, hrest, hoffset', new, hnew, hcount, hsum, hdvd, hall⟩ :=
        ih (a :: reversed) (Nat.dvd_add hk hunit) c₁.rest items c (hoffset ▸ heq)
      refine ⟨taken ++ more, ?_, ?_, a :: new, ?_, ?_, ?_, ?_, ?_⟩
      · rw [hrest, List.append_assoc]
      · rw [hoffset', List.length_append, Nat.add_assoc]
      · rw [hnew, List.reverse_cons, List.append_assoc, List.singleton_append]
      · rw [List.length_cons, hcount]
      · rw [List.length_append, List.map_cons, List.sum_cons, hwidth, hsum]
      · rw [List.length_append]
        exact Nat.dvd_add hunit hdvd
      · exact List.forall_mem_cons.mpr ⟨hgood, hall⟩
    next e hitem => cases heq

/-- Items that are read one after the other. -/
theorem many {unit : Nat} {item : Reader α} {width : α → Nat} {good : α → Prop}
    (h : ∀ k, unit ∣ k → Takes k item fun a n => n = width a ∧ unit ∣ n ∧ good a) (count : Nat) {k : Nat}
    (hk : unit ∣ k) :
    Takes k (Reader.many count item) fun items n =>
      items.length = count ∧ n = (items.map width).sum ∧ unit ∣ n ∧ ∀ a ∈ items, good a := by
  intro rest items c heq
  obtain ⟨taken, hrest, hoffset, new, rfl, hpost⟩ := manyInto h count [] hk rest items c heq
  exact ⟨taken, hrest, hoffset, hpost⟩

end Takes

end Binary.Reader

namespace Binary

open Bytes Reader

variable {k : Nat}

/-! ### References and variables -/

theorem takes_ref : Takes k decodeRef fun _ n => n = 8 := by
  refine Takes.word8.bind ?_
  rintro kind _ rfl
  refine Takes.word8.bind ?_
  rintro slot _ rfl
  refine Takes.word16.bind ?_
  rintro short _ rfl
  refine Takes.word32.bind ?_
  rintro offset _ rfl
  split
  · exact .pure rfl
  · exact .pure rfl
  · exact .throw _

theorem takes_slot : Takes k decodeSlot fun _ n => n = 5 := by
  refine Takes.word32.bind ?_
  rintro offset _ rfl
  refine (Takes.tagged _ _).bind ?_
  rintro type _ rfl
  exact .pure rfl

theorem takes_nodeId : Takes k decodeNodeId fun _ n => n = 2 :=
  Takes.word16.bind fun _ _ h => .pure h

/-! ### Operations -/

/-- Two operands at the end of an operation. -/
theorem takes_operands {f : ValueRef → ValueRef → Operation} {post : Operation → Nat → Prop}
    (h : ∀ lhs rhs, post (f lhs rhs) 16) :
    Takes k (do let lhs ← decodeRef; return f lhs (← decodeRef)) post := by
  refine takes_ref.bind ?_
  rintro lhs _ rfl
  refine takes_ref.bind ?_
  rintro rhs _ rfl
  exact .pure (h lhs rhs)

theorem takes_operationOf (tag : UInt8) (hk : 8 ∣ k) :
    Takes (k + 1) (decodeOperationOf tag) fun op n => 1 + n + padding (1 + n) = (encodeOperation op).length := by
  have hwhole (op : Operation) (n : Nat) (h : (encodeOperation op).length = 1 + n) :
      1 + n + padding (1 + n) = (encodeOperation op).length := by
    have hdvd := (reads_operation op).whole
    unfold padding
    omega
  unfold decodeOperationOf
  -- Operations without operands end with the padding, operations with operands have it before them.
  split
  · refine (Takes.tagged _ _).bind ?_
    rintro type _ rfl
    refine Takes.word16.bind ?_
    rintro component _ rfl
    refine Takes.word16.bind ?_
    rintro offset _ rfl
    exact .pure (by simp [encodeOperation, length_pad])
  · refine (Takes.tagged _ _).bind ?_
    rintro type _ rfl
    refine Takes.word16.bind ?_
    rintro lookup _ rfl
    refine Takes.word16.bind ?_
    rintro offset _ rfl
    exact .pure (by simp [encodeOperation, length_pad])
  · refine Takes.word8.bind ?_
    rintro _ _ rfl
    refine takes_slot.bind ?_
    rintro slot _ rfl
    exact .pure (by simp [encodeOperation, length_pad])
  · refine Takes.align.bind ?_
    rintro _ _ rfl
    refine takes_ref.bind ?_
    rintro a _ rfl
    refine .pure (hwhole _ _ ?_)
    simp [encodeOperation, length_pad, padding]
    omega
  · refine Takes.align.bind ?_
    rintro _ _ rfl
    refine takes_operands fun a b => hwhole _ _ ?_
    simp [encodeOperation, length_pad, padding]
    omega
  · refine Takes.align.bind ?_
    rintro _ _ rfl
    refine takes_operands fun a b => hwhole _ _ ?_
    simp [encodeOperation, length_pad, padding]
    omega
  · refine (Takes.tagged _ _).bind ?_
    rintro op _ rfl
    refine (Takes.tagged _ _).bind ?_
    rintro type _ rfl
    refine Takes.align.bind ?_
    rintro _ _ rfl
    refine takes_operands fun a b => hwhole _ _ ?_
    simp [encodeOperation, length_pad, padding]
    omega
  · refine (Takes.tagged _ _).bind ?_
    rintro op _ rfl
    refine (Takes.tagged _ _).bind ?_
    rintro type _ rfl
    refine Takes.align.bind ?_
    rintro _ _ rfl
    refine takes_operands fun a b => hwhole _ _ ?_
    simp [encodeOperation, length_pad, padding]
    omega
  · exact .throw _

theorem takes_operation (hk : 8 ∣ k) : Takes k decodeOperation fun op n => n = (encodeOperation op).length := by
  refine Takes.word8.bind ?_
  rintro tag _ rfl
  refine (takes_operationOf tag hk).bind fun op n hn => ?_
  refine Takes.align.bind ?_
  rintro _ _ rfl
  refine .pure ?_
  rw [← hn, Nat.add_assoc k, padding_add k _ hk]
  omega

/-! ### Nodes -/

theorem takes_branch (hk : 8 ∣ k) : Takes k decodeBranch fun _ n => n = 16 := by
  refine takes_ref.bind ?_
  rintro guard _ rfl
  refine takes_nodeId.bind ?_
  rintro child _ rfl
  refine Takes.align.bind ?_
  rintro _ _ rfl
  refine .pure ?_
  unfold padding
  omega

theorem takes_write : Takes k decodeWrite fun _ n => n = 16 := by
  refine Takes.word16.bind ?_
  rintro offset _ rfl
  refine Takes.word16.bind ?_
  rintro length _ rfl
  refine Takes.word32.bind ?_
  rintro _ _ rfl
  refine takes_ref.bind ?_
  rintro value _ rfl
  exact .pure rfl

/-- What follows the tag of a node takes as many bytes as are written for it, whatever the tag. Lists are short
because their length is read from 16 bits. -/
theorem takes_payload (kind : NodeKind) (hk : 8 ∣ k) : Takes (k + 1) (decodePayload kind) fun node n =>
    node.kind = kind ∧ node.ShortLists ∧ ∀ tag, (encodePayload tag node).length = 1 + n := by
  cases kind with
  | nop => exact .pure ⟨rfl, trivial, fun _ => rfl⟩
  | fail => exact .pure ⟨rfl, trivial, fun _ => rfl⟩
  | root =>
    refine Takes.word8.bind ?_
    rintro _ _ rfl
    refine takes_nodeId.bind ?_
    rintro child _ rfl
    exact .pure ⟨rfl, trivial, fun tag => by simp [encodePayload]⟩
  | «catch» =>
    refine Takes.word8.bind ?_
    rintro _ _ rfl
    refine takes_nodeId.bind ?_
    rintro child _ rfl
    exact .pure ⟨rfl, trivial, fun tag => by simp [encodePayload]⟩
  | threadRoot =>
    refine Takes.word8.bind ?_
    rintro looping _ rfl
    refine takes_nodeId.bind ?_
    rintro child _ rfl
    exact .pure ⟨rfl, trivial, fun tag => by simp [encodePayload]⟩
  | sequence =>
    refine Takes.word8.bind ?_
    rintro _ _ rfl
    refine (Takes.number 2).bind ?_
    rintro count _ ⟨rfl, hcount⟩
    have hitem (k : Nat) (_ : 1 ∣ k) : Takes k decodeNodeId fun _ n => n = 2 ∧ 1 ∣ n ∧ True :=
      Takes.mono takes_nodeId fun _ n hn => ⟨hn, one_dvd n, trivial⟩
    refine (Takes.many hitem count (one_dvd _)).bind ?_
    rintro children _ ⟨rfl, rfl, -, -⟩
    refine .pure ⟨rfl, ?_, fun tag => ?_⟩
    · show children.toArray.size < 0x10000
      rwa [List.size_toArray]
    · simp [encodePayload]
      omega
  | selector =>
    refine Takes.word8.bind ?_
    rintro _ _ rfl
    refine (Takes.number 2).bind ?_
    rintro count _ ⟨rfl, hcount⟩
    refine Takes.align.bind ?_
    rintro _ _ rfl
    have hitem (k : Nat) (hk : 8 ∣ k) : Takes k decodeBranch fun _ n => n = 16 ∧ 8 ∣ n ∧ True :=
      Takes.mono (takes_branch hk) fun _ n hn => ⟨hn, by omega, trivial⟩
    refine (Takes.many hitem count (by unfold padding; omega)).bind ?_
    rintro branches _ ⟨rfl, rfl, -, -⟩
    refine .pure ⟨rfl, hcount, fun tag => ?_⟩
    simp [encodePayload, encodeBranch, length_pad, padding]
    omega
  | writeField =>
    refine Takes.word8.bind ?_
    rintro _ _ rfl
    refine Takes.word16.bind ?_
    rintro component _ rfl
    refine (Takes.number 2).bind ?_
    rintro count _ ⟨rfl, hcount⟩
    refine Takes.align.bind ?_
    rintro _ _ rfl
    have hitem (k : Nat) (_ : 8 ∣ k) : Takes k decodeWrite fun _ n => n = 16 ∧ 8 ∣ n ∧ True :=
      Takes.mono takes_write fun _ n hn => ⟨hn, by omega, trivial⟩
    refine (Takes.many hitem count (by unfold padding; omega)).bind ?_
    rintro fields _ ⟨rfl, rfl, -, -⟩
    refine .pure ⟨rfl, hcount, fun tag => ?_⟩
    simp [encodePayload, encodeWrite, length_pad, padding]
    omega
  | wait =>
    refine Takes.word8.bind ?_
    rintro mode _ rfl
    refine Takes.align.bind ?_
    rintro _ _ rfl
    refine takes_ref.bind ?_
    rintro value _ rfl
    split
    · refine .pure ⟨rfl, trivial, fun tag => ?_⟩
      simp [encodePayload, length_pad, padding]
      omega
    · refine .pure ⟨rfl, trivial, fun tag => ?_⟩
      simp [encodePayload, length_pad, padding]
      omega
    · exact .throw _
  | optional =>
    refine Takes.word8.bind ?_
    rintro _ _ rfl
    refine takes_nodeId.bind ?_
    rintro child _ rfl
    refine Takes.align.bind ?_
    rintro _ _ rfl
    refine takes_ref.bind ?_
    rintro guard _ rfl
    refine .pure ⟨rfl, trivial, fun tag => ?_⟩
    simp [encodePayload, length_pad, padding]
    omega
  | writeVar =>
    refine Takes.word8.bind ?_
    rintro _ _ rfl
    refine Takes.word16.bind ?_
    rintro _ _ rfl
    refine takes_slot.bind ?_
    rintro slot _ rfl
    refine Takes.align.bind ?_
    rintro _ _ rfl
    refine takes_ref.bind ?_
    rintro value _ rfl
    refine .pure ⟨rfl, trivial, fun tag => ?_⟩
    simp [encodePayload, length_pad, padding]
    omega
  | query =>
    refine Takes.word8.bind ?_
    rintro _ _ rfl
    refine Takes.word16.bind ?_
    rintro query _ rfl
    refine takes_slot.bind ?_
    rintro result _ rfl
    exact .pure ⟨rfl, trivial, fun tag => by simp [encodePayload]⟩
  | parallel =>
    refine Takes.word8.bind ?_
    rintro _ _ rfl
    refine takes_nodeId.bind ?_
    rintro main _ rfl
    refine takes_nodeId.bind ?_
    rintro thread _ rfl
    exact .pure ⟨rfl, trivial, fun tag => by simp [encodePayload]⟩

theorem takes_node (hk : 8 ∣ k) :
    Takes k decodeNode fun node n => n = (encodeNode node).length ∧ 8 ∣ n ∧ node.ShortLists := by
  refine (Takes.tagged _ _).bind ?_
  rintro kind _ rfl
  refine (takes_payload kind hk).bind ?_
  rintro node n ⟨-, short, hlength⟩
  refine Takes.align.bind ?_
  rintro _ _ rfl
  have hwhole : 1 + (n + padding (k + 1 + n)) = (encodeNode node).length := by
    rw [encodeNode, length_pad, hlength, Nat.add_assoc k, padding_add k _ hk, Nat.add_assoc]
  exact .pure ⟨hwhole, hwhole ▸ dvd_length_pad _, short⟩

/-! ### Origins, component types and lookups -/

theorem takes_debugId : Takes k decodeDebugId fun _ n => n = 16 := by
  refine Takes.word64.bind ?_
  rintro low _ rfl
  refine Takes.word64.bind ?_
  rintro high _ rfl
  exact .pure rfl

/-- The number of bytes that are written for a path. -/
def pathWidth (path : List InstanceId) : Nat :=
  8 + 8 * path.length

theorem takes_path (hk : 8 ∣ k) :
    Takes k decodePath fun path n => n = pathWidth path ∧ 8 ∣ n ∧ path.length < 0x100000000 := by
  refine Takes.head.bind ?_
  rintro count _ ⟨rfl, hcount⟩
  have hitem (k : Nat) (_ : 8 ∣ k) : Takes k Reader.word64 fun _ n => n = 8 ∧ 8 ∣ n ∧ True :=
    Takes.mono Takes.word64 fun _ n hn => ⟨hn, by omega, trivial⟩
  refine Takes.mono (Takes.many hitem count (by omega)) ?_
  rintro path _ ⟨rfl, rfl, hdvd, -⟩
  refine ⟨?_, Nat.dvd_add (Nat.dvd_refl 8) hdvd, hcount⟩
  simp [pathWidth]
  omega

/-- The number of bytes that are written for a component type. -/
def typeWidth (type : ComponentType) : Nat :=
  12 + type.name.utf8ByteSize + padding (12 + type.name.utf8ByteSize)

theorem takes_type (hk : 8 ∣ k) :
    Takes k decodeType fun type n => n = typeWidth type ∧ 8 ∣ n ∧ type.name.utf8ByteSize ≤ 65535 := by
  refine Takes.word64.bind ?_
  rintro id _ rfl
  refine Takes.word16.bind ?_
  rintro size _ rfl
  refine (Takes.number 2).bind ?_
  rintro count _ ⟨rfl, hcount⟩
  refine (Takes.take count).bind ?_
  rintro bytes _ ⟨hlength, rfl⟩
  subst hlength
  split
  next => exact .throw _
  next name hname =>
    have hsize : name.utf8ByteSize = bytes.length := by rw [← length_ofText, ofText_of_fromUTF8 hname]
    refine Takes.align.bind ?_
    rintro _ _ rfl
    refine .pure ⟨?_, ?_, ?_⟩
    · simp only [typeWidth, hsize, padding]
      omega
    · unfold padding
      omega
    · rw [hsize]
      exact Nat.le_of_lt_succ hcount

/-- The number of bytes that are written for a lookup. -/
def lookupWidth : Option ComponentType → Nat
  | none => 8
  | some type => 8 + typeWidth type

theorem takes_lookup (hk : 8 ∣ k) : Takes k decodeLookup fun lookup n =>
    n = lookupWidth lookup ∧ 8 ∣ n ∧ ∀ type ∈ lookup, type.name.utf8ByteSize ≤ 65535 := by
  refine Takes.word8.bind ?_
  rintro present _ rfl
  refine Takes.align.bind ?_
  rintro _ _ rfl
  have hskipped : 1 + padding (k + 1) = 8 := by
    unfold padding
    omega
  split
  · exact .pure ⟨by simp only [lookupWidth]; omega, by omega, nofun⟩
  · refine (takes_type (by omega)).bind ?_
    rintro type _ ⟨rfl, hdvd, hname⟩
    refine .pure ⟨?_, by omega, by simpa using hname⟩
    simp only [lookupWidth]
    omega
  · exact .throw _

/-! ### Sections -/

/-- The number of bytes that are written for the expressions. -/
def expressionsWidth (exprs : Expressions) : Nat :=
  8 + exprs.constants.length + padding exprs.constants.length +
    (exprs.operations.toList.map fun op => (encodeOperation op).length).sum

theorem takes_expressions (hk : 8 ∣ k) : Takes k decodeExpressions fun exprs n =>
    n = expressionsWidth exprs ∧ 8 ∣ n ∧ exprs.constants.length < 0x100000000 ∧
      exprs.operations.size < 0x100000000 := by
  refine (Takes.number 4).bind ?_
  rintro pool _ ⟨rfl, hpool⟩
  refine (Takes.number 4).bind ?_
  rintro count _ ⟨rfl, hcount⟩
  refine (Takes.take pool).bind ?_
  rintro constants _ ⟨hlength, rfl⟩
  subst hlength
  refine Takes.align.bind ?_
  rintro _ _ rfl
  have hskipped : 8 ∣ constants.length + padding (k + 4 + 4 + constants.length) := by
    unfold padding
    omega
  have hitem (k : Nat) (hk : 8 ∣ k) :
      Takes k decodeOperation fun op n => n = (encodeOperation op).length ∧ 8 ∣ n ∧ True :=
    Takes.mono (takes_operation hk) fun op n hn => ⟨hn, hn ▸ (reads_operation op).whole, trivial⟩
  refine (Takes.many hitem count (by omega)).bind ?_
  rintro operations _ ⟨rfl, rfl, hdvd, -⟩
  refine .pure ⟨?_, ?_, hpool, ?_⟩
  · simp only [expressionsWidth, padding]
    omega
  · omega
  · rwa [List.size_toArray]

/-- What was put together from three sections is taken apart again. -/
theorem unzip_entries {nodes : List Node} {ids : List DebugId} {paths : List (List InstanceId)}
    (hids : ids.length = nodes.length) (hpaths : paths.length = nodes.length) :
    let entries := (nodes.zip (ids.zip paths)).map fun (node, debugId, path) => Entry.mk node debugId path
    entries.map (·.node) = nodes ∧ entries.map (·.path) = paths := by
  have hrest : (ids.zip paths).length = nodes.length := by rw [List.length_zip, hids, hpaths, Nat.min_self]
  have hnodes : (nodes.zip (ids.zip paths)).map Prod.fst = nodes := List.map_fst_zip hrest.ge
  have hpairs : (nodes.zip (ids.zip paths)).map Prod.snd = ids.zip paths := List.map_snd_zip hrest.le
  have hlast : (ids.zip paths).map Prod.snd = paths := List.map_snd_zip (by omega)
  constructor
  · rw [List.map_map]
    exact hnodes
  · rw [List.map_map]
    conv_rhs => rw [← hlast, ← hpairs, List.map_map]
    rfl

/-- The number of bytes that are written for a program after the header. -/
def sectionsWidth (p : Program) : Nat :=
  expressionsWidth p.expressions +
    (8 + ((p.entries.toList.map (·.node)).map fun node => (encodeNode node).length).sum + 16 * p.entries.size +
      ((p.entries.toList.map (·.path)).map pathWidth).sum) +
    (8 + (p.types.toList.map typeWidth).sum) + (8 + (p.lookups.toList.map lookupWidth).sum) + 8

theorem takes_sections (hk : 8 ∣ k) : Takes k decodeSections fun p n => n = sectionsWidth p ∧ p.Encodable := by
  refine (takes_expressions hk).bind ?_
  rintro exprs _ ⟨rfl, hexprs, hpool, hoperations⟩
  refine Takes.head.bind ?_
  rintro count _ ⟨rfl, hcount⟩
  refine (Takes.many (fun _ => takes_node) count (by omega)).bind ?_
  rintro nodes _ ⟨hnodes, rfl, hnodesUnit, hshort⟩
  have hid (k : Nat) (_ : 8 ∣ k) : Takes k decodeDebugId fun _ n => n = 16 ∧ 8 ∣ n ∧ True :=
    Takes.mono takes_debugId fun _ n hn => ⟨hn, by omega, trivial⟩
  refine (Takes.many hid count (by omega)).bind ?_
  rintro ids _ ⟨hids, rfl, hidsUnit, -⟩
  refine (Takes.many (fun _ => takes_path) count (by omega)).bind ?_
  rintro paths _ ⟨hpaths, rfl, hpathsUnit, hpathsShort⟩
  refine Takes.head.bind ?_
  rintro typeCount _ ⟨rfl, htypeCount⟩
  refine (Takes.many (fun _ => takes_type) typeCount (by omega)).bind ?_
  rintro types _ ⟨rfl, rfl, htypesUnit, htypes⟩
  refine Takes.head.bind ?_
  rintro lookupCount _ ⟨rfl, hlookupCount⟩
  refine (Takes.many (fun _ => takes_lookup) lookupCount (by omega)).bind ?_
  rintro lookups _ ⟨rfl, rfl, hlookupsUnit, hlookups⟩
  refine Takes.word32.bind ?_
  rintro blackboardSize _ rfl
  refine Takes.align.bind ?_
  rintro _ _ rfl
  subst hnodes
  obtain ⟨hentryNodes, hentryPaths⟩ := unzip_entries hids hpaths
  generalize (nodes.zip (ids.zip paths)).map (fun (node, debugId, path) => Entry.mk node debugId path) = entries at *
  have hsize : entries.length = nodes.length := by rw [← hentryNodes, List.length_map]
  have hsixteen : (ids.map fun _ => 16).sum = 16 * nodes.length := by
    rw [List.map_const', List.sum_replicate_nat, hids, Nat.mul_comm]
  refine .pure ⟨?_, hpool, hoperations, ?_, ?_, ?_, ?_, ?_, ?_, ?_⟩
  · simp only [sectionsWidth, hentryNodes, hentryPaths, hsize, hsixteen, List.size_toArray, padding]
    omega
  · rwa [List.size_toArray, hsize]
  · intro entry hentry
    have hmem : entry.node ∈ nodes := hentryNodes ▸ List.mem_map_of_mem (List.mem_toArray.mp hentry)
    exact (hshort _ hmem).fieldCount_le
  · intro entry hentry
    exact hpathsShort _ (hentryPaths ▸ List.mem_map_of_mem (List.mem_toArray.mp hentry))
  · rwa [List.size_toArray]
  · exact fun type htype => htypes type (List.mem_toArray.mp htype)
  · rwa [List.size_toArray]
  · exact fun lookup hlookup => hlookups lookup (List.mem_toArray.mp hlookup)

theorem takes_header : Takes k decodeHeader fun _ n => n = 8 := by
  refine (Takes.take 4).bind ?_
  rintro bytes _ ⟨rfl, -⟩
  dsimp only
  split
  · refine Takes.word16.bind ?_
    rintro major _ rfl
    refine Takes.word16.bind ?_
    rintro minor _ rfl
    split
    · exact .pure rfl
    · exact .throw _
  · have hthrow : Takes (k + 4) (throw .badMagic : Reader Unit) fun _ _ => False := .throw _
    exact hthrow.bind fun _ _ h => h.elim

/-- What is read has as many bytes as are written for it, and its lengths fit. -/
theorem length_of_decodeAll {bytes : Bytes} {p : Program} {c : Cursor} (h : decodeAll ⟨bytes, 0⟩ = .ok (p, c)) :
    bytes.length = 8 + sectionsWidth p ∧ p.Encodable := by
  obtain ⟨_, c₁, hheader, h⟩ := bind_eq_ok h
  obtain ⟨p', c₂, hsections, h⟩ := bind_eq_ok h
  obtain ⟨_, _, hget, h⟩ := bind_eq_ok h
  obtain ⟨rfl, rfl⟩ := Prod.mk.inj (Except.ok.inj hget)
  split at h
  rotate_left
  · cases h
  next hrest =>
  obtain ⟨rfl, rfl⟩ := Prod.mk.inj (Except.ok.inj h)
  obtain ⟨header, rfl, hoffset, hlength⟩ := takes_header bytes () c₁ hheader
  have htakes : Takes c₁.offset decodeSections fun p n => n = sectionsWidth p ∧ p.Encodable :=
    takes_sections (by rw [hoffset, hlength])
  obtain ⟨sections, hc₁, -, hwidth, fits⟩ := htakes c₁.rest p' c₂ hsections
  refine ⟨?_, fits⟩
  rw [hc₁, hrest, List.append_nil, List.length_append, hlength, hwidth]

end Binary

/-- The input that is read as a program has as many bytes as are written for the program, and its lengths fit. -/
theorem Program.length_of_decode {bytes : Bytes} {p : Program} (h : decode bytes = .ok p) :
    bytes.length = 8 + Binary.sectionsWidth p ∧ p.Encodable := by
  obtain ⟨⟨p', c⟩, hall, hchecked⟩ := Refusal.bind_eq_ok_iff.mp h
  dsimp only at hchecked
  split at hchecked
  next =>
    obtain rfl := Except.ok.inj hchecked
    exact Binary.length_of_decodeAll hall
  next => cases hchecked

/-- What is read can be written, whatever the bytes that were skipped have been. It has as many bytes as before
and is read as the same program. -/
theorem Program.encode_of_decode {bytes : Bytes} {p : Program} (h : decode bytes = .ok p) :
    ∃ canonical, p.encode = .ok canonical ∧ canonical.length = bytes.length ∧ decode canonical = .ok p := by
  have valid : p.validate = .ok () := validate_of_decode h
  obtain ⟨sections, hencode, hreads⟩ :=
    Binary.encode_sections p (validate_eq_ok_iff.mp valid) (length_of_decode h).2
  have hdecode := decode_of_reads valid hreads
  exact ⟨_, hencode, (length_of_decode hdecode).1.trans (length_of_decode h).1.symm, hdecode⟩

/-- A binary form of a later minor version, with something in all bytes that are skipped. -/
def Binary.soiled : Bytes :=
  [0x42, 0x48, 0x56, 0x50, 1, 0, 9, 0] ++
  [1, 0, 0, 0, 0, 0, 0, 0, 5, 255, 255, 255, 255, 255, 255, 255] ++
  [3, 0, 0, 0, 255, 255, 255, 255] ++
  [0, 255, 255, 255, 255, 255, 255, 255, 1, 255, 2, 0, 255, 255, 255, 255, 12, 7, 0, 0, 255, 255, 255, 255] ++
  Bytes.zeros 48 ++
  [0, 0, 0, 0, 255, 255, 255, 255, 0, 0, 0, 0, 255, 255, 255, 255, 0, 0, 0, 0, 255, 255, 255, 255] ++
  [0, 0, 0, 0, 255, 255, 255, 255] ++ [0, 0, 0, 0, 255, 255, 255, 255] ++ [0, 0, 0, 0, 255, 255, 255, 255]

def Program.idler : Program where
  expressions := ⟨[5], #[]⟩
  entries := #[.ofNode .nop, .ofNode (.root ⟨2⟩), .ofNode (.threadRoot ⟨0⟩ true)]
  types := #[]
  lookups := #[]
  blackboardSize := 0

theorem Program.decode_soiled : decode Binary.soiled = .ok idler := rfl

theorem Program.encode_of_decode_soiled : decode Binary.soiled = .ok idler ∧ ∃ canonical,
    idler.encode = .ok canonical ∧ canonical.length = Binary.soiled.length ∧ decode canonical = .ok idler :=
  ⟨decode_soiled, encode_of_decode decode_soiled⟩

end BehaviorTree
