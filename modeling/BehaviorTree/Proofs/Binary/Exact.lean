import BehaviorTree.Proofs.Binary.Canonical

/-! Exact consumption. A reader that comes to a value has gone by the bytes that it took and by nothing else: whatever
follows them, it comes to the same value, and with one of them missing it is out of input. A program is therefore
read from one input only among all that begin with the same bytes. -/

namespace BehaviorTree

namespace Binary.Reader

variable {α β : Type}

/-- At offset `k` the reader takes just these bytes for this value, whatever follows them, and is out of input if the
bytes are cut short. -/
structure Consumes (r : Reader α) (k : Nat) (taken : Bytes) (a : α) : Prop where
  run : ∀ rest, r ⟨taken ++ rest, k⟩ = .ok (a, ⟨rest, k + taken.length⟩)
  short : ∀ n < taken.length, r ⟨taken.take n, k⟩ = .error .unexpectedEnd

/-- Whenever the reader comes to a value, it has gone by the bytes that it took. -/
def Exact (r : Reader α) : Prop :=
  ∀ rest k a c, r ⟨rest, k⟩ = .ok (a, c) → ∃ taken, rest = taken ++ c.rest ∧ r.Consumes k taken a

theorem bind_of_error {r : Reader α} {c : Cursor} {e : DecodeError} (h : r c = .error e) (f : α → Reader β) :
    (r >>= f) c = .error e := by
  rw [bind_apply, h]
  rfl

/-- What is missing is missing from the second part, unless it is missing from the first. -/
theorem Consumes.bind {r : Reader α} {f : α → Reader β} {k : Nat} {taken more : Bytes} {a : α} {b : β}
    (h : r.Consumes k taken a) (hf : (f a).Consumes (k + taken.length) more b) :
    (r >>= f).Consumes k (taken ++ more) b where
  run rest := by
    rw [List.append_assoc, bind_of_ok (h.run _), hf.run, List.length_append, Nat.add_assoc]
  short n hn := by
    rw [List.length_append] at hn
    by_cases hfirst : n < taken.length
    · rw [List.take_append_of_le_length (by omega)]
      exact bind_of_error (h.short n hfirst) f
    · rw [List.take_append, List.take_of_length_le (by omega), bind_of_ok (h.run _)]
      exact hf.short _ (by omega)

namespace Exact

theorem pure (a : α) : (Pure.pure a : Reader α).Exact := by
  intro rest k b c h
  obtain ⟨rfl, rfl⟩ := Prod.mk.inj (Except.ok.inj h)
  exact ⟨[], rfl, fun _ => rfl, fun n hn => absurd hn (Nat.not_lt_zero n)⟩

theorem throw (e : DecodeError) : (MonadExcept.throw e : Reader α).Exact :=
  fun _ _ _ _ h => nomatch h

theorem bind {r : Reader α} {f : α → Reader β} (h : r.Exact) (hf : ∀ a, (f a).Exact) : (r >>= f).Exact := by
  intro rest k b c hrun
  obtain ⟨a, c₁, hr, hlater⟩ := bind_eq_ok hrun
  obtain ⟨taken, rfl, consumes⟩ := h rest k a c₁ hr
  have hc₁ : c₁ = ⟨c₁.rest, k + taken.length⟩ := by
    rw [consumes.run] at hr
    exact (Prod.mk.inj (Except.ok.inj hr)).2.symm
  rw [hc₁] at hlater
  obtain ⟨more, hrest, consumes'⟩ := hf a c₁.rest _ b c hlater
  exact ⟨taken ++ more, by rw [hrest, List.append_assoc], consumes.bind consumes'⟩

/-! ### Primitive readers -/

theorem take (count : Nat) : (Reader.take count).Exact := by
  intro rest k bytes c h
  unfold Reader.take at h
  dsimp only at h
  split_ifs at h with hcount
  obtain ⟨rfl, rfl⟩ := Prod.mk.inj (Except.ok.inj h)
  refine ⟨rest.take count, (List.take_append_drop count rest).symm, fun other => ?_, fun n hn => ?_⟩
  · have hrun := take_append (rest.take count) other k
    rwa [hcount] at hrun ⊢
  · rw [hcount] at hn
    have hlength : ((rest.take count).take n).length < count :=
      (List.length_take_le n _).trans_lt hn
    rw [Reader.take, List.take_of_length_le hlength.le, if_neg hlength.ne]

theorem number (width : Nat) : (Reader.number width).Exact :=
  (take width).bind fun _ => .pure _

theorem word8 : Reader.word8.Exact :=
  (number 1).bind fun _ => .pure _

theorem word16 : Reader.word16.Exact :=
  (number 2).bind fun _ => .pure _

theorem word32 : Reader.word32.Exact :=
  (number 4).bind fun _ => .pure _

theorem word64 : Reader.word64.Exact :=
  (number 8).bind fun _ => .pure _

/-- The padding depends on the offset, which is the same in both inputs. -/
theorem align : Reader.align.Exact := by
  intro rest k _ c h
  obtain ⟨⟨skipped, c'⟩, htake, hc⟩ := Refusal.map_eq_ok_iff.mp h
  obtain ⟨-, rfl⟩ := Prod.mk.inj hc
  obtain ⟨taken, hrest, consumes⟩ := take _ rest k skipped c' htake
  refine ⟨taken, hrest, fun other => ?_, fun n hn => ?_⟩
  · rw [Reader.align, consumes.run]
    rfl
  · rw [Reader.align, consumes.short n hn]
    rfl

theorem tagged (field : TagField) (ofTag? : UInt8 → Option α) : (Reader.tagged field ofTag?).Exact :=
  word8.bind fun tag => by
    cases ofTag? tag with
    | none => exact .throw _
    | some a => exact .pure a

theorem head : Reader.head.Exact :=
  (number 4).bind fun _ => word32.bind fun _ => .pure _

/-- A list is read as one reader after another. -/
theorem many {item : Reader α} (h : item.Exact) (count : Nat) : (Reader.many count item).Exact := by
  have hinto (reversed : List α) : Reader.Exact (Reader.manyInto item count reversed) := by
    induction count generalizing reversed with
    | zero => exact pure reversed.reverse
    | succ count ih =>
      have hcons : (Reader.manyInto item (count + 1) reversed : Reader (List α)) =
          item >>= fun a => Reader.manyInto item count (a :: reversed) := by
        funext c
        rw [Reader.manyInto, bind_apply]
        cases item c <;> rfl
      rw [hcons]
      exact h.bind fun a => ih (a :: reversed)
  exact hinto []

end Exact

end Binary.Reader

namespace Binary

open Reader

/-! ### Records -/

theorem exact_ref : decodeRef.Exact :=
  Exact.word8.bind fun _ => Exact.word8.bind fun _ => Exact.word16.bind fun _ => Exact.word32.bind fun _ => by
    split
    · exact .pure _
    · exact .pure _
    · exact .throw _

theorem exact_valueType : decodeValueType.Exact :=
  .tagged _ _

theorem exact_slot : decodeSlot.Exact :=
  Exact.word32.bind fun _ => exact_valueType.bind fun _ => .pure _

theorem exact_nodeId : decodeNodeId.Exact :=
  Exact.word16.bind fun _ => .pure _

/-- Two operands at the end of an operation. -/
theorem exact_operands (f : ValueRef → ValueRef → Operation) :
    (do let lhs ← decodeRef; return f lhs (← decodeRef) : Reader Operation).Exact :=
  exact_ref.bind fun _ => exact_ref.bind fun _ => .pure _

theorem exact_operationOf (tag : UInt8) : (decodeOperationOf tag).Exact := by
  unfold decodeOperationOf
  split
  · exact exact_valueType.bind fun _ => Exact.word16.bind fun _ => Exact.word16.bind fun _ => .pure _
  · exact exact_valueType.bind fun _ => Exact.word16.bind fun _ => Exact.word16.bind fun _ => .pure _
  · exact Exact.word8.bind fun _ => exact_slot.bind fun _ => .pure _
  · exact Exact.align.bind fun _ => exact_ref.bind fun _ => .pure _
  · exact Exact.align.bind fun _ => exact_operands _
  · exact Exact.align.bind fun _ => exact_operands _
  · exact (Exact.tagged _ _).bind fun _ => exact_valueType.bind fun _ => Exact.align.bind fun _ => exact_operands _
  · exact (Exact.tagged _ _).bind fun _ => exact_valueType.bind fun _ => Exact.align.bind fun _ => exact_operands _
  · exact .throw _

theorem exact_operation : decodeOperation.Exact :=
  Exact.word8.bind fun tag => (exact_operationOf tag).bind fun _ => Exact.align.bind fun _ => .pure _

theorem exact_branch : decodeBranch.Exact :=
  exact_ref.bind fun _ => exact_nodeId.bind fun _ => Exact.align.bind fun _ => .pure _

theorem exact_write : decodeWrite.Exact :=
  Exact.word16.bind fun _ => Exact.word16.bind fun _ => Exact.word32.bind fun _ => exact_ref.bind fun _ => .pure _

theorem exact_payload (kind : NodeKind) : (decodePayload kind).Exact := by
  cases kind with
  | nop => exact .pure _
  | fail => exact .pure _
  | root => exact Exact.word8.bind fun _ => exact_nodeId.bind fun _ => .pure _
  | «catch» => exact Exact.word8.bind fun _ => exact_nodeId.bind fun _ => .pure _
  | threadRoot => exact Exact.word8.bind fun _ => exact_nodeId.bind fun _ => .pure _
  | sequence =>
    exact Exact.word8.bind fun _ => (Exact.number 2).bind fun count => (exact_nodeId.many count).bind fun _ => .pure _
  | selector =>
    exact Exact.word8.bind fun _ => (Exact.number 2).bind fun count => Exact.align.bind fun _ =>
      (exact_branch.many count).bind fun _ => .pure _
  | writeField =>
    exact Exact.word8.bind fun _ => Exact.word16.bind fun _ => (Exact.number 2).bind fun count =>
      Exact.align.bind fun _ => (exact_write.many count).bind fun _ => .pure _
  | wait =>
    refine Exact.word8.bind fun mode => Exact.align.bind fun _ => exact_ref.bind fun value => ?_
    split
    · exact .pure _
    · exact .pure _
    · exact .throw _
  | optional =>
    exact Exact.word8.bind fun _ => exact_nodeId.bind fun _ => Exact.align.bind fun _ => exact_ref.bind fun _ => .pure _
  | writeVar =>
    exact Exact.word8.bind fun _ => Exact.word16.bind fun _ => exact_slot.bind fun _ => Exact.align.bind fun _ =>
      exact_ref.bind fun _ => .pure _
  | query => exact Exact.word8.bind fun _ => Exact.word16.bind fun _ => exact_slot.bind fun _ => .pure _
  | parallel => exact Exact.word8.bind fun _ => exact_nodeId.bind fun _ => exact_nodeId.bind fun _ => .pure _

theorem exact_node : decodeNode.Exact :=
  (Exact.tagged _ _).bind fun kind => (exact_payload kind).bind fun _ => Exact.align.bind fun _ => .pure _

theorem exact_debugId : decodeDebugId.Exact :=
  Exact.word64.bind fun _ => Exact.word64.bind fun _ => .pure _

theorem exact_path : decodePath.Exact :=
  Exact.head.bind fun count => Exact.word64.many count

/-- The name is looked at when all of it has been taken. -/
theorem exact_type : decodeType.Exact :=
  Exact.word64.bind fun _ => Exact.word16.bind fun _ => (Exact.number 2).bind fun length =>
    (Exact.take length).bind fun _ => by
      split
      · exact .throw _
      · exact Exact.align.bind fun _ => .pure _

theorem exact_lookup : decodeLookup.Exact :=
  Exact.word8.bind fun _ => Exact.align.bind fun _ => by
    split
    · exact .pure _
    · exact exact_type.bind fun _ => .pure _
    · exact .throw _

/-! ### Sections -/

theorem exact_expressions : decodeExpressions.Exact :=
  (Exact.number 4).bind fun pool => (Exact.number 4).bind fun count => (Exact.take pool).bind fun _ =>
    Exact.align.bind fun _ => (exact_operation.many count).bind fun _ => .pure _

theorem exact_sections : decodeSections.Exact :=
  exact_expressions.bind fun _ => Exact.head.bind fun count => (exact_node.many count).bind fun _ =>
    (exact_debugId.many count).bind fun _ => (exact_path.many count).bind fun _ =>
    Exact.head.bind fun types => (exact_type.many types).bind fun _ =>
    Exact.head.bind fun lookups => (exact_lookup.many lookups).bind fun _ =>
    Exact.word32.bind fun _ => Exact.align.bind fun _ => .pure _

theorem exact_header : decodeHeader.Exact := by
  have hversion : (do
      let major ← Reader.word16
      let minor ← Reader.word16
      unless major = versionMajor do throw (.unsupportedVersion major minor) : Reader Unit).Exact := by
    refine Exact.word16.bind fun major => Exact.word16.bind fun minor => ?_
    split
    · exact .pure _
    · exact .throw _
  refine (Exact.take 4).bind fun bytes => ?_
  dsimp only
  split
  · exact hversion
  · exact (Exact.throw _).bind fun _ => hversion

/-- What is left behind the sections is counted. -/
def finish (program : Program) : Reader Program := do
  let cursor ← get
  unless cursor.rest = [] do throw (.trailingBytes cursor.rest.length)
  return program

theorem decodeAll_eq : decodeAll = (decodeHeader >>= fun _ => decodeSections) >>= finish :=
  (bind_assoc _ _ _).symm

theorem finish_apply (program : Program) (c : Cursor) : finish program c =
    if c.rest = [] then .ok (program, c) else .error (.trailingBytes c.rest.length) := by
  rw [finish, bind_of_ok (show (get : Reader Cursor) c = .ok (c, c) from rfl)]
  split_ifs with h <;> rfl

/-- An accepted input is what the header and the sections take. -/
theorem consumes_of_decodeAll {bytes : Bytes} {p : Program} {c : Cursor} (h : decodeAll ⟨bytes, 0⟩ = .ok (p, c)) :
    (decodeHeader >>= fun _ => decodeSections).Consumes 0 bytes p := by
  rw [decodeAll_eq] at h
  obtain ⟨p', c', hread, hfinish⟩ := bind_eq_ok h
  rw [finish_apply] at hfinish
  split_ifs at hfinish with hrest
  obtain ⟨rfl, rfl⟩ := Prod.mk.inj (Except.ok.inj hfinish)
  obtain ⟨taken, rfl, consumes⟩ := (exact_header.bind fun _ => exact_sections) bytes 0 p' c' hread
  rwa [hrest, List.append_nil]

end Binary

open Binary Reader in
/-- The input of a program is read exactly: an input that is cut short ends unexpectedly, and one that goes on has
trailing bytes, whatever they are. -/
theorem Program.decode_exact {bytes : Bytes} {p : Program} (h : decode bytes = .ok p) :
    (∀ n < bytes.length, decode (bytes.take n) = .error .unexpectedEnd) ∧
      ∀ extra ≠ [], decode (bytes ++ extra) = .error (.trailingBytes extra.length) := by
  obtain ⟨⟨p', c⟩, hall, -⟩ := Refusal.bind_eq_ok_iff.mp h
  have consumes := consumes_of_decodeAll hall
  constructor
  · intro n hn
    have hshort : decodeAll ⟨bytes.take n, 0⟩ = .error .unexpectedEnd := by
      rw [decodeAll_eq, bind_of_error (consumes.short n hn)]
    rw [decode, hshort]
    rfl
  · intro extra hextra
    have hlong : decodeAll ⟨bytes ++ extra, 0⟩ = .error (.trailingBytes extra.length) := by
      rw [decodeAll_eq, bind_of_ok (consumes.run extra), finish_apply, if_neg hextra]
    rw [decode, hlong]
    rfl

/-- Every beginning of a binary form with something in all skipped bytes, and one more byte. -/
theorem Program.decode_exact_soiled : decode Binary.soiled = .ok idler ∧ Binary.soiled.length = 152 ∧
    (∀ n < 152, decode (Binary.soiled.take n) = .error .unexpectedEnd) ∧
      decode (Binary.soiled ++ [0]) = .error (.trailingBytes 1) :=
  ⟨decode_soiled, rfl, (decode_exact decode_soiled).1, (decode_exact decode_soiled).2 [0] (by decide)⟩

end BehaviorTree
