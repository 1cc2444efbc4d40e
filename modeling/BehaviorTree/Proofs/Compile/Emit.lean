import BehaviorTree.Compile.Emission
import BehaviorTree.Proofs.Refusal

/-! The bookkeeping of emission: errors are never taken back, the constant pool only grows, and a value that
was once interned stays where it is. -/

namespace BehaviorTree

theorem Constant.length_bytes (value : Constant) : value.bytes.length = value.type.size := by
  cases value <;> rfl

/-- The length of a constant has 16 bits. -/
theorem Constant.toNat_length (value : Constant) :
    (UInt16.ofNat value.bytes.length).toNat = value.bytes.length := by
  rw [value.length_bytes]
  cases value.type <;> rfl

theorem le_alignUp (n : Nat) (type : ValueType) : n ≤ alignUp n type.size := by
  cases type <;> simp only [alignUp, ValueType.size] <;> omega

namespace ConstantPool

/-- The value stands at the offset, at least as long as all offsets have 32 bits. -/
def Holds (bytes : Bytes) (offset : UInt32) (encoded : Bytes) : Prop :=
  offset.toNat + encoded.length ≤ bytes.length ∧
    (bytes.length < 2 ^ 32 → (bytes.drop offset.toNat).take encoded.length = encoded)

/-- A value stays where it is when the pool grows. -/
theorem Holds.mono {bytes bytes' encoded : Bytes} {offset : UInt32} (h : Holds bytes offset encoded)
    (hgrows : bytes <+: bytes') : Holds bytes' offset encoded := by
  obtain ⟨rest, rfl⟩ := hgrows
  obtain ⟨hle, hbytes⟩ := h
  rw [Holds, List.length_append]
  refine ⟨by omega, fun hsmall => ?_⟩
  rw [List.drop_append_of_le_length (by omega), List.take_append_of_le_length (by rw [List.length_drop]; omega)]
  exact hbytes (by omega)

/-- Every value on record is held by the pool. -/
def Formed (pool : ConstantPool) : Prop :=
  ∀ (encoded : Bytes) (offset : UInt32), pool.offsets[encoded]? = some offset → Holds pool.bytes.toList offset encoded

theorem formed_empty : empty.Formed := by
  simp [Formed, empty]

/-- What interning gives: the pool holds the value, and keeps what it has. -/
structure Interned (pool : ConstantPool) (value : Constant) (ref : ValueRef) (pool' : ConstantPool) : Prop where
  formed : pool'.Formed
  grows : pool.bytes.toList <+: pool'.bytes.toList
  ref : ∃ offset, ref = .constant offset (UInt16.ofNat value.bytes.length) ∧
    Holds pool'.bytes.toList offset value.bytes

/-- A new value comes after all others. -/
theorem holds_append (bytes : Bytes) (value : Constant) :
    Holds (bytes ++ List.replicate (alignUp bytes.length value.bytes.length - bytes.length) 0 ++ value.bytes)
      (UInt32.ofNat (alignUp bytes.length value.bytes.length)) value.bytes := by
  have hle : bytes.length ≤ alignUp bytes.length value.bytes.length := by
    rw [value.length_bytes]
    exact le_alignUp bytes.length value.type
  generalize alignUp bytes.length value.bytes.length = offset at hle
  have hplace : (bytes ++ List.replicate (offset - bytes.length) 0).length = offset := by
    rw [List.length_append, List.length_replicate]
    omega
  have hwrap : (UInt32.ofNat offset).toNat ≤ offset := by
    rw [UInt32.toNat_ofNat']
    exact Nat.mod_le _ _
  rw [Holds, List.length_append, hplace]
  refine ⟨by omega, fun hsmall => ?_⟩
  rw [UInt32.toNat_ofNat_of_lt' (show offset < 2 ^ 32 by omega), List.drop_left' hplace, List.take_length]

theorem interned_intern {pool : ConstantPool} (formed : pool.Formed) (value : Constant) :
    pool.Interned value (pool.intern value).1 (pool.intern value).2 := by
  unfold intern
  dsimp only
  split
  next offset h => exact ⟨formed, List.prefix_refl _, offset, rfl, formed _ _ h⟩
  next h =>
    have hbytes : (pool.bytes ++ Array.replicate (alignUp pool.bytes.size value.bytes.length - pool.bytes.size) 0 ++
        value.bytes.toArray).toList = pool.bytes.toList ++ List.replicate
          (alignUp pool.bytes.toList.length value.bytes.length - pool.bytes.toList.length) 0 ++ value.bytes := by
      simp
    have hnew := holds_append pool.bytes.toList value
    rw [← hbytes, Array.length_toList] at hnew
    have hgrows : pool.bytes.toList <+: (pool.bytes ++ Array.replicate
        (alignUp pool.bytes.size value.bytes.length - pool.bytes.size) 0 ++ value.bytes.toArray).toList := by
      rw [hbytes, List.append_assoc]
      exact List.prefix_append _ _
    refine ⟨?_, hgrows, _, rfl, hnew⟩
    intro encoded offset hoffset
    rw [Std.HashMap.getElem?_insert] at hoffset
    split_ifs at hoffset with hsame
    · obtain rfl := Option.some.inj hoffset
      obtain rfl := eq_of_beq hsame
      exact hnew
    · exact (formed encoded offset hoffset).mono hgrows

end ConstantPool

namespace Emit

variable {α β : Type} {final : Bytes}

theorem bind_eq_ok_iff {m : Emit α} {next : α → Emit β} {d d' : Draft} {b : β} :
    (m >>= next) d = .ok (b, d') ↔ ∃ a d₁, m d = .ok (a, d₁) ∧ next a d₁ = .ok (b, d') := by
  rw [show (m >>= next) d = (m d >>= fun r => next r.1 r.2) from rfl, Refusal.bind_eq_ok_iff]
  exact Prod.exists

/-- What the emission leaves behind if it ends without errors and with a pool that only grows up to `final`. -/
def Ensures (final : Bytes) (m : Emit α) (post : α → Prop) : Prop :=
  ∀ d a d', m d = .ok (a, d') → d.pool.Formed →
    d'.pool.Formed ∧ d.pool.bytes.toList <+: d'.pool.bytes.toList ∧
      (d'.errors = #[] → d.errors = #[] ∧ (d'.pool.bytes.toList <+: final → post a))

namespace Ensures

variable {m : Emit α} {post : α → Prop}

theorem pure {a : α} (h : post a) : (Pure.pure a : Emit α).Ensures final post := by
  intro d b d' hrun hformed
  obtain ⟨rfl, rfl⟩ := Prod.mk.inj (Except.ok.inj hrun)
  exact ⟨hformed, List.prefix_refl _, fun hclean => ⟨hclean, fun _ => h⟩⟩

/-- What holds of the first result is known in the end, since nothing is taken back. -/
theorem bind {next : α → Emit β} {last : β → Prop} (h : m.Ensures final post)
    (hnext : ∀ a, (next a).Ensures final fun b => post a → last b) : (m >>= next).Ensures final last := by
  intro d b d' hrun hformed
  obtain ⟨a, d₁, hfirst, hrest⟩ := bind_eq_ok_iff.mp hrun
  obtain ⟨hformed₁, hgrows₁, hpost₁⟩ := h d a d₁ hfirst hformed
  obtain ⟨hformed', hgrows', hpost'⟩ := hnext a d₁ b d' hrest hformed₁
  refine ⟨hformed', hgrows₁.trans hgrows', fun hclean => ?_⟩
  obtain ⟨hclean₁, hlast⟩ := hpost' hclean
  obtain ⟨hclean₀, hfirst⟩ := hpost₁ hclean₁
  exact ⟨hclean₀, fun hfinal => hlast hfinal (hfirst (hgrows'.trans hfinal))⟩

theorem mono {post' : α → Prop} (h : m.Ensures final post) (himp : ∀ a, post a → post' a) :
    m.Ensures final post' := by
  intro d a d' hrun hformed
  obtain ⟨hformed', hgrows, hpost⟩ := h d a d' hrun hformed
  exact ⟨hformed', hgrows, fun hclean => ⟨(hpost hclean).1, fun hfinal => himp a ((hpost hclean).2 hfinal)⟩⟩

/-- A loop over a list gives every item what one turn gives it. -/
theorem mapM {items : List α} {f : α → Emit β} {rel : α → β → Prop}
    (hf : ∀ a ∈ items, (f a).Ensures final (rel a)) :
    (items.mapM f).Ensures final (List.Forall₂ rel items) := by
  induction items with
  | nil =>
    rw [List.mapM_nil]
    exact pure .nil
  | cons a items ih =>
    rw [List.mapM_cons]
    refine bind (hf a (by simp)) fun b => ?_
    refine bind (ih fun a ha => hf a (by simp [ha])) fun bs => ?_
    exact pure fun hbs hb => .cons hb hbs

/-- An error is never taken back. -/
theorem report (e : CompileError) : (Emit.report e).Ensures final fun _ => False := by
  intro d a d' hrun hformed
  obtain ⟨-, rfl⟩ := Prod.mk.inj (Except.ok.inj hrun)
  exact ⟨hformed, List.prefix_refl _, fun hclean => by simp at hclean⟩

/-- A lookup along a wire is right if it leaves no errors on its trail. -/
theorem trailed {lookup : Except Fault (α × Trail)} :
    (Emit.trailed lookup).Ensures final fun a => ∃ trail, lookup = .ok (a, trail) ∧ trail.errors = [] := by
  cases lookup with
  | error fault =>
    intro d a d' hrun
    cases hrun
  | ok result =>
    obtain ⟨a, trail⟩ := result
    intro d b d' hrun hformed
    obtain ⟨rfl, rfl⟩ := Prod.mk.inj (Except.ok.inj hrun)
    refine ⟨hformed, List.prefix_refl _, fun hclean => ?_⟩
    have hlist : d.errors.toList ++ trail.errors = [] := by
      simpa using congrArg Array.toList hclean
    obtain ⟨herrors, htrail⟩ := List.append_eq_nil_iff.mp hlist
    exact ⟨by simpa using herrors, fun _ => ⟨trail, rfl, htrail⟩⟩

/-- The pool holds an interned value in the end. -/
theorem intern (value : Constant) : (Emit.intern value).Ensures final fun ref =>
    ∃ offset, ref = .constant offset (UInt16.ofNat value.bytes.length) ∧
      ConstantPool.Holds final offset value.bytes := by
  intro d ref d' hrun hformed
  obtain ⟨rfl, rfl⟩ := Prod.mk.inj (Except.ok.inj hrun)
  obtain ⟨hformed', hgrows, offset, href, holds⟩ := ConstantPool.interned_intern hformed value
  exact ⟨hformed', hgrows, fun hclean => ⟨hclean, fun hfinal => ⟨offset, href, holds.mono hfinal⟩⟩⟩

end Ensures

/-- What holds of the result, with or without errors. -/
def Returns (m : Emit α) (post : α → Prop) : Prop :=
  ∀ d a d', m d = .ok (a, d') → post a

namespace Returns

variable {m : Emit α} {post : α → Prop}

theorem any (m : Emit α) : m.Returns fun _ => True :=
  fun _ _ _ _ => trivial

theorem pure {a : α} (h : post a) : (Pure.pure a : Emit α).Returns post := by
  intro d b d' hrun
  obtain ⟨rfl, rfl⟩ := Prod.mk.inj (Except.ok.inj hrun)
  exact h

theorem bind {next : α → Emit β} {last : β → Prop} (h : m.Returns post) (hnext : ∀ a, post a → (next a).Returns last) :
    (m >>= next).Returns last := by
  intro d b d' hrun
  obtain ⟨a, d₁, hfirst, hrest⟩ := bind_eq_ok_iff.mp hrun
  exact hnext a (h d a d₁ hfirst) d₁ b d' hrest

/-- Whatever comes first. -/
theorem seq {next : α → Emit β} {last : β → Prop} (hnext : ∀ a, (next a).Returns last) : (m >>= next).Returns last :=
  (any m).bind fun a _ => hnext a

theorem mapM {items : List α} {f : α → Emit β} {rel : α → β → Prop} (hf : ∀ a ∈ items, (f a).Returns (rel a)) :
    (items.mapM f).Returns (List.Forall₂ rel items) := by
  induction items with
  | nil =>
    rw [List.mapM_nil]
    exact pure .nil
  | cons a items ih =>
    rw [List.mapM_cons]
    refine bind (hf a (by simp)) fun b hb => ?_
    exact bind (ih fun a ha => hf a (by simp [ha])) fun bs hbs => pure (.cons hb hbs)

theorem trailed (lookup : Except Fault (α × Trail)) :
    (Emit.trailed lookup).Returns fun a => ∃ trail, lookup = .ok (a, trail) := by
  intro d b d' hrun
  cases lookup with
  | error fault => cases hrun
  | ok result =>
    obtain ⟨rfl, -⟩ := Prod.mk.inj (Except.ok.inj hrun)
    exact ⟨result.2, rfl⟩

end Returns

variable {rel : α → β → Prop} {items : List α} {results : List β}

theorem getElem?_left (h : List.Forall₂ rel items results) {k : Nat} {a : α} (ha : items[k]? = some a) :
    ∃ b, results[k]? = some b ∧ rel a b := by
  induction h generalizing k with
  | nil => cases ha
  | @cons a' b items results hab h ih =>
    cases k with
    | zero =>
      obtain rfl := Option.some.inj ha
      exact ⟨b, rfl, hab⟩
    | succ k => exact ih ha

theorem getElem?_right (h : List.Forall₂ rel items results) {k : Nat} {b : β} (hb : results[k]? = some b) :
    ∃ a, items[k]? = some a ∧ rel a b := by
  have hlt := (List.getElem?_eq_some_iff.mp hb).1
  rw [← h.length_eq] at hlt
  obtain ⟨b', hb', hrel⟩ := getElem?_left h (List.getElem?_eq_getElem hlt)
  obtain rfl := Option.some.inj (hb.symm.trans hb')
  exact ⟨_, List.getElem?_eq_getElem hlt, hrel⟩

theorem exists_of_mem_right (h : List.Forall₂ rel items results) {b : β} (hb : b ∈ results) :
    ∃ a ∈ items, rel a b := by
  obtain ⟨k, hk⟩ := List.mem_iff_getElem?.mp hb
  obtain ⟨a, ha, hrel⟩ := getElem?_right h hk
  exact ⟨a, List.mem_of_getElem? ha, hrel⟩

/-- A loop all of whose turns give something. -/
theorem forall₂_filterMap {results : List (Option β)}
    (h : List.Forall₂ (fun a result => ∃ b, result = some b ∧ rel a b) items results) :
    List.Forall₂ rel items (results.filterMap id) := by
  induction h with
  | nil => exact .nil
  | @cons a result items results hab h ih =>
    obtain ⟨b, rfl, hab⟩ := hab
    exact .cons hab ih

end Emit

end BehaviorTree
