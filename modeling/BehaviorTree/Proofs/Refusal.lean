import BehaviorTree.Fault
import Mathlib.Tactic

/-! Computations that may be refused: when a sequence of them, or a loop over a list, is not. -/

namespace BehaviorTree.Refusal

variable {ε α β : Type}

theorem bind_eq_ok_iff {x : Except ε α} {f : α → Except ε β} {b : β} :
    (x >>= f) = .ok b ↔ ∃ a, x = .ok a ∧ f a = .ok b := by
  cases x with
  | error e => exact ⟨fun h => (nomatch h), fun ⟨_, h, _⟩ => (nomatch h)⟩
  | ok a =>
    constructor
    · intro h
      exact ⟨a, rfl, h⟩
    · rintro ⟨_, ⟨⟩, h⟩
      exact h

theorem bind_eq_error_iff {x : Except ε α} {f : α → Except ε β} {e : ε} :
    (x >>= f) = .error e ↔ x = .error e ∨ ∃ a, x = .ok a ∧ f a = .error e := by
  cases x <;> simp [bind, Except.bind]

/-- A check that comes before something else. -/
theorem unit_bind_eq_ok_iff {x : Except ε Unit} {f : Unit → Except ε β} {b : β} :
    (x >>= f) = .ok b ↔ x = .ok () ∧ f () = .ok b := by
  rw [bind_eq_ok_iff]
  exact ⟨fun ⟨(), hx, hf⟩ => ⟨hx, hf⟩, fun ⟨hx, hf⟩ => ⟨(), hx, hf⟩⟩

theorem ite_eq_ok_iff {c : Prop} [Decidable c] {e : ε} {a b : α} :
    (if c then .ok a else .error e : Except ε α) = .ok b ↔ c ∧ a = b := by
  by_cases h : c <;> simp [h]

/-- A guard at the end. -/
theorem unless_eq_ok_iff {c : Prop} [Decidable c] {e : ε} :
    (if c then pure () else throw e : Except ε Unit) = .ok () ↔ c := by
  by_cases h : c <;> simp [h, throw, throwThe, MonadExceptOf.throw, pure, Except.pure]

/-- A guard before something else. -/
theorem unless_bind_eq_ok_iff {c : Prop} [Decidable c] {e : ε} {x : Except ε β} {f : α → Except ε β} {b : β} :
    (if c then x else (throw e : Except ε α) >>= f) = .ok b ↔ c ∧ x = .ok b := by
  by_cases h : c <;> simp [h, throw, throwThe, MonadExceptOf.throw, bind, Except.bind]

theorem map_eq_ok_iff {x : Except ε α} {f : α → β} {b : β} :
    x.map f = .ok b ↔ ∃ a, x = .ok a ∧ f a = b := by
  cases x <;> simp [Except.map]

theorem throw_eq_error_iff {e e' : ε} : (throw e : Except ε α) = .error e' ↔ e = e' := by
  simp [throw, throwThe, MonadExceptOf.throw]

@[simp] theorem throw_ne_ok {e : ε} {a : α} : (throw e : Except ε α) ≠ .ok a := by
  simp [throw, throwThe, MonadExceptOf.throw]

theorem forM_eq_ok_iff {f : α → Except ε Unit} {items : List α} :
    items.forM f = .ok () ↔ ∀ a ∈ items, f a = .ok () := by
  induction items with
  | nil => simp [List.forM_eq_forM, pure, Except.pure]
  | cons a items ih =>
    rw [List.forM_eq_forM, List.forM_cons, unit_bind_eq_ok_iff, ← List.forM_eq_forM, ih]
    simp

/-- A loop is refused where one of its items is. -/
theorem exists_of_forM_eq_error {f : α → Except ε Unit} {items : List α} {e : ε} (h : items.forM f = .error e) :
    ∃ a ∈ items, f a = .error e := by
  induction items with
  | nil => cases h
  | cons a items ih =>
    rw [List.forM_eq_forM, List.forM_cons, bind_eq_error_iff, ← List.forM_eq_forM] at h
    obtain h | ⟨-, -, h⟩ := h
    · exact ⟨a, List.mem_cons_self, h⟩
    · obtain ⟨b, hb, h⟩ := ih h
      exact ⟨b, List.mem_cons_of_mem _ hb, h⟩

/-- Both are refused for the same reason, or neither is and the results are related. -/
inductive Agree (rel : α → β → Prop) : Except ε α → Except ε β → Prop
  | error (e : ε) : Agree rel (.error e) (.error e)
  | ok {a : α} {b : β} (h : rel a b) : Agree rel (.ok a) (.ok b)

theorem Agree.map {α' β' : Type} {rel : α → β → Prop} {rel' : α' → β' → Prop} {f : α → α'} {g : β → β'}
    {x : Except ε α} {y : Except ε β} (h : Agree rel x y) (hrel : ∀ a b, rel a b → rel' (f a) (g b)) :
    Agree rel' (x.map f) (y.map g) := by
  cases h with
  | error e => exact .error e
  | ok h => exact .ok (hrel _ _ h)

theorem array_forM_toList (f : α → Except ε Unit) (items : Array α) : items.forM f = items.toList.forM f := by
  cases items with
  | mk list => simp

theorem array_forM_eq_ok_iff {f : α → Except ε Unit} {items : Array α} :
    items.forM f = .ok () ↔ ∀ a ∈ items, f a = .ok () := by
  rw [array_forM_toList, forM_eq_ok_iff]
  simp

end BehaviorTree.Refusal
