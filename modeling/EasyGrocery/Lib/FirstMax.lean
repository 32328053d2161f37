import Mathlib.Order.Lattice
import Mathlib.Data.Nat.Notation

/-! # The first maximum of a list

The loop that keeps the best element seen so far and replaces it only by a better one finds the
first maximum: `foldl_better` gives its result for any score to start from, `foldl_better_first`
for a score that no element falls below, where the loop may start with the head of the list
without looking at it. -/

namespace FirstMax

variable {α β : Type*} [LinearOrder β] (f : α → β)

/-- `a`, at index `i`, is the first of the elements of `l` with the greatest `f`. -/
structure IsFirstMax (l : List α) (i : ℕ) (a : α) : Prop where
  get : l[i]? = some a
  max : ∀ (j : ℕ) (b : α), l[j]? = some b → f b ≤ f a
  first : ∀ (j : ℕ) (b : α), j < i → l[j]? = some b → f b < f a

/-- One round of the loop, on the best score and its element. -/
def better (best : β × α) (a : α) : β × α := if f a > best.1 then (f a, a) else best

variable {f}

theorem IsFirstMax.mem {l : List α} {i : ℕ} {a : α} (h : IsFirstMax f l i a) : a ∈ l :=
  List.mem_of_getElem? h.get

/-- A first maximum of the tail that beats the head. -/
theorem IsFirstMax.cons {l : List α} {i : ℕ} {a x : α} (h : IsFirstMax f l i a) (hx : f x < f a) :
    IsFirstMax f (x :: l) (i + 1) a where
  get := h.get
  max := by
    rintro (_ | j) b hb
    · exact Option.some.inj hb ▸ hx.le
    · exact h.max j b hb
  first := by
    rintro (_ | j) b hj hb
    · exact Option.some.inj hb ▸ hx
    · exact h.first j b (Nat.lt_of_succ_lt_succ hj) hb

/-- The head, when nothing in the tail beats it. -/
theorem isFirstMax_head {l : List α} {x : α} (h : ∀ b ∈ l, f b ≤ f x) :
    IsFirstMax f (x :: l) 0 x where
  get := rfl
  max := by
    rintro (_ | j) b hb
    · exact Option.some.inj hb ▸ le_rfl
    · exact h b (List.mem_of_getElem? hb)
  first := fun _ _ hj => absurd hj (Nat.not_lt_zero _)

/-- Among equals the first maximum is the head. -/
theorem IsFirstMax.eq_zero {l : List α} {i : ℕ} {a : α} (h : IsFirstMax f l i a)
    (heq : ∀ b ∈ l, ∀ c ∈ l, f b = f c) : i = 0 := by
  by_contra hi
  obtain ⟨b, hb⟩ : ∃ b, l[0]? = some b :=
    ⟨_, List.getElem?_eq_getElem (List.length_pos_of_mem h.mem)⟩
  exact (h.first 0 b (Nat.pos_of_ne_zero hi) hb).ne (heq b (List.mem_of_getElem? hb) a h.mem)

/-- **The loop, from any start.**  Either no element beats the score to start from, which then
stays, or the loop ends with the first maximum. -/
theorem foldl_better (l : List α) (s : β) (a₀ : α) :
    ((∀ b ∈ l, f b ≤ s) ∧ l.foldl (better f) (s, a₀) = (s, a₀)) ∨
      ∃ i a, IsFirstMax f l i a ∧ s < f a ∧ l.foldl (better f) (s, a₀) = (f a, a) := by
  induction l generalizing s a₀ with
  | nil => exact .inl ⟨nofun, rfl⟩
  | cons x l ih =>
      rw [List.foldl_cons]
      by_cases hx : f x > s
      · rw [better, if_pos hx]
        rcases ih (f x) x with ⟨hle, hf⟩ | ⟨i, a, ha, hlt, hf⟩
        · exact .inr ⟨0, x, isFirstMax_head hle, hx, hf⟩
        · exact .inr ⟨i + 1, a, ha.cons hlt, hx.trans hlt, hf⟩
      · rw [better, if_neg hx]
        rcases ih s a₀ with ⟨hle, hf⟩ | ⟨i, a, ha, hlt, hf⟩
        · exact .inl ⟨List.forall_mem_cons.mpr ⟨not_lt.mp hx, hle⟩, hf⟩
        · exact .inr ⟨i + 1, a, ha.cons ((not_lt.mp hx).trans_lt hlt), hlt, hf⟩

/-- **The loop finds the first maximum** when it starts from the head and from a score that no
element falls below. -/
theorem foldl_better_first {l : List α} {x : α} {s : β} (h : ∀ b ∈ x :: l, s ≤ f b) :
    ∃ i a, IsFirstMax f (x :: l) i a ∧ ((x :: l).foldl (better f) (s, x)).2 = a := by
  rcases foldl_better (x :: l) s x with ⟨hle, hf⟩ | ⟨i, a, ha, -, hf⟩
  · refine ⟨0, x, isFirstMax_head fun b hb => ?_, by rw [hf]⟩
    exact (hle b (List.mem_cons_of_mem x hb)).trans (h x List.mem_cons_self)
  · exact ⟨i, a, ha, by rw [hf]⟩

end FirstMax
