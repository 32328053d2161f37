import Mathlib.Algebra.GroupWithZero.Nat
import EasyGrocery.Lib.Words

/-! # LIKE

SQL's pattern matching with its default wildcards and escape: `%` stands for any run of
characters, `_` for any one, and a backslash takes the character after it as it is; at the end of
a pattern it is a character itself.  A pattern is read from its text first (`parse`) and matched
over any alphabet then, so that a collation may put characters together in between.

A pattern of words with a `%` around each matches the texts that hold the words in order
(`accepts_words`).  Of a pattern that says something else, `least` is a shortest text that it
matches, and what its characters weigh is bounded piece by piece (`Weights.append_le`). -/

namespace Like

open Words

inductive Item (α : Type*) where
  /-- any run of characters -/
  | run
  /-- any one character -/
  | one
  | lit (a : α)
deriving DecidableEq

variable {α β : Type*}

def Item.map (f : α → β) : Item α → Item β
  | run => run
  | one => one
  | lit a => lit (f a)

/-- A character that is not escaped. -/
def item (c : Char) : Item Char := if c = '%' then .run else if c = '_' then .one else .lit c

/-- The items of a pattern text. -/
def parse : List Char → List (Item Char)
  | [] => []
  | ['\\'] => [.lit '\\']
  | '\\' :: c :: p => .lit c :: parse p
  | c :: p => item c :: parse p

theorem parse_cons {c : Char} (hc : c ≠ '\\') (p : List Char) :
    parse (c :: p) = item c :: parse p := by
  rw [parse]
  · exact fun h _ => hc h
  · exact fun _ _ h _ => hc h

/-- The pattern `%w₁%w₂%…%`. -/
def words (ws : List (List α)) : List (Item α) := .run :: ws.flatMap fun w => w.map .lit ++ [.run]

theorem words_nil : words ([] : List (List α)) = [.run] := rfl

theorem words_cons (w : List α) (ws : List (List α)) :
    words (w :: ws) = .run :: (w.map .lit ++ words ws) := by
  simp [words]

theorem map_words (f : α → β) (ws : List (List α)) :
    (words ws).map (.map f) = words (ws.map (List.map f)) := by
  induction ws with
  | nil => rfl
  | cons w ws ih =>
      rw [List.map_cons, words_cons, words_cons, List.map_cons, List.map_append, ih, List.map_map,
        List.map_map]
      rfl

/-! ### Matching -/

section accepts

variable [DecidableEq α]

/-- The items match the whole of the list. -/
def accepts : List (Item α) → List α → Bool
  | [], l => l.isEmpty
  | .run :: p, l => l.tails.any (accepts p)
  | .one :: _, [] => false
  | .one :: p, _ :: l => accepts p l
  | .lit _ :: _, [] => false
  | .lit a :: p, b :: l => a = b && accepts p l

theorem accepts_run (p : List (Item α)) (l : List α) :
    accepts (.run :: p) l = true ↔ ∃ before after, l = before ++ after ∧ accepts p after = true := by
  rw [accepts, List.any_eq_true]
  constructor
  · rintro ⟨after, ht, h⟩
    obtain ⟨before, rfl⟩ := (List.mem_tails _ _).mp ht
    exact ⟨before, after, rfl, h⟩
  · rintro ⟨before, after, rfl, h⟩
    exact ⟨after, (List.mem_tails _ _).mpr (List.suffix_append _ _), h⟩

theorem accepts_lits (w : List α) (p : List (Item α)) (l : List α) :
    accepts (w.map .lit ++ p) l = true ↔ ∃ after, l = w ++ after ∧ accepts p after = true := by
  induction w generalizing l with
  | nil => simp
  | cons a w ih => cases l with
    | nil => simp [accepts]
    | cons b l =>
        rw [List.map_cons, List.cons_append, accepts, Bool.and_eq_true, decide_eq_true_eq, ih]
        constructor
        · rintro ⟨rfl, after, rfl, h⟩
          exact ⟨after, rfl, h⟩
        · rintro ⟨after, heq, h⟩
          obtain ⟨rfl, rfl⟩ := List.cons.inj heq
          exact ⟨rfl, after, rfl, h⟩

/-- **Words between runs** match the lists that hold the words in order. -/
theorem accepts_words (ws : List (List α)) (l : List α) :
    accepts (words ws) l = true ↔ InOrder ws l := by
  induction ws generalizing l with
  | nil =>
      rw [words_nil, accepts_run]
      exact iff_of_true ⟨l, [], by simp, rfl⟩ trivial
  | cons w ws ih =>
      rw [words_cons, accepts_run, InOrder]
      constructor
      · rintro ⟨before, l, rfl, hl⟩
        obtain ⟨after, rfl, h⟩ := (accepts_lits w _ l).mp hl
        exact ⟨before, after, rfl, (ih after).mp h⟩
      · rintro ⟨before, after, rfl, h⟩
        exact ⟨before, w ++ after, rfl, (accepts_lits w _ _).mpr ⟨after, rfl, (ih after).mpr h⟩⟩

example : accepts (parse "1\\% m_lk%".toList) "1% milk".toList = true ∧
    accepts (parse "1\\% m_lk%".toList) "10 malk".toList = false := by decide

end accepts

/-- The text of words without wildcards or backslashes. -/
theorem parse_words {ws : List (List Char)} (h : ∀ w ∈ ws, ∀ c ∈ w, c ≠ '\\' ∧ c ≠ '%' ∧ c ≠ '_') :
    parse ('%' :: ws.flatMap fun w => w ++ ['%']) = words ws := by
  have hrun (p : List Char) : parse ('%' :: p) = .run :: parse p := parse_cons (by decide) p
  have hword (w p : List Char) (hw : ∀ c ∈ w, c ≠ '\\' ∧ c ≠ '%' ∧ c ≠ '_') :
      parse (w ++ p) = w.map .lit ++ parse p := by
    induction w with
    | nil => rfl
    | cons c w ih =>
        obtain ⟨⟨hb, hp, hu⟩, hw⟩ := List.forall_mem_cons.mp hw
        rw [List.cons_append, parse_cons hb, ih hw, item, if_neg hp, if_neg hu]
        rfl
  induction ws with
  | nil => rfl
  | cons w ws ih =>
      obtain ⟨hw, hws⟩ := List.forall_mem_cons.mp h
      rw [List.flatMap_cons, List.append_assoc, List.singleton_append, hrun, hword w _ hw, ih hws,
        words_cons]

/-! ### A shortest text -/

/-- A shortest text that the items match, with `x` where any character would do. -/
def least (x : α) : List (Item α) → List α
  | [] => []
  | .run :: p => least x p
  | .one :: p => x :: least x p
  | .lit a :: p => a :: least x p

theorem accepts_least [DecidableEq β] (f : α → β) (x : α) (p : List (Item α)) :
    accepts (p.map (.map f)) ((least x p).map f) = true := by
  induction p with
  | nil => rfl
  | cons i p ih => cases i with
    | run => exact (accepts_run _ _).mpr ⟨[], _, rfl, ih⟩
    | one => exact ih
    | lit a => simpa [Item.map, least, accepts] using ih

section weight

variable (w : Char → ℕ) (x : Char)

/-- What the shortest text of a pattern weighs. -/
def weightLeast (p : List Char) : ℕ := ((least x (parse p)).map w).sum

variable {w x}

theorem weightLeast_cons {c : Char} (hc : c ≠ '\\') (p : List Char) :
    weightLeast w x (c :: p) = weightLeast w x [c] + weightLeast w x p := by
  unfold weightLeast
  rw [parse_cons hc, parse_cons hc, item]
  split_ifs <;> simp [least, parse]

theorem weightLeast_escape (c : Char) (p : List Char) :
    weightLeast w x ('\\' :: c :: p) = w c + weightLeast w x p := by
  simp [weightLeast, parse, least]

/-- `%` weighs nothing and `_` as much as `x`. -/
theorem weightLeast_singleton (c : Char) :
    weightLeast w x [c] = if c = '%' then 0 else if c = '_' then w x else w c := by
  by_cases hc : c = '\\'
  · subst hc; simp [weightLeast, parse, least]
  · unfold weightLeast
    rw [parse_cons hc, item]
    split_ifs <;> simp [least, parse]

/-- Weights for which a character in front of a wildcard is no lighter than what it makes of it. -/
structure Weights (w : Char → ℕ) (x : Char) : Prop where
  one : w x ≤ w '_'
  escape_run : w '%' ≤ w '\\'
  escape_one : w '_' ≤ w '\\' + w x

theorem Weights.singleton_le (h : Weights w x) (c : Char) : weightLeast w x [c] ≤ w c := by
  rw [weightLeast_singleton]
  split_ifs with hp hu
  · exact Nat.zero_le _
  · rw [hu]; exact h.one
  · exact le_rfl

/-- A character in front can only take the meaning of the one after it. -/
theorem Weights.cons_le (h : Weights w x) : ∀ (c : Char) (p : List Char),
    weightLeast w x (c :: p) ≤ w c + weightLeast w x p
  | c, [] => by
      have := h.singleton_le c
      omega
  | c, d :: p => by
      by_cases hc : c = '\\'
      · subst hc
        rw [weightLeast_escape]
        by_cases hd : d = '\\'
        · -- two backslashes: the second one escapes nothing any more
          subst hd
          have : weightLeast w x p ≤ weightLeast w x ('\\' :: p) := by
            cases p with
            | nil => exact Nat.zero_le _
            | cons e p =>
                rw [weightLeast_escape]
                exact h.cons_le e p
          omega
        · have hrun := h.escape_run
          have hone := h.escape_one
          rw [weightLeast_cons hd, weightLeast_singleton]
          split_ifs with hp hu
          · rw [hp]; omega
          · rw [hu]; omega
          · omega
      · rw [weightLeast_cons hc]
        have := h.singleton_le c
        omega

/-- Joining two texts can only take wildcards away. -/
theorem Weights.append_le (h : Weights w x) (p r : List Char) :
    weightLeast w x (p ++ r) ≤ weightLeast w x p + weightLeast w x r := by
  induction p using parse.induct with
  | case1 => exact Nat.le_add_left _ _
  | case2 =>
      have := h.cons_le '\\' r
      rw [weightLeast_singleton]
      exact this
  | case3 c p ih =>
      rw [List.cons_append, List.cons_append, weightLeast_escape, weightLeast_escape]
      omega
  | case4 c p h1 h2 ih =>
      have hc : c ≠ '\\' := by
        rintro rfl
        cases p with
        | nil => exact h1 rfl rfl
        | cons d p => exact h2 d p rfl rfl
      rw [List.cons_append, weightLeast_cons hc, weightLeast_cons hc p]
      omega

end weight

end Like
