import EasyGrocery.Lib.FirstMax
import EasyGrocery.Server.Values
import Mathlib.Order.WithBot
import Mathlib.Tactic.Positivity

/-! # The most similar row (`compareSimilarity`, `findMostSimilar`)

Scores are exact; a score over two empty strings is a division by zero and counts as infinite
(`⊤`), since the two share their one empty word.  `toLowerCase` stays a parameter.

The process-wide variables that `compareSimilarity` assigns have no effect on the result
(`findMostSimilar_snd`), which is the first of the rows with the greatest score, name and price
of one row together (`findMostSimilar_firstMax`). -/

namespace EasyGrocery.Server

open FirstMax

variable {P : Type} (toLowerCase : String → String)

/-- `compareSimilarity(target, other)` -/
def compareSimilarity (g : Globals P) (target other : String) : Globals P × WithTop ℚ :=
  let l1 := length target
  let l2 := length other
  let half : ℚ := (l1 + l2) / 2
  let count := 0
  let g := { g with lowerTarget := toLowerCase target }
  let g := { g with lowerOther := toLowerCase other }
  let g := { g with targetWords := split g.lowerTarget }
  let g := { g with otherWords := split g.lowerOther }
  let count := g.otherWords.foldl
    (fun count other => if g.targetWords.contains other then count + 1 else count) count
  let value : WithTop ℚ := if half = 0 then ⊤ else ((count / half : ℚ) : WithTop ℚ)
  (g, value)

/-- The variables of the loop in `findMostSimilar`. -/
structure Best (P : Type) where
  score : WithTop ℚ
  simName : String
  simPrice : P

/-- One round of the loop. -/
def compareRow (target : String) (s : Globals P × Best P) (row : Row P) : Globals P × Best P :=
  let item := row.ProductName
  let (g, sc) := compareSimilarity toLowerCase s.1 target item
  if sc > s.2.score then (g, ⟨sc, item, row.ProductPrice⟩) else (g, s.2)

/-- `findMostSimilar(target, results)` -/
def findMostSimilar (g : Globals P) (target : String) (results : List (Row P)) :
    Globals P × MostSimilar P :=
  match results with
  | [] => (g, .null)
  | first :: _ =>
      let (g, best) := results.foldl (compareRow toLowerCase target)
        (g, ⟨0, first.ProductName, first.ProductPrice⟩)
      (g, .values best.simName best.simPrice)

/-! ### Without the process-wide variables -/

/-- The similarity alone. -/
def similarity (target other : String) : WithTop ℚ :=
  let half : ℚ := (length target + length other) / 2
  let count := (split (toLowerCase other)).foldl
    (fun count other => if (split (toLowerCase target)).contains other then count + 1 else count) 0
  if half = 0 then ⊤ else ((count / half : ℚ) : WithTop ℚ)

theorem compareSimilarity_snd (g : Globals P) (target other : String) :
    (compareSimilarity toLowerCase g target other).2 = similarity toLowerCase target other := rfl

def betterRow (target : String) (best : Best P) (row : Row P) : Best P :=
  if similarity toLowerCase target row.ProductName > best.score then
    ⟨similarity toLowerCase target row.ProductName, row.ProductName, row.ProductPrice⟩
  else best

/-- What `findMostSimilar` returns. -/
def mostSimilar (target : String) (results : List (Row P)) : MostSimilar P :=
  match results with
  | [] => .null
  | first :: _ =>
      let best := results.foldl (betterRow toLowerCase target)
        ⟨0, first.ProductName, first.ProductPrice⟩
      .values best.simName best.simPrice

theorem foldl_compareRow (target : String) (g : Globals P) (best : Best P) (rows : List (Row P)) :
    (rows.foldl (compareRow toLowerCase target) (g, best)).2 =
      rows.foldl (betterRow toLowerCase target) best := by
  induction rows generalizing g best with
  | nil => rfl
  | cons row rows ih =>
      have hrow : compareRow toLowerCase target (g, best) row =
          ((compareSimilarity toLowerCase g target row.ProductName).1,
            betterRow toLowerCase target best row) := by
        by_cases h : similarity toLowerCase target row.ProductName > best.score <;>
          simp [compareRow, compareSimilarity_snd, betterRow, h]
      rw [List.foldl_cons, List.foldl_cons, hrow, ih]

theorem findMostSimilar_snd (g : Globals P) (target : String) (results : List (Row P)) :
    (findMostSimilar toLowerCase g target results).2 = mostSimilar toLowerCase target results := by
  cases results with
  | nil => rfl
  | cons first rows =>
      simp only [findMostSimilar, mostSimilar]
      rw [foldl_compareRow]

/-! ### The result is the first maximum -/

/-- A loop state whose name and price are those of one row. -/
def Best.ofRow (best : WithTop ℚ × Row P) : Best P :=
  ⟨best.1, best.2.ProductName, best.2.ProductPrice⟩

/-- The loop of `findMostSimilar` is the loop that keeps the best row. -/
theorem foldl_betterRow (target : String) (rows : List (Row P)) (best : WithTop ℚ × Row P) :
    rows.foldl (betterRow toLowerCase target) (.ofRow best) =
      .ofRow (rows.foldl (better fun row => similarity toLowerCase target row.ProductName) best) := by
  refine List.foldl_hom Best.ofRow (fun best row => ?_)
  unfold betterRow better Best.ofRow
  split_ifs <;> rfl

/-- How many words of `other`, a repeated one each time, are words of `target`. -/
def commonWords (target other : String) : ℕ :=
  (split (toLowerCase other)).countP (split (toLowerCase target)).contains

/-- A loop that counts is `countP`. -/
theorem foldl_count {α : Type*} (p : α → Bool) (l : List α) (n : ℚ) :
    l.foldl (fun count a => if p a then count + 1 else count) n = n + l.countP p := by
  induction l generalizing n with
  | nil => simp
  | cons a l ih =>
      rw [List.foldl_cons, ih, List.countP_cons]
      cases p a with
      | true => push_cast; simp only [if_true]; ring
      | false => simp

theorem similarity_eq (target other : String) :
    similarity toLowerCase target other =
      if ((length target + length other : ℚ) / 2 = 0) then ⊤
      else ((commonWords toLowerCase target other / ((length target + length other) / 2) : ℚ) :
        WithTop ℚ) := by
  unfold similarity commonWords
  simp only [foldl_count, zero_add]

theorem similarity_nonneg (target other : String) : 0 ≤ similarity toLowerCase target other := by
  rw [similarity_eq]
  split_ifs with h
  · exact le_top
  · rw [WithTop.coe_nonneg]
    positivity

theorem mostSimilar_firstMax (target : String) {results : List (Row P)} (h : results ≠ []) :
    ∃ i row, IsFirstMax (fun row => similarity toLowerCase target row.ProductName) results i row ∧
      mostSimilar toLowerCase target results = .values row.ProductName row.ProductPrice := by
  obtain ⟨first, rows, rfl⟩ := List.exists_cons_of_ne_nil h
  obtain ⟨i, row, hrow, hbest⟩ := foldl_better_first
    (f := fun row : Row P => similarity toLowerCase target row.ProductName) (x := first) (l := rows)
    fun b _ => similarity_nonneg toLowerCase target b.ProductName
  refine ⟨i, row, hrow, ?_⟩
  have hloop := foldl_betterRow toLowerCase target (first :: rows) (0, first)
  rw [← hbest]
  simp only [mostSimilar]
  exact congrArg (fun best : Best P => MostSimilar.values best.simName best.simPrice) hloop

theorem mostSimilar_mem (target : String) {results : List (Row P)} (h : results ≠ []) :
    ∃ row ∈ results, mostSimilar toLowerCase target results =
      .values row.ProductName row.ProductPrice := by
  obtain ⟨i, row, hrow, hm⟩ := mostSimilar_firstMax toLowerCase target h
  exact ⟨row, hrow.mem, hm⟩

/-- **The best row, whole.**  `findMostSimilar` returns name and price of one row: the first of
those with the greatest similarity, hence the first row of all when every similarity is 0. -/
theorem findMostSimilar_firstMax (g : Globals P) (target : String) (results : List (Row P))
    (h : results ≠ []) :
    ∃ i row,
      IsFirstMax (fun row => (compareSimilarity toLowerCase g target row.ProductName).2) results
        i row ∧
      (findMostSimilar toLowerCase g target results).2 =
        .values row.ProductName row.ProductPrice ∧
      ((∀ row ∈ results, (compareSimilarity toLowerCase g target row.ProductName).2 = 0) →
        i = 0) := by
  obtain ⟨i, row, hrow, hm⟩ := mostSimilar_firstMax toLowerCase target h
  refine ⟨i, row, hrow, (findMostSimilar_snd toLowerCase g target results).trans hm, fun h0 => ?_⟩
  exact hrow.eq_zero fun b hb c hc => (h0 b hb).trans (h0 c hc).symm

/-- The first row, "whole milk", is not scored before the loop; the second one beats it. -/
theorem findMostSimilar_firstMax_milk :
    let rows : List (Row Decimal) :=
      [⟨"whole milk", ⟨399, 2⟩, ""⟩, ⟨"milk", ⟨299, 2⟩, ""⟩, ⟨"milk", ⟨199, 2⟩, ""⟩]
    ∃ i row,
      IsFirstMax (fun row => (compareSimilarity id (.init : Globals Decimal) "milk" row.ProductName).2)
        rows i row ∧
      (findMostSimilar id .init "milk" rows).2 = .values row.ProductName row.ProductPrice ∧
      ((∀ row ∈ rows,
        (compareSimilarity id (.init : Globals Decimal) "milk" row.ProductName).2 = 0) → i = 0) :=
  findMostSimilar_firstMax id .init "milk" _ (by simp)

end EasyGrocery.Server
