import EasyGrocery.Server.Similarity
import Mathlib.Tactic.FieldSimp

/-! # Full matches

A full match of a name is a row with the same lower-cased words, each as often, in any order.
The score divides the number of matching words by the mean length of the two names, so a full
match loses to a row that repeats words in fewer letters, and even to a shorter row that lacks
some of the words (`not_fullMatchNeverBeaten`).

`similarity_lt_iff` compares two scores by whole numbers.  `fullMatch_kept_iff` is the exact
condition under which a full match is returned, and what follows from it for rows that are no
shorter and have no more matching words than the name has words. -/

namespace EasyGrocery.Server

open FirstMax

variable {P : Type} (toLowerCase : String → String)

def lowerWords (s : String) : List String := split (toLowerCase s)

/-- `name` has exactly the words of `target`, in any order and case. -/
def FullMatch (target name : String) : Prop :=
  (lowerWords toLowerCase name).Perm (lowerWords toLowerCase target)

instance (target name : String) : Decidable (FullMatch toLowerCase target name) :=
  inferInstanceAs (Decidable (List.Perm _ _))

/-! ### Comparing scores -/

theorem units_ne_nil (c : Char) : units c ≠ [] := by
  unfold units
  split_ifs <;> simp

theorem eq_empty_of_length_eq_zero {s : String} (h : length s = 0) : s = "" := by
  have hs : s.toList = [] := by
    rw [List.eq_nil_iff_forall_not_mem]
    intro c hc
    have := List.flatMap_eq_nil_iff.mp (List.eq_nil_of_length_eq_zero h) c hc
    exact units_ne_nil c this
  exact String.toList_inj.mp hs

theorem split_ne_nil (s : String) : split s ≠ [] := by
  unfold split
  simp [List.splitOn_ne_nil]

theorem commonWords_self_pos (s : String) : 0 < commonWords toLowerCase s s := by
  unfold commonWords
  rw [List.countP_pos_iff]
  obtain ⟨w, hw⟩ := List.exists_mem_of_ne_nil _ (split_ne_nil (toLowerCase s))
  exact ⟨w, hw, List.contains_iff_mem.mpr hw⟩

/-- Two names without a character share their one empty word. -/
theorem commonWords_pos_of_length {s t : String} (hs : length s = 0) (ht : length t = 0) :
    0 < commonWords toLowerCase s t := by
  rw [eq_empty_of_length_eq_zero hs, eq_empty_of_length_eq_zero ht]
  exact commonWords_self_pos toLowerCase ""

/-- **Scores by cross-multiplication.**  This holds with a division by zero on either side. -/
theorem similarity_lt_iff (target a b : String) :
    similarity toLowerCase target a < similarity toLowerCase target b ↔
      commonWords toLowerCase target a * (length target + length b) <
        commonWords toLowerCase target b * (length target + length a) := by
  rw [similarity_eq, similarity_eq]
  have hzero : ∀ x : String, ((length target + length x : ℚ) / 2 = 0) ↔
      length target = 0 ∧ length x = 0 := fun x => by
    rw [div_eq_zero_iff, or_iff_left two_ne_zero, ← Nat.cast_add, Nat.cast_eq_zero, Nat.add_eq_zero_iff]
  by_cases ha : length target = 0 ∧ length a = 0
  · rw [if_pos ((hzero a).mpr ha)]
    simp [ha.1, ha.2]
  · rw [if_neg (mt (hzero a).mp ha)]
    have hpa : 0 < length target + length a := by omega
    by_cases hb : length target = 0 ∧ length b = 0
    · rw [if_pos ((hzero b).mpr hb)]
      have := commonWords_pos_of_length toLowerCase hb.1 hb.2
      simp only [hb.1, hb.2, WithTop.coe_lt_top, true_iff, add_zero, mul_zero, zero_add]
      exact Nat.mul_pos this (by omega)
    · rw [if_neg (mt (hzero b).mp hb), WithTop.coe_lt_coe]
      have hpb : 0 < length target + length b := by omega
      have hqa : (0 : ℚ) < (length target + length a) / 2 := by exact_mod_cast (by positivity)
      have hqb : (0 : ℚ) < (length target + length b) / 2 := by exact_mod_cast (by positivity)
      rw [div_lt_div_iff₀ hqa hqb, ← mul_div_assoc, ← mul_div_assoc,
        div_lt_div_iff_of_pos_right two_pos]
      exact_mod_cast Iff.rfl

/-! ### When a full match is returned -/

variable {toLowerCase}

theorem commonWords_of_fullMatch {target name : String} (h : FullMatch toLowerCase target name) :
    commonWords toLowerCase target name = (lowerWords toLowerCase target).length := by
  unfold commonWords
  rw [← lowerWords, ← lowerWords, h.countP_eq, List.countP_eq_length]
  exact fun w hw => List.contains_iff_mem.mpr hw

variable (toLowerCase)

/-- The row `row` at index `j` does not get ahead of a full match `full` at index `i`: its
matching words against the lengths, with a draw going to the earlier row. -/
def StaysBehind (target full : String) (i : ℕ) (row : String) (j : ℕ) : Prop :=
  let n := (lowerWords toLowerCase target).length
  let m := commonWords toLowerCase target row
  if j < i then m * (length target + length full) < n * (length target + length row)
  else m * (length target + length full) ≤ n * (length target + length row)

/-- The row that `findMostSimilar` returns is a full match. -/
def ReturnsFullMatch (g : Globals P) (target : String) (results : List (Row P)) : Prop :=
  ∃ name price, (findMostSimilar toLowerCase g target results).2 = .values name price ∧
    FullMatch toLowerCase target name

/-- A full match that every other row stays behind. -/
def Unbeaten (target : String) (results : List (Row P)) : Prop :=
  ∃ (i : ℕ) (full : Row P), results[i]? = some full ∧
    FullMatch toLowerCase target full.ProductName ∧
    ∀ (j : ℕ) (row : Row P), results[j]? = some row → ¬ FullMatch toLowerCase target row.ProductName →
      StaysBehind toLowerCase target full.ProductName i row.ProductName j

variable {toLowerCase}

/-- Staying behind a full match, as a comparison of scores. -/
theorem staysBehind_iff {target full row : String} {i j : ℕ}
    (h : FullMatch toLowerCase target full) :
    StaysBehind toLowerCase target full i row j ↔
      if j < i then similarity toLowerCase target row < similarity toLowerCase target full
      else similarity toLowerCase target row ≤ similarity toLowerCase target full := by
  unfold StaysBehind
  simp only [← not_lt, similarity_lt_iff, commonWords_of_fullMatch h]

theorem returnsFullMatch_iff_unbeaten (g : Globals P) (target : String) (results : List (Row P))
    (h : ∃ row ∈ results, FullMatch toLowerCase target row.ProductName) :
    ReturnsFullMatch toLowerCase g target results ↔ Unbeaten toLowerCase target results := by
  obtain ⟨full, hfull, -⟩ := h
  obtain ⟨k, best, hbest, hret⟩ := mostSimilar_firstMax toLowerCase target (List.ne_nil_of_mem hfull)
  unfold ReturnsFullMatch
  rw [findMostSimilar_snd, hret]
  constructor
  · rintro ⟨name, price, hv, hm⟩
    obtain ⟨rfl, rfl⟩ := MostSimilar.values.inj hv
    refine ⟨k, best, hbest.get, hm, fun j row hj _ => (staysBehind_iff hm).mpr ?_⟩
    split_ifs with hlt
    · exact hbest.first j row hlt hj
    · exact hbest.max j row hj
  · rintro ⟨i, full, hi, hm, hall⟩
    refine ⟨best.ProductName, best.ProductPrice, rfl, ?_⟩
    by_contra hn
    have hb := (staysBehind_iff hm).mp (hall k best hbest.get hn)
    split_ifs at hb with hlt
    · exact (hbest.max i full hi).not_gt hb
    · -- the full match comes first, so the best row has to be strictly better
      have hik : i ≠ k := by
        rintro rfl
        obtain rfl := Option.some.inj (hi.symm.trans hbest.get)
        exact hn hm
      exact (hbest.first i full (by omega) hi).not_ge hb

/-- A row with no more matching words than the name has words stays behind a full match that is
shorter, or as long and earlier. -/
theorem staysBehind_of_short {target full row : String} {i j : ℕ}
    (hm : commonWords toLowerCase target row ≤ (lowerWords toLowerCase target).length)
    (hl : length full < length row ∨ length full = length row ∧ i < j) :
    StaysBehind toLowerCase target full i row j := by
  have hpos : 0 < (lowerWords toLowerCase target).length :=
    List.length_pos_of_ne_nil (split_ne_nil _)
  have hle := Nat.mul_le_mul_right (length target + length full) hm
  unfold StaysBehind
  simp only
  split_ifs with hlt
  · have hlen : length full < length row := by omega
    exact hle.trans_lt (Nat.mul_lt_mul_of_pos_left (by omega) hpos)
  · exact hle.trans (Nat.mul_le_mul_left _ (by omega))

/-- **When a full match is returned.**  With a full match among the rows, one is returned iff
one of them stays ahead of every other row; in particular when the other rows have no more
matching words than the name has words and are longer, or as long and later. -/
theorem fullMatch_kept_iff (toLowerCase : String → String) (g : Globals P) (target : String)
    (results : List (Row P))
    (h : ∃ row ∈ results, FullMatch toLowerCase target row.ProductName) :
    (ReturnsFullMatch toLowerCase g target results ↔ Unbeaten toLowerCase target results) ∧
    ((∃ (i : ℕ) (full : Row P), results[i]? = some full ∧
        FullMatch toLowerCase target full.ProductName ∧
        ∀ (j : ℕ) (row : Row P), results[j]? = some row →
          ¬ FullMatch toLowerCase target row.ProductName →
          commonWords toLowerCase target row.ProductName ≤ (lowerWords toLowerCase target).length ∧
          (length full.ProductName < length row.ProductName ∨
            length full.ProductName = length row.ProductName ∧ i < j)) →
      ReturnsFullMatch toLowerCase g target results) := by
  refine ⟨returnsFullMatch_iff_unbeaten g target results h, ?_⟩
  rintro ⟨i, full, hi, hm, hall⟩
  refine (returnsFullMatch_iff_unbeaten g target results h).mpr ⟨i, full, hi, hm, fun j row hj hn => ?_⟩
  obtain ⟨hc, hl⟩ := hall j row hj hn
  exact staysBehind_of_short hc hl

/-- "milk whole" comes after a row with one of the two words in as many letters. -/
theorem fullMatch_kept_iff_milk :
    let rows : List (Row Decimal) := [⟨"milk drink", ⟨299, 2⟩, ""⟩, ⟨"milk whole", ⟨399, 2⟩, ""⟩]
    (ReturnsFullMatch id .init "whole milk" rows ↔ Unbeaten id "whole milk" rows) ∧
    ((∃ (i : ℕ) (full : Row Decimal), rows[i]? = some full ∧
        FullMatch id "whole milk" full.ProductName ∧
        ∀ (j : ℕ) (row : Row Decimal), rows[j]? = some row →
          ¬ FullMatch id "whole milk" row.ProductName →
          commonWords id "whole milk" row.ProductName ≤ (lowerWords id "whole milk").length ∧
          (length full.ProductName < length row.ProductName ∨
            length full.ProductName = length row.ProductName ∧ i < j)) →
      ReturnsFullMatch id .init "whole milk" rows) :=
  fullMatch_kept_iff id .init "whole milk" _
    ⟨⟨"milk whole", ⟨399, 2⟩, ""⟩, by simp, List.Perm.swap _ _ _⟩

/-- A full match is never beaten by another row, as a property of every name and result. -/
def FullMatchNeverBeaten : Prop :=
  ∀ (toLowerCase : String → String) (g : Globals Decimal) (target : String)
    (results : List (Row Decimal)),
    (∃ row ∈ results, FullMatch toLowerCase target row.ProductName) →
      ReturnsFullMatch toLowerCase g target results

/-- Two of the three words in 4 letters outrank all three in 17. -/
theorem not_fullMatchNeverBeaten : ¬ FullMatchNeverBeaten := by
  intro h
  obtain ⟨name, price, hv, hm⟩ := h id .init "strawberries 2 lb"
    [⟨"strawberries 2 lb", ⟨499, 2⟩, ""⟩, ⟨"2 lb", ⟨99, 2⟩, ""⟩]
    ⟨_, List.mem_cons_self, List.Perm.refl _⟩
  have hr : (findMostSimilar id (.init : Globals Decimal) "strawberries 2 lb"
      [⟨"strawberries 2 lb", ⟨499, 2⟩, ""⟩, ⟨"2 lb", ⟨99, 2⟩, ""⟩]).2 =
      .values "2 lb" ⟨99, 2⟩ := by decide +kernel
  obtain ⟨rfl, -⟩ := MostSimilar.values.inj (hr.symm.trans hv)
  exact absurd hm (by decide +kernel)

end EasyGrocery.Server
