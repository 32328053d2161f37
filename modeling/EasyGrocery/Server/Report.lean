import EasyGrocery.Lib.Loop
import EasyGrocery.Server.Catalogue

/-! # The report (`compare.py`)

The program takes the names of two files and prints the pairs that score at least 0.1.  It counts
the lines of each file first and then goes through the names by their positions.

`report_eq`: over files of the two scrapers whose products are plain, it prints the pairs of the
products' names with their scores, in the order of the files, up to the first pair of empty names,
whose score is a division by zero.  Scores are exact rationals, where Python computes with floats. -/

namespace EasyGrocery.Catalogue

open Lines Loop
open Server (compareWords)

/-- An exception that ends the program. -/
inductive Raised where
  | ZeroDivisionError
  | IndexError
deriving DecidableEq

/-- A line printed: the score and the two names.  The score is exact here; Python prints a float. -/
abbrev Line := ℚ × String × String

variable (lower : String → String)

/-- A call of `compareWords`, with what follows `result`. -/
def callCompareWords (a b : String) : Log Line Raised :=
  match compareWords lower a b with
  | none => ⟨[], some .ZeroDivisionError⟩
  | some result => if result ≥ 1 / 10 then ⟨[(result, a, b)], none⟩ else ⟨[], none⟩

/-- The body of the inner loop, with what is at the two positions. -/
def compareAt : Option String → Option String → Log Line Raised
  | some a, some b => callCompareWords lower a b
  | _, _ => ⟨[], some .IndexError⟩

/-- `compare.py`, with the texts of `walmart.txt` and `run1.txt`. -/
def report (walmart run1 : String) : Log Line Raised :=
  let count := (readLines walmart.toList).length
  let name := readNames walmart
  let count2 := (readLines run1.toList).length
  let name2 := readNames run1
  forEach (fun a => forEach (fun c => compareAt lower name[a]? name2[c]?) (List.range count2))
    (List.range count)

/-! ### What it prints -/

/-- The pair is compared: its names are not both empty. -/
def compared (p : String × String) : Bool := p ≠ ("", "")

/-- The line of a pair, if it is printed. -/
def lineOf (p : String × String) : List Line :=
  ((compareWords lower p.1 p.2).filter (1 / 10 ≤ ·)).toList.map fun result => (result, p.1, p.2)

theorem compared_iff (p : String × String) : compared p = true ↔ p ≠ ("", "") := decide_eq_true_iff

theorem length_readNames (file : String) : (readNames file).length = (readLines file.toList).length :=
  List.length_map ..

theorem compareWords_isSome (p : String × String) : (compareWords lower p.1 p.2).isSome = compared p := by
  obtain ⟨a, b⟩ := p
  rw [Server.compareWords_eq, compared]
  have hhalf : ((a.length + b.length : ℚ) / 2 = 0) ↔ (a, b) = ("", "") := by
    rw [Prod.mk.injEq, div_eq_zero_iff, or_iff_left two_ne_zero, ← Nat.cast_add, Nat.cast_eq_zero, Nat.add_eq_zero_iff,
      String.length_eq_zero_iff, String.length_eq_zero_iff]
  simp only [hhalf]
  split_ifs with h
  · rw [h]
    rfl
  · exact (decide_eq_true h).symm

theorem callCompareWords_of_compared {p : String × String} (h : compared p = true) :
    callCompareWords lower p.1 p.2 = ⟨lineOf lower p, none⟩ := by
  rw [← compareWords_isSome lower] at h
  obtain ⟨result, hr⟩ := Option.isSome_iff_exists.mp h
  unfold callCompareWords lineOf
  rw [hr]
  by_cases hten : 1 / 10 ≤ result
  · simp only [ge_iff_le, if_pos hten]
    rw [Option.filter_some_pos (by simpa using hten)]
    rfl
  · simp only [ge_iff_le, if_neg hten]
    rw [Option.filter_some_neg (by simpa using hten)]
    rfl

theorem callCompareWords_of_not_compared {p : String × String} (h : compared p = false) :
    callCompareWords lower p.1 p.2 = ⟨[], some .ZeroDivisionError⟩ := by
  rw [← compareWords_isSome lower, Option.isSome_eq_false_iff, Option.isNone_iff_eq_none] at h
  rw [callCompareWords, h]

/-- No name is missing: the program is one loop over the pairs. -/
theorem report_eq_forEach (walmart run1 : String) : report lower walmart run1 =
    forEach (fun p => callCompareWords lower p.1 p.2) (readNames walmart ×ˢ readNames run1) := by
  rw [report, ← length_readNames, ← length_readNames,
    forEach_range (fun a => forEach (fun c => compareAt lower a (readNames run1)[c]?) _), ← forEach_nested]
  congr 1
  funext a
  exact forEach_range (compareAt lower (some a)) (readNames run1)

/-- Plain products are read back by their names. -/
theorem readNames_of_plain {run : Scrape} (h : ∀ p ∈ run.products, run.store.Plain p) :
    readNames run.output = run.products.map run.store.name := by
  have hplain := fun p hp => (plain_iff _ p).mp (h p hp)
  exact (readNames_eq_iff run fun p hp => (hplain p hp).1).mpr fun p hp => (hplain p hp).2

/-- **The report, exactly.**  Over files of scrapers whose products are plain, the pairs of names
with their scores, if these are at least 0.1, up to the first pair of empty names. -/
theorem report_eq (walmart safeway : Scrape) (hw : ∀ p ∈ walmart.products, walmart.store.Plain p)
    (hs : ∀ p ∈ safeway.products, safeway.store.Plain p) :
    let pairs := walmart.products.map walmart.store.name ×ˢ safeway.products.map safeway.store.name
    report lower walmart.output safeway.output =
      ⟨(pairs.takeWhile compared).flatMap (lineOf lower),
        if ("", "") ∈ pairs then some .ZeroDivisionError else none⟩ := by
  intro pairs
  have hall : pairs.all compared = true ↔ ("", "") ∉ pairs := by
    rw [List.all_eq_true]
    constructor
    · intro h hmem
      exact (compared_iff _).mp (h _ hmem) rfl
    · intro h p hp
      exact (compared_iff p).mpr fun heq => h (heq ▸ hp)
  rw [report_eq_forEach, readNames_of_plain hw, readNames_of_plain hs,
    forEach_eq (fun _ => callCompareWords_of_compared lower)
      (fun _ => callCompareWords_of_not_compared lower)]
  by_cases h : ("", "") ∈ pairs
  · rw [if_pos h, if_neg (mt hall.mp (not_not_intro h))]
  · rw [if_neg h, if_pos (hall.mpr h)]

instance : ∀ (store : Store) (p : Product), Decidable (store.Plain p)
  | .safeway, _ => @instDecidableAnd _ _ (List.decidableBAll _ _) (List.decidableBAll _ _)
  | .walmart, _ => @instDecidableAnd _ _ (List.decidableBAll _ _) (List.decidableBAll _ _)

/-- Two products of Walmart and one of Safeway. -/
theorem report_eq_milk :
    let walmart : Scrape := .walmart [[[⟨some "Whole Milk", some "$2.98"⟩, ⟨some "Tea, black", some "$3.00"⟩]]]
    let safeway : Scrape := .safeway [[⟨some " Milk ", some "Your Price$3.49"⟩]]
    let pairs := walmart.products.map walmart.store.name ×ˢ safeway.products.map safeway.store.name
    pairs.length = 2 ∧ report Server.asciiLower walmart.output safeway.output =
      ⟨(pairs.takeWhile compared).flatMap (lineOf Server.asciiLower),
        if ("", "") ∈ pairs then some .ZeroDivisionError else none⟩ := by
  intro walmart safeway pairs
  exact ⟨by decide +kernel, report_eq Server.asciiLower walmart safeway (by decide +kernel)
    (by decide +kernel)⟩

end EasyGrocery.Catalogue
