import EasyGrocery.Lib.Json
import Mathlib.Data.List.DropRight
import Mathlib.Algebra.Order.Field.Power
import Mathlib.Tactic.Ring
import Mathlib.Tactic.FieldSimp

/-! # Finite decimals and their JavaScript texts

`Decimal` is an exact decimal number: an integer and a number of places.  Sums are exact, and
form a commutative monoid already as pairs.

`toText` is the text JavaScript converts a number to, and `toFixed2` that of `toFixed(2)`.  Both
are JSON numbers: a JSON reader gets the value back from the first, and from the second when the
number is in whole hundredths (`run_toText`, `run_toFixed2`). -/

/-- `coef / 10 ^ scale` -/
structure Decimal where
  coef : ℤ
  scale : ℕ
deriving DecidableEq

namespace Decimal

def toRat (d : Decimal) : ℚ := d.coef / 10 ^ d.scale

instance : Zero Decimal := ⟨⟨0, 0⟩⟩

instance : Add Decimal :=
  ⟨fun a b => ⟨a.coef * 10 ^ b.scale + b.coef * 10 ^ a.scale, a.scale + b.scale⟩⟩

@[ext] theorem ext {a b : Decimal} (hc : a.coef = b.coef) (hs : a.scale = b.scale) : a = b := by
  cases a; cases b; cases hc; cases hs; rfl

instance : AddCommMonoid Decimal where
  add_assoc a b c := by
    refine ext ?_ (Nat.add_assoc _ _ _)
    change (a.coef * 10 ^ b.scale + b.coef * 10 ^ a.scale) * 10 ^ c.scale +
        c.coef * 10 ^ (a.scale + b.scale) = a.coef * 10 ^ (b.scale + c.scale) +
        (b.coef * 10 ^ c.scale + c.coef * 10 ^ b.scale) * 10 ^ a.scale
    rw [pow_add, pow_add]
    ring
  zero_add a := by
    refine ext ?_ (Nat.zero_add _)
    change 0 * 10 ^ a.scale + a.coef * 10 ^ 0 = a.coef
    ring
  add_zero a := by
    refine ext ?_ (Nat.add_zero _)
    change a.coef * 10 ^ 0 + 0 * 10 ^ a.scale = a.coef
    ring
  add_comm a b := ext (Int.add_comm _ _) (Nat.add_comm _ _)
  nsmul := nsmulRec

theorem toRat_zero : (0 : Decimal).toRat = 0 := by
  change ((0 : ℤ) : ℚ) / 10 ^ 0 = 0
  simp

theorem toRat_add (a b : Decimal) : (a + b).toRat = a.toRat + b.toRat := by
  change ((a.coef * 10 ^ b.scale + b.coef * 10 ^ a.scale : ℤ) : ℚ) / 10 ^ (a.scale + b.scale) = _
  rw [toRat, toRat, pow_add]
  push_cast
  field_simp

/-! ### The texts -/

/-- The digits without the zeros at the end. -/
def significant (digits : List Char) : List Char := digits.rdropWhile (· = '0')

/-- `e` and an exponent -/
def exponentText (e : ℤ) : List Char :=
  'e' :: (if 0 ≤ e then '+' else '-') :: Nat.toDigits 10 e.natAbs

/-- The number `0.d₁d₂… · 10 ^ n` with the significant digits `ds`, by the size of `n`. -/
def digitsText (ds : List Char) (n : ℤ) : List Char :=
  if ds.length ≤ n ∧ n ≤ 21 then ds ++ List.replicate (n.toNat - ds.length) '0'
  else if 0 < n ∧ n ≤ 21 then ds.take n.toNat ++ '.' :: ds.drop n.toNat
  else if -6 < n ∧ n ≤ 0 then '0' :: '.' :: (List.replicate n.natAbs '0' ++ ds)
  else match ds with
    | [d] => d :: exponentText (n - 1)
    | ds => ds.take 1 ++ '.' :: (ds.drop 1 ++ exponentText (n - 1))

/-- The text of `m / 10 ^ scale`. -/
def absText (m scale : ℕ) : List Char :=
  if m = 0 then ['0']
  else digitsText (significant (Nat.toDigits 10 m)) ((Nat.toDigits 10 m).length - scale)

def sign (d : Decimal) : List Char := if d.coef < 0 then ['-'] else []

/-- The text of a number. -/
def toText (d : Decimal) : String := String.ofList (d.sign ++ absText d.coef.natAbs d.scale)

/-- The nearest number of hundredths; a tie goes up. -/
def hundredths (m scale : ℕ) : ℕ := (200 * m + 10 ^ scale) / (2 * 10 ^ scale)

def fixedText (n : ℕ) : List Char :=
  Nat.toDigits 10 (n / 100) ++ ['.', Nat.digitChar (n / 10 % 10), Nat.digitChar (n % 10)]

/-- `toFixed(2)` -/
def toFixed2 (d : Decimal) : String :=
  if 10 ^ (21 + d.scale) ≤ d.coef.natAbs then d.toText
  else String.ofList (d.sign ++ fixedText (hundredths d.coef.natAbs d.scale))

example : (⟨-1205, 3⟩ : Decimal).toText = "-1.205" ∧ (⟨150, 2⟩ : Decimal).toText = "1.5" ∧
    (⟨125, 9⟩ : Decimal).toText = "1.25e-7" ∧ (⟨1205, 3⟩ : Decimal).toFixed2 = "1.21" := by
  decide +kernel

/-! ### Reading digits -/

open Guarded Json

theorem digitVal_eq (c : Char) : digitVal c = c.toNat - '0'.toNat := rfl

theorem run_int {l : List Char} (h : ∀ c ∈ l, c.isDigit = true) (m : ℕ) :
    run NumPhase.step (.int m) l = some (.int (Nat.ofDigitChars 10 l m)) := by
  induction l generalizing m with
  | nil => simp
  | cons c l ih =>
      have hc : NumPhase.step (.int m) c = some (.int (10 * m + digitVal c)) := by
        simp [NumPhase.step, h c List.mem_cons_self]
      rw [run_cons_of_eq hc, ih fun d hd => h d (List.mem_cons_of_mem c hd),
        Nat.ofDigitChars_cons, digitVal_eq]

theorem run_frac {l : List Char} (h : ∀ c ∈ l, c.isDigit = true) (m k : ℕ) :
    run NumPhase.step (.frac m k) l = some (.frac (Nat.ofDigitChars 10 l m) (k + l.length)) := by
  induction l generalizing m k with
  | nil => simp
  | cons c l ih =>
      have hc : NumPhase.step (.frac m k) c = some (.frac (10 * m + digitVal c) (k + 1)) := by
        simp [NumPhase.step, h c List.mem_cons_self]
      rw [run_cons_of_eq hc, ih fun d hd => h d (List.mem_cons_of_mem c hd),
        Nat.ofDigitChars_cons, digitVal_eq, List.length_cons, Nat.add_right_comm, Nat.add_assoc]

/-- The digits after the point. -/
theorem run_dot {l : List Char} (h : ∀ c ∈ l, c.isDigit = true) (hl : l ≠ []) (m : ℕ) :
    run NumPhase.step (.dot m) l = some (.frac (Nat.ofDigitChars 10 l m) l.length) := by
  obtain ⟨c, l, rfl⟩ := List.exists_cons_of_ne_nil hl
  have hc : NumPhase.step (.dot m) c = some (.frac (10 * m + digitVal c) 1) := by
    simp [NumPhase.step, h c List.mem_cons_self]
  rw [run_cons_of_eq hc, run_frac fun d hd => h d (List.mem_cons_of_mem c hd),
    Nat.ofDigitChars_cons, digitVal_eq, List.length_cons, Nat.add_comm 1]

theorem run_expDigits {l : List Char} (h : ∀ c ∈ l, c.isDigit = true) (m k : ℕ) (neg : Bool)
    (e : ℕ) : run NumPhase.step (.expDigits m k neg e) l =
      some (.expDigits m k neg (Nat.ofDigitChars 10 l e)) := by
  induction l generalizing e with
  | nil => simp
  | cons c l ih =>
      have hc : NumPhase.step (.expDigits m k neg e) c =
          some (.expDigits m k neg (10 * e + digitVal c)) := by
        simp [NumPhase.step, h c List.mem_cons_self]
      rw [run_cons_of_eq hc, ih fun d hd => h d (List.mem_cons_of_mem c hd),
        Nat.ofDigitChars_cons, digitVal_eq]

/-- Digits that do not start with a zero. -/
theorem run_minus {l : List Char} (h : ∀ c ∈ l, c.isDigit = true) (hl : l ≠ [])
    (hz : l.head? ≠ some '0') :
    run NumPhase.step .minus l = some (.int (Nat.ofDigitChars 10 l 0)) := by
  obtain ⟨c, l, rfl⟩ := List.exists_cons_of_ne_nil hl
  have hc : NumPhase.step .minus c = some (.int (10 * 0 + digitVal c)) := by
    have : c ≠ '0' := by simpa using hz
    simp [NumPhase.step, h c List.mem_cons_self, this]
  rw [run_cons_of_eq hc, run_int fun d hd => h d (List.mem_cons_of_mem c hd),
    Nat.ofDigitChars_cons, digitVal_eq]

theorem isDigit_toDigits {n : ℕ} : ∀ c ∈ Nat.toDigits 10 n, c.isDigit = true :=
  fun _ hc => Nat.isDigit_of_mem_toDigits (by decide) (by decide) hc

theorem head?_toDigits {n : ℕ} (hn : n ≠ 0) : (Nat.toDigits 10 n).head? ≠ some '0' := by
  induction n using Nat.strongRecOn with
  | _ n ih =>
      by_cases h : n < 10
      · rw [Nat.toDigits_of_lt_base h]
        simpa using hn
      · rw [Nat.toDigits_of_base_le (by decide) (Nat.not_lt.mp h),
          List.head?_append_of_ne_nil _ Nat.toDigits_ne_nil]
        exact ih (n / 10) (by omega) (by omega)

/-- The text of an integer, read from its start. -/
theorem run_toDigits (n : ℕ) : ∃ p, run NumPhase.step .minus (Nat.toDigits 10 n) = some p ∧
    (p = .int n ∨ n = 0 ∧ p = .zero) := by
  by_cases hn : n = 0
  · subst hn
    exact ⟨.zero, by rw [Nat.toDigits_zero]; rfl, .inr ⟨rfl, rfl⟩⟩
  · refine ⟨.int n, ?_, .inl rfl⟩
    rw [run_minus isDigit_toDigits Nat.toDigits_ne_nil (head?_toDigits hn),
      Nat.ofDigitChars_ten_toDigits]

/-! ### Reading the texts -/

theorem zpow_of_nonneg {n : ℤ} (h : 0 ≤ n) : (10 : ℚ) ^ n = 10 ^ n.natAbs := by
  rw [← zpow_natCast, Int.natAbs_of_nonneg h]

theorem zpow_of_nonpos {n : ℤ} (h : n ≤ 0) : (10 : ℚ) ^ n = (10 ^ n.natAbs)⁻¹ := by
  rw [← zpow_natCast, Int.ofNat_natAbs_of_nonpos h, zpow_neg, inv_inv]

theorem run_expSign {l : List Char} (h : ∀ c ∈ l, c.isDigit = true) (hl : l ≠ []) (m k : ℕ)
    (neg : Bool) : run NumPhase.step (.expSign m k neg) l =
      some (.expDigits m k neg (Nat.ofDigitChars 10 l 0)) := by
  obtain ⟨c, l, rfl⟩ := List.exists_cons_of_ne_nil hl
  have hc : NumPhase.step (.expSign m k neg) c = some (.expDigits m k neg (digitVal c)) := by
    simp [NumPhase.step, h c List.mem_cons_self]
  rw [run_cons_of_eq hc, run_expDigits fun d hd => h d (List.mem_cons_of_mem c hd),
    Nat.ofDigitChars_cons, digitVal_eq, Nat.mul_zero, Nat.zero_add]

theorem run_exponentText {p : NumPhase} {m k : ℕ} (hp : p.step 'e' = some (.exp m k)) (e : ℤ) :
    ∃ p', run NumPhase.step p (exponentText e) = some p' ∧
      p'.value = some ((m : ℚ) / 10 ^ k * 10 ^ e) := by
  have hsign : NumPhase.step (.exp m k) (if 0 ≤ e then '+' else '-') =
      some (.expSign m k (e < 0)) := by
    by_cases he : 0 ≤ e
    · rw [if_pos he, decide_eq_false (not_lt.mpr he)]; rfl
    · rw [if_neg he, decide_eq_true (not_le.mp he)]; rfl
  refine ⟨.expDigits m k (e < 0) e.natAbs, ?_, ?_⟩
  · rw [exponentText, run_cons_of_eq hp, run_cons_of_eq hsign,
      run_expSign isDigit_toDigits Nat.toDigits_ne_nil, Nat.ofDigitChars_ten_toDigits]
  · by_cases he : 0 ≤ e
    · rw [zpow_of_nonneg he, decide_eq_false (not_lt.mpr he)]; rfl
    · rw [zpow_of_nonpos (not_le.mp he).le, decide_eq_true (not_le.mp he), ← div_eq_mul_inv]; rfl

/-! The four forms of `digitsText`, each read as `0.d₁d₂… · 10 ^ n`. -/

section forms

variable {ds : List Char} (h : ∀ c ∈ ds, c.isDigit = true) (hne : ds ≠ [])
  (hz : ds.head? ≠ some '0')

/-- The text is read as the number with the digits `ds` and the exponent `n`. -/
def ReadsAs (l ds : List Char) (n : ℤ) : Prop :=
  ∃ p, run NumPhase.step .minus l = some p ∧
    p.value = some ((Nat.ofDigitChars 10 ds 0 : ℚ) * 10 ^ (n - ds.length))

theorem isDigit_zeros (z : ℕ) : ∀ c ∈ List.replicate z '0', c.isDigit = true := by
  intro c hc
  rw [List.eq_of_mem_replicate hc]
  rfl

include h hne hz

/-- An integer, filled up with zeros. -/
theorem reads_integer {n : ℤ} (hn : ds.length ≤ n) :
    ReadsAs (ds ++ List.replicate (n.toNat - ds.length) '0') ds n := by
  refine ⟨_, by rw [run_append, run_minus h hne hz, Option.bind_some, run_int (isDigit_zeros _)], ?_⟩
  rw [Nat.ofDigitChars_replicate_zero, zpow_of_nonneg (by omega),
    show (n - ds.length).natAbs = n.toNat - ds.length by omega, NumPhase.value]
  push_cast
  rw [mul_comm]

/-- The point stands among the digits. -/
theorem reads_point {n : ℤ} (h0 : 0 < n) (hn : n < ds.length) :
    ReadsAs (ds.take n.toNat ++ '.' :: ds.drop n.toNat) ds n := by
  have htake : ∀ c ∈ ds.take n.toNat, c.isDigit = true := fun c hc => h c (List.mem_of_mem_take hc)
  have hdrop : ∀ c ∈ ds.drop n.toNat, c.isDigit = true := fun c hc => h c (List.mem_of_mem_drop hc)
  have htne : ds.take n.toNat ≠ [] := by
    rw [ne_eq, List.take_eq_nil_iff, not_or]; exact ⟨by omega, hne⟩
  have hdne : ds.drop n.toNat ≠ [] := by rw [ne_eq, List.drop_eq_nil_iff]; omega
  have hhead : (ds.take n.toNat).head? ≠ some '0' := by
    rw [List.head?_take, if_neg (by omega)]; exact hz
  have hpoint (m : ℕ) : NumPhase.step (.int m) '.' = some (.dot m) := rfl
  refine ⟨_, by rw [run_append, run_minus htake htne hhead, Option.bind_some,
    run_cons_of_eq (hpoint _), run_dot hdrop hdne], ?_⟩
  rw [← Nat.ofDigitChars_append, List.take_append_drop, zpow_of_nonpos (by omega),
    show (n - ds.length).natAbs = (ds.drop n.toNat).length by rw [List.length_drop]; omega,
    ← div_eq_mul_inv]
  rfl

omit hz in
/-- Below one. -/
theorem reads_belowOne {n : ℤ} (hn : n ≤ 0) :
    ReadsAs ('0' :: '.' :: (List.replicate n.natAbs '0' ++ ds)) ds n := by
  have hlen : 0 < ds.length := List.length_pos_iff.mpr hne
  have hzero : NumPhase.step .minus '0' = some .zero := rfl
  have hpoint : NumPhase.step .zero '.' = some (.dot 0) := rfl
  have hd : ∀ c ∈ List.replicate n.natAbs '0' ++ ds, c.isDigit = true := by
    intro c hc
    rcases List.mem_append.mp hc with hc | hc
    · exact isDigit_zeros _ c hc
    · exact h c hc
  refine ⟨_, by rw [run_cons_of_eq hzero, run_cons_of_eq hpoint, run_dot hd (by simp [hne])], ?_⟩
  rw [Nat.ofDigitChars_append, Nat.ofDigitChars_replicate_zero, Nat.mul_zero,
    zpow_of_nonpos (by omega), ← div_eq_mul_inv,
    show (n - ds.length).natAbs = (List.replicate n.natAbs '0' ++ ds).length by
      rw [List.length_append, List.length_replicate]; omega]
  rfl

omit h hne hz in
/-- One digit with an exponent. -/
theorem reads_exponent {d : Char} (hd : ∀ c ∈ [d], c.isDigit = true) (hz : d ≠ '0') (n : ℤ) :
    ReadsAs (d :: exponentText (n - 1)) [d] n := by
  obtain ⟨p, hp, hv⟩ := run_exponentText (p := .int (Nat.ofDigitChars 10 [d] 0)) rfl (n - 1)
  refine ⟨p, ?_, by rw [hv]; simp⟩
  have hsplit : d :: exponentText (n - 1) = [d] ++ exponentText (n - 1) := rfl
  rw [hsplit, run_append, run_minus hd (by simp) (by simpa using hz), Option.bind_some, hp]

omit h hne hz in
/-- A point after the first digit, and an exponent. -/
theorem reads_pointExponent {d : Char} {l : List Char} (hd : ∀ c ∈ d :: l, c.isDigit = true)
    (hz : d ≠ '0') (hl : l ≠ []) (n : ℤ) :
    ReadsAs ([d] ++ '.' :: (l ++ exponentText (n - 1))) (d :: l) n := by
  have hfirst : ∀ c ∈ [d], c.isDigit = true := fun c hc => hd c (by simp_all)
  have hrest : ∀ c ∈ l, c.isDigit = true := fun c hc => hd c (List.mem_cons_of_mem d hc)
  have hpoint (m : ℕ) : NumPhase.step (.int m) '.' = some (.dot m) := rfl
  obtain ⟨p, hp, hv⟩ :=
    run_exponentText (p := .frac (Nat.ofDigitChars 10 (d :: l) 0) l.length) rfl (n - 1)
  refine ⟨p, ?_, ?_⟩
  · rw [run_append, run_minus hfirst (by simp) (by simpa using hz), Option.bind_some,
      run_cons_of_eq (hpoint _), run_append, run_dot hrest hl, Option.bind_some,
      ← Nat.ofDigitChars_append]
    exact hp
  · rw [hv, div_mul_eq_mul_div, ← zpow_natCast, mul_div_assoc, ← zpow_sub₀ (by norm_num)]
    simp only [List.length_cons]
    push_cast
    ring_nf

/-- The number that `digitsText ds n` stands for. -/
theorem run_digitsText (n : ℤ) :
    ∃ p, run NumPhase.step .minus (digitsText ds n) = some p ∧
      p.value = some ((Nat.ofDigitChars 10 ds 0 : ℚ) * 10 ^ (n - ds.length)) := by
  unfold digitsText
  split_ifs with h1 h2 h3
  · exact reads_integer h hne hz h1.1
  · exact reads_point h hne hz h2.1 (by omega)
  · exact reads_belowOne h hne h3.2
  · obtain ⟨d, l, rfl⟩ := List.exists_cons_of_ne_nil hne
    have hd0 : d ≠ '0' := by simpa using hz
    cases l with
    | nil => exact reads_exponent h hd0 n
    | cons d' l => exact reads_pointExponent h hd0 (by simp) n

end forms

theorem significant_append (l : List Char) :
    ∃ z, l = significant l ++ List.replicate z '0' := by
  refine ⟨(l.rtakeWhile (· = '0')).length, ?_⟩
  have hzeros : l.rtakeWhile (· = '0') = List.replicate (l.rtakeWhile (· = '0')).length '0' :=
    List.eq_replicate_of_mem fun c hc => by simpa using List.mem_rtakeWhile_imp hc
  rw [← hzeros]
  exact List.rdropWhile_append_rtakeWhile.symm

theorem run_absText (m scale : ℕ) :
    ∃ p, run NumPhase.step .minus (absText m scale) = some p ∧
      p.value = some ((m : ℚ) / 10 ^ scale) := by
  by_cases hm : m = 0
  · subst hm
    exact ⟨.zero, rfl, by simp [NumPhase.value]⟩
  · obtain ⟨z, hz⟩ := significant_append (Nat.toDigits 10 m)
    have hhead := head?_toDigits hm
    have hne : significant (Nat.toDigits 10 m) ≠ [] := by
      intro h
      rw [h, List.nil_append] at hz
      cases z with
      | zero => exact Nat.toDigits_ne_nil hz
      | succ z => rw [hz] at hhead; exact hhead rfl
    have hdigits : ∀ c ∈ significant (Nat.toDigits 10 m), c.isDigit = true := by
      intro c hc
      have hmem : c ∈ Nat.toDigits 10 m := by
        rw [hz]
        exact List.mem_append_left _ hc
      exact isDigit_toDigits c hmem
    have hhead' : (significant (Nat.toDigits 10 m)).head? ≠ some '0' := by
      rw [hz, List.head?_append_of_ne_nil _ hne] at hhead
      exact hhead
    obtain ⟨p, hp, hv⟩ := run_digitsText hdigits hne hhead' ((Nat.toDigits 10 m).length - scale)
    refine ⟨p, by rw [absText, if_neg hm]; exact hp, hv.trans ?_⟩
    -- the zeros at the end are a power of ten
    have hlen := congrArg List.length hz
    rw [List.length_append, List.length_replicate] at hlen
    have hval : m = 10 ^ z * Nat.ofDigitChars 10 (significant (Nat.toDigits 10 m)) 0 := by
      rw [← Nat.ofDigitChars_replicate_zero, ← Nat.ofDigitChars_append, ← hz,
        Nat.ofDigitChars_ten_toDigits]
    have hexp : ((Nat.toDigits 10 m).length - scale -
        (significant (Nat.toDigits 10 m)).length : ℤ) = z - scale := by omega
    rw [hexp, zpow_sub₀ (by norm_num), zpow_natCast, zpow_natCast, ← mul_div_assoc, mul_comm]
    have hval' : (m : ℚ) = 10 ^ z * Nat.ofDigitChars 10 (significant (Nat.toDigits 10 m)) 0 := by
      exact_mod_cast hval
    rw [← hval']

theorem run_num {st : List Frame} {neg : Bool} {l : List Char} {p p' : NumPhase}
    (h : run NumPhase.step p l = some p') :
    run step ⟨st, .num ⟨neg, p⟩⟩ l = some ⟨st, .num ⟨neg, p'⟩⟩ := by
  induction l generalizing p with
  | nil => rw [← Option.some.inj h]; rfl
  | cons c l ih =>
      obtain ⟨q, hq, h⟩ := run_cons_eq_some.mp h
      have hstep : step ⟨st, .num ⟨neg, p⟩⟩ c = some ⟨st, .num ⟨neg, q⟩⟩ := by
        simp [step, Num.step, hq]
      rw [run_cons_of_eq hstep, ih h]

/-- A number inside an object ends at a comma or a brace. -/
theorem step_num_comma {ms : List (String × Json)} {key : String} {st : List Frame}
    {n : Json.Num} {q : ℚ} (h : n.value = some q) :
    step ⟨.member ms key :: st, .num n⟩ ',' = some ⟨st, .objKey (ms ++ [(key, .num q)])⟩ := by
  have hn : n.step ',' = none := by
    obtain ⟨neg, p⟩ := n
    cases p <;> rfl
  simp [step, hn, h, complete, stepClosed, isWs]

theorem step_num_brace {ms : List (String × Json)} {key : String} {st : List Frame}
    {n : Json.Num} {q : ℚ} (h : n.value = some q) :
    step ⟨.member ms key :: st, .num n⟩ '}' = some (complete st (.obj (ms ++ [(key, .num q)]))) := by
  have hn : n.step '}' = none := by
    obtain ⟨neg, p⟩ := n
    cases p <;> rfl
  simp [step, hn, h, complete, stepClosed, isWs]

/-- A number where a value may start. -/
theorem run_number (st : List Frame) {neg : Bool} {l : List Char} {p : NumPhase} (hl : l ≠ [])
    (h : run NumPhase.step .minus l = some p) :
    run step ⟨st, .value⟩ ((if neg then ['-'] else []) ++ l) = some ⟨st, .num ⟨neg, p⟩⟩ := by
  cases neg with
  | true =>
      have hminus : step ⟨st, .value⟩ '-' = some ⟨st, .num ⟨true, .minus⟩⟩ := rfl
      exact (run_cons_of_eq hminus l).trans (run_num h)
  | false =>
      obtain ⟨c, l, rfl⟩ := List.exists_cons_of_ne_nil hl
      obtain ⟨q, hq, h⟩ := run_cons_eq_some.mp h
      have hd : c = '0' ∨ c.isDigit = true := by
        by_contra hn
        rw [not_or] at hn
        simp [NumPhase.step, hn] at hq
      have hne (d : Char) (hd' : d ≠ '0' ∧ d.isDigit = false) : c ≠ d := by
        rintro rfl
        rcases hd with hd | hd
        · exact hd'.1 hd
        · rw [hd'.2] at hd; cases hd
      have hstep : step ⟨st, .value⟩ c = some ⟨st, .num ⟨false, q⟩⟩ := by
        simp [step, isWs, startValue, hq, hne ' ' (by decide), hne '\t' (by decide),
          hne '\n' (by decide), hne '\r' (by decide), hne '{' (by decide), hne '[' (by decide),
          hne '"' (by decide), hne 't' (by decide), hne 'f' (by decide), hne 'n' (by decide),
          hne '-' (by decide)]
      exact (run_cons_of_eq hstep l).trans (run_num h)

/-- The value of a number whose digits are read after its sign. -/
theorem value_signed {d : Decimal} {p : NumPhase}
    (h : p.value = some ((d.coef.natAbs : ℚ) / 10 ^ d.scale)) :
    (⟨d.coef < 0, p⟩ : Json.Num).value = some d.toRat := by
  rw [Json.Num.value, h, Option.map_some, toRat]
  by_cases hc : d.coef < 0
  · rw [Nat.cast_natAbs, abs_of_neg hc]
    simp [hc, neg_div]
  · rw [Nat.cast_natAbs, abs_of_nonneg (not_lt.mp hc)]
    simp [hc]

theorem absText_ne_nil (m scale : ℕ) : absText m scale ≠ [] := by
  intro h
  obtain ⟨p, hp, hv⟩ := run_absText m scale
  rw [h] at hp
  obtain rfl := Option.some.inj hp
  cases hv

theorem sign_eq (d : Decimal) : d.sign = if decide (d.coef < 0) = true then ['-'] else [] := by
  simp [sign]

/-- **The text of a number is read back exactly.** -/
theorem run_toText (st : List Frame) (d : Decimal) :
    ∃ n : Json.Num, run step ⟨st, .value⟩ d.toText.toList = some ⟨st, .num n⟩ ∧
      n.value = some d.toRat := by
  obtain ⟨p, hp, hv⟩ := run_absText d.coef.natAbs d.scale
  refine ⟨⟨d.coef < 0, p⟩, ?_, value_signed hv⟩
  rw [toText, String.toList_ofList, sign_eq]
  exact run_number st (absText_ne_nil _ _) hp

/-- A number in whole hundredths. -/
def InHundredths (d : Decimal) : Prop := (10 ^ d.scale : ℤ) ∣ 100 * d.coef

instance (d : Decimal) : Decidable d.InHundredths :=
  inferInstanceAs (Decidable ((10 ^ d.scale : ℤ) ∣ 100 * d.coef))

theorem inHundredths_add {a b : Decimal} (ha : a.InHundredths) (hb : b.InHundredths) :
    (a + b).InHundredths := by
  change (10 ^ (a.scale + b.scale) : ℤ) ∣ 100 * (a.coef * 10 ^ b.scale + b.coef * 10 ^ a.scale)
  have hsplit : 100 * (a.coef * 10 ^ b.scale + b.coef * 10 ^ a.scale) =
      100 * a.coef * 10 ^ b.scale + 10 ^ a.scale * (100 * b.coef) := by ring
  rw [hsplit, pow_add]
  exact dvd_add (mul_dvd_mul_right ha _) (mul_dvd_mul_left _ hb)

theorem hundredths_eq {d : Decimal} (h : d.InHundredths) :
    (hundredths d.coef.natAbs d.scale : ℚ) / 100 = (d.coef.natAbs : ℚ) / 10 ^ d.scale := by
  have hpos : 0 < 10 ^ d.scale := Nat.pow_pos (by decide)
  obtain ⟨n, hn⟩ : 10 ^ d.scale ∣ 100 * d.coef.natAbs := by
    have := Int.natAbs_dvd_natAbs.mpr h
    rwa [Int.natAbs_mul, Int.natAbs_pow] at this
  have hh : hundredths d.coef.natAbs d.scale = n := by
    have hsplit : 200 * d.coef.natAbs = 2 * 10 ^ d.scale * n := by
      rw [Nat.mul_assoc, ← hn]
      omega
    rw [hundredths, hsplit, Nat.mul_add_div (by omega), Nat.div_eq_of_lt (by omega), Nat.add_zero]
  have hn' : (100 : ℚ) * d.coef.natAbs = 10 ^ d.scale * n := by exact_mod_cast hn
  have hpos' : (10 : ℚ) ^ d.scale ≠ 0 := pow_ne_zero _ (by norm_num)
  rw [hh, div_eq_div_iff (by norm_num) hpos', mul_comm, ← hn', mul_comm]

theorem run_fixedText (n : ℕ) : ∃ p, run NumPhase.step .minus (fixedText n) = some p ∧
    p.value = some ((n : ℚ) / 100) := by
  obtain ⟨p, hp, hcase⟩ := run_toDigits (n / 100)
  have hpoint : p.step '.' = some (.dot (n / 100)) := by
    rcases hcase with rfl | ⟨hn, rfl⟩
    · rfl
    · rw [hn]; rfl
  have hd : ∀ c ∈ [Nat.digitChar (n / 10 % 10), Nat.digitChar (n % 10)], c.isDigit = true := by
    intro c hc
    rcases List.mem_cons.mp hc with rfl | hc
    · rw [Nat.isDigit_digitChar]; exact decide_eq_true (Nat.mod_lt _ (by decide))
    · rw [List.mem_singleton.mp hc, Nat.isDigit_digitChar]
      exact decide_eq_true (Nat.mod_lt _ (by decide))
  refine ⟨_, by rw [fixedText, run_append, hp, Option.bind_some, run_cons_of_eq hpoint,
    run_dot hd (by simp)], ?_⟩
  rw [Nat.ofDigitChars_cons_digitChar_of_lt_ten (Nat.mod_lt _ (by decide)),
    Nat.ofDigitChars_cons_digitChar_of_lt_ten (Nat.mod_lt _ (by decide)), Nat.ofDigitChars_nil,
    show 10 * (10 * (n / 100) + n / 10 % 10) + n % 10 = n by omega]
  simp [NumPhase.value]
  norm_num

/-- **`toFixed(2)` keeps a number in whole hundredths.** -/
theorem run_toFixed2 (st : List Frame) {d : Decimal} (h : d.InHundredths) :
    ∃ n : Json.Num, run step ⟨st, .value⟩ d.toFixed2.toList = some ⟨st, .num n⟩ ∧
      n.value = some d.toRat := by
  unfold toFixed2
  split_ifs with hbig
  · exact run_toText st d
  · obtain ⟨p, hp, hv⟩ := run_fixedText (hundredths d.coef.natAbs d.scale)
    rw [hundredths_eq h] at hv
    refine ⟨⟨d.coef < 0, p⟩, ?_, value_signed hv⟩
    rw [String.toList_ofList, sign_eq]
    exact run_number st (by simp [fixedText]) hp

end Decimal
