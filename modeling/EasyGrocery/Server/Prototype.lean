import EasyGrocery.Lib.Words
import EasyGrocery.Server.FullMatch

/-! # The prototype of the similarity (`compare.py`)

The prototype splits a name at every run of whitespace, the server at every single space.  So the
server has empty words, which match each other, and keeps words together that are only separated
by a tab or a newline.

`similarity_agrees_iff`: for ASCII names the two scores are equal iff the matches of empty words
are balanced by the matches that splitting at other whitespace adds; when the space is the only
whitespace, iff not both names have an empty word, that is a space at an end or two in a row. -/

namespace EasyGrocery.Server

open Words

variable {P : Type}

/-! ### The prototype -/

/-- The characters that `str.split()` splits at. -/
def isSpace (c : Char) : Bool :=
  c.toNat ∈ [9, 10, 11, 12, 13, 28, 29, 30, 31, 32, 0x85, 0xA0, 0x1680, 0x2028, 0x2029, 0x202F,
    0x205F, 0x3000] || (0x2000 ≤ c.toNat && c.toNat ≤ 0x200A)

/-- `s.split()` -/
def pySplit (s : String) : List String := (pieces isSpace s.toList).map String.ofList

/-- `result` of `compareWords(a, b)`; `none` is a division by zero. -/
def compareWords (lower : String → String) (a b : String) : Option ℚ :=
  let l1 := a.length
  let l2 := b.length
  let half : ℚ := (l1 + l2) / 2
  let c := lower a
  let d := lower b
  let count : ℚ := 0
  let count := (pySplit c).foldl
    (fun count word => if (pySplit d).contains word then count + 1 else count) count
  if half = 0 then none else some (count / half)

/-- The server and the prototype give the same score. -/
def Agree (toLowerCase lower : String → String) (a b : String) : Prop :=
  ∃ q : ℚ, compareWords lower b a = some q ∧
    (compareSimilarity toLowerCase (.init : Globals Decimal) a b).2 = (q : WithTop ℚ)

/-! ### ASCII names -/

/-- Every character is an ASCII character. -/
def Ascii (s : String) : Prop := ∀ c ∈ s.toList, c.toNat < 128

/-- The lower-case text of an ASCII text. -/
def asciiLower (s : String) : String := String.ofList (s.toList.map Char.toLower)

theorem length_of_ascii {s : String} (h : Ascii s) : length s = s.length := by
  have hunits : ∀ l : List Char, (∀ c ∈ l, c.toNat < 128) → (l.flatMap units).length = l.length := by
    intro l hl
    induction l with
    | nil => rfl
    | cons c l ih =>
        obtain ⟨hc, hl⟩ := List.forall_mem_cons.mp hl
        have hunit : units c = [c.toNat] := by rw [units, if_pos (by omega)]
        rw [List.flatMap_cons, List.length_append, ih hl, hunit]
        simp [Nat.add_comm]
  unfold length utf16
  rw [hunits s.toList h, String.length_toList]

/-! ### Counting words -/

/-- How many words of `other`, by the prototype, are words of `target`. -/
def commonPieces (target other : String) : ℕ := (pySplit other).countP (pySplit target).contains

theorem compareWords_eq (lower : String → String) (a b : String) :
    compareWords lower a b =
      if ((a.length + b.length : ℚ) / 2 = 0) then none
      else some ((commonPieces (lower b) (lower a) : ℚ) / ((a.length + b.length) / 2)) := by
  unfold compareWords commonPieces
  simp only [foldl_count, zero_add]

/-- The two scores are equal iff the two counts are. -/
theorem agree_iff_count {toLowerCase lower : String → String} {a b : String}
    (hlower : ∀ s, Ascii s → toLowerCase s = asciiLower s)
    (hpy : ∀ s, Ascii s → lower s = asciiLower s) (ha : Ascii a) (hb : Ascii b)
    (hne : ¬ (a = "" ∧ b = "")) :
    Agree toLowerCase lower a b ↔
      (split (asciiLower b)).countP (split (asciiLower a)).contains =
        commonPieces (asciiLower a) (asciiLower b) := by
  have hpos : (0 : ℚ) < (a.length + b.length) / 2 := by
    have hlen : 0 < a.length + b.length := by
      by_contra h0
      refine hne ⟨String.length_eq_zero_iff.mp (by omega), String.length_eq_zero_iff.mp (by omega)⟩
    exact div_pos (by exact_mod_cast hlen) two_pos
  unfold Agree
  rw [compareSimilarity_snd, similarity_eq, compareWords_eq, length_of_ascii ha, length_of_ascii hb,
    hpy a ha, hpy b hb, add_comm (b.length : ℚ), if_neg hpos.ne', if_neg hpos.ne', commonWords,
    hlower a ha, hlower b hb]
  constructor
  · rintro ⟨q, hq, hs⟩
    obtain rfl := Option.some.inj hq
    rw [WithTop.coe_inj, div_left_inj' hpos.ne'] at hs
    exact_mod_cast hs
  · intro h
    exact ⟨_, rfl, by rw [h]⟩

/-! ### Empty words, and words the prototype splits further -/

/-- The words of `b` that are empty, if `a` has an empty word for them to match. -/
def emptyMatches (a b : String) : ℕ :=
  if (split a).contains "" then (split b).count "" else 0

/-- What a word adds to the matches when the prototype splits it further. -/
def gain (a w : String) : ℤ :=
  (pySplit w).countP (pySplit a).contains - ((split a).contains w).toNat

/-- What splitting at other whitespace adds to the matches of the words of `b`, net. -/
def pieceGain (a b : String) : ℤ := (((split b).filter (· ≠ "")).map (gain a)).sum

theorem pySplit_eq_flatMap (s : String) : pySplit s = (split s).flatMap pySplit := by
  have hspace : ∀ c : Char, (c == ' ') = true → isSpace c = true := by
    intro c hc
    obtain rfl := eq_of_beq hc
    decide
  unfold pySplit split
  rw [List.splitOn_eq_splitOnP, pieces_eq_flatMap hspace, List.map_flatMap, List.flatMap_map]
  simp only [String.toList_ofList]

/-- An empty word has no piece. -/
theorem pySplit_empty : pySplit "" = [] := rfl

theorem sum_map_filter_ne (f : String → ℤ) (l : List String) :
    (l.map f).sum = ((l.filter (· ≠ "")).map f).sum + l.count "" * f "" := by
  induction l with
  | nil => simp
  | cons w l ih =>
      by_cases hw : w = ""
      · subst hw
        rw [List.map_cons, List.sum_cons, ih, List.count_cons_self, List.filter_cons_of_neg (by simp)]
        push_cast
        ring
      · rw [List.map_cons, List.sum_cons, ih, List.count_cons_of_ne hw,
          List.filter_cons_of_pos (by simpa using hw), List.map_cons, List.sum_cons]
        ring

theorem sum_gain (a : String) (l : List String) :
    (l.map (gain a)).sum =
      ((l.flatMap pySplit).countP (pySplit a).contains : ℤ) - l.countP (split a).contains := by
  induction l with
  | nil => simp
  | cons w l ih =>
      rw [List.map_cons, List.sum_cons, ih, gain, List.flatMap_cons, List.countP_append,
        List.countP_cons]
      cases (split a).contains w with
      | true =>
          push_cast
          simp only [Bool.toNat_true, if_true]
          ring
      | false =>
          push_cast
          simp only [Bool.toNat_false]
          ring

/-- **The two counts.**  They differ by the matches of empty words, which only the server counts,
and by what the prototype gains on the other words. -/
theorem count_sub_commonPieces (a b : String) :
    ((split b).countP (split a).contains : ℤ) - commonPieces a b =
      emptyMatches a b - pieceGain a b := by
  have hgain := sum_gain a (split b)
  rw [sum_map_filter_ne, ← pySplit_eq_flatMap] at hgain
  have hempty : ((split b).count "" : ℤ) * gain a "" = -emptyMatches a b := by
    rw [gain, pySplit_empty, emptyMatches]
    cases (split a).contains "" <;> simp
  unfold pieceGain commonPieces
  omega

/-! ### Names whose only whitespace is the space -/

/-- The only whitespace is the space. -/
def OnlySpaces (s : String) : Prop := ∀ c ∈ s.toList, isSpace c = true → c = ' '

theorem pySplit_of_onlySpaces {s : String} (h : OnlySpaces s) :
    pySplit s = (split s).filter (· ≠ "") := by
  have hcongr : ∀ c ∈ s.toList, isSpace c = (c == ' ') := by
    intro c hc
    by_cases hs : isSpace c = true
    · rw [h c hc hs]
      rfl
    · have hne : c ≠ ' ' := by
        rintro rfl
        exact hs (by decide)
      rw [Bool.not_eq_true] at hs
      rw [hs, beq_eq_false_iff_ne.mpr hne]
  unfold pySplit split
  rw [pieces_congr hcongr, List.splitOn_eq_splitOnP, pieces, List.filter_map]
  congr 1
  apply List.filter_congr
  intro w _
  cases w with
  | nil => rfl
  | cons c w => simp [String.ofList_eq_empty_iff]

theorem countP_contains_eq (ws l : List String) :
    l.countP ws.contains = (l.filter (· ≠ "")).countP (ws.filter (· ≠ "")).contains +
      if ws.contains "" then l.count "" else 0 := by
  induction l with
  | nil => simp
  | cons w l ih =>
      rw [List.countP_cons, ih]
      by_cases hw : w = ""
      · subst hw
        rw [List.filter_cons_of_neg (by simp), List.count_cons_self]
        cases ws.contains "" <;> simp [Nat.add_assoc]
      · rw [List.filter_cons_of_pos (by simpa using hw), List.count_cons_of_ne hw, List.countP_cons]
        have hfilter : (ws.filter (· ≠ "")).contains w = ws.contains w := by
          simp [hw]
        rw [hfilter]
        omega

/-! ### Lower-casing keeps the spaces -/

/-- A character that is not its own lower case is a letter, before and after. -/
theorem toLower_cases (c : Char) :
    c.toLower = c ∨ (65 ≤ c.toNat ∧ c.toNat ≤ 90 ∧ c.toLower.toNat = c.toNat + 32) := by
  unfold Char.toLower
  split_ifs with h
  · right
    simp only [ge_iff_le, UInt32.le_iff_toNat_le] at h
    have hrange : 65 ≤ c.val.toNat ∧ c.val.toNat ≤ 90 := h
    have hdiff : ('a'.val - 'A'.val).toNat = 32 := rfl
    simp only [Char.toNat, UInt32.toNat_add, hdiff]
    omega
  · exact .inl rfl

theorem isSpace_toLower (c : Char) : isSpace c.toLower = isSpace c := by
  rcases toLower_cases c with h | ⟨h₁, h₂, h⟩
  · rw [h]
  · have hletter : ∀ d : Char, 65 ≤ d.toNat → d.toNat ≤ 122 → isSpace d = false := by
      intro d hd₁ hd₂
      simp only [isSpace, List.mem_cons, List.not_mem_nil, or_false, Bool.or_eq_false_iff,
        decide_eq_false_iff_not, Bool.and_eq_false_imp, decide_eq_true_eq]
      omega
    rw [hletter c h₁ (by omega), hletter c.toLower (by omega) (by omega)]

theorem toLower_eq_space_iff (c : Char) : (c.toLower == ' ') = (c == ' ') := by
  rcases toLower_cases c with h | ⟨h₁, h₂, h⟩
  · rw [h]
  · have hletter : ∀ d : Char, 65 ≤ d.toNat → (d == ' ') = false := by
      rintro d hd
      apply beq_eq_false_iff_ne.mpr
      rintro rfl
      exact absurd hd (by decide)
    rw [hletter c h₁, hletter c.toLower (by omega)]

theorem split_asciiLower (s : String) : split (asciiLower s) = (split s).map asciiLower := by
  unfold split asciiLower
  rw [String.toList_ofList, List.splitOn_eq_splitOnP, List.splitOn_eq_splitOnP,
    splitOnP_map toLower_eq_space_iff, List.map_map, List.map_map]
  apply List.map_congr_left
  intro w _
  simp

theorem empty_mem_split_asciiLower (s : String) : "" ∈ split (asciiLower s) ↔ "" ∈ split s := by
  rw [split_asciiLower, List.mem_map]
  constructor
  · rintro ⟨w, hw, he⟩
    have hnil : w.toList.map Char.toLower = [] := by
      simpa [asciiLower, String.ofList_eq_empty_iff] using he
    rw [List.map_eq_nil_iff] at hnil
    have hempty : w = "" := String.toList_inj.mp hnil
    exact hempty ▸ hw
  · intro hw
    exact ⟨"", hw, rfl⟩

theorem onlySpaces_asciiLower {s : String} (h : OnlySpaces s) : OnlySpaces (asciiLower s) := by
  intro c hc hs
  simp only [asciiLower, String.toList_ofList, List.mem_map] at hc
  obtain ⟨d, hd, rfl⟩ := hc
  rw [isSpace_toLower] at hs
  rw [h d hd hs]
  rfl

/-! ### When the scores agree -/

/-- **The server and the prototype, exactly.**  For ASCII names, not both empty, the scores are
equal iff the matches of empty words are what the prototype gains on the others; if the only
whitespace is the space, iff not both names have an empty word. -/
theorem similarity_agrees_iff (toLowerCase lower : String → String)
    (hlower : ∀ s, Ascii s → toLowerCase s = asciiLower s)
    (hpy : ∀ s, Ascii s → lower s = asciiLower s) (a b : String) (ha : Ascii a) (hb : Ascii b)
    (hne : ¬ (a = "" ∧ b = "")) :
    (Agree toLowerCase lower a b ↔
      (emptyMatches (asciiLower a) (asciiLower b) : ℤ) = pieceGain (asciiLower a) (asciiLower b)) ∧
    (OnlySpaces a → OnlySpaces b →
      (Agree toLowerCase lower a b ↔ ¬ ("" ∈ split a ∧ "" ∈ split b))) := by
  have hcount := agree_iff_count hlower hpy ha hb hne
  constructor
  · have hsub := count_sub_commonPieces (asciiLower a) (asciiLower b)
    rw [hcount, ← Nat.cast_inj (R := ℤ)]
    omega
  · intro hsa hsb
    rw [hcount, commonPieces, pySplit_of_onlySpaces (onlySpaces_asciiLower hsa),
      pySplit_of_onlySpaces (onlySpaces_asciiLower hsb), countP_contains_eq, Nat.add_eq_left,
      ← empty_mem_split_asciiLower a, ← empty_mem_split_asciiLower b]
    by_cases h : "" ∈ split (asciiLower a)
    · rw [if_pos (List.contains_iff_mem.mpr h), List.count_eq_zero]
      simp [h]
    · rw [if_neg (by simpa using h)]
      simp [h]

theorem similarity_agrees_iff_milk :
    (Agree asciiLower asciiLower "Whole Milk" "milk " ↔
      (emptyMatches (asciiLower "Whole Milk") (asciiLower "milk ") : ℤ) =
        pieceGain (asciiLower "Whole Milk") (asciiLower "milk ")) ∧
    (OnlySpaces "Whole Milk" → OnlySpaces "milk " →
      (Agree asciiLower asciiLower "Whole Milk" "milk " ↔
        ¬ ("" ∈ split "Whole Milk" ∧ "" ∈ split "milk "))) :=
  similarity_agrees_iff asciiLower asciiLower (fun _ _ => rfl) (fun _ _ => rfl) "Whole Milk" "milk "
    (by simp [Ascii]) (by simp [Ascii]) (by simp)

/-- The server's similarity is the prototype's, as a property of all ASCII names. -/
def SameSimilarity : Prop :=
  ∀ toLowerCase lower : String → String, (∀ s, Ascii s → toLowerCase s = asciiLower s) →
    (∀ s, Ascii s → lower s = asciiLower s) →
      ∀ a b, Ascii a → Ascii b → ¬ (a = "" ∧ b = "") → Agree toLowerCase lower a b

/-- The doubled space, which the Walmart scraper makes of ", ", is a fifth common word for the
server and nothing for the prototype. -/
theorem not_sameSimilarity : ¬ SameSimilarity := by
  intro h
  have hascii : Ascii "Grape Jelly  30 oz" := by simp [Ascii]
  have hagree := h asciiLower asciiLower (fun _ _ => rfl) (fun _ _ => rfl) "Grape Jelly  30 oz"
    "Grape Jelly  30 oz" hascii hascii (by simp)
  rw [agree_iff_count (fun _ _ => rfl) (fun _ _ => rfl) hascii hascii (by simp)] at hagree
  exact absurd hagree (by decide +kernel)

end EasyGrocery.Server
