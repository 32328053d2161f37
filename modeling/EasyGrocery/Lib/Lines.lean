import Mathlib.Data.List.Basic

/-! # Files of lines

A text is written as records, each with a newline after it, and read line by line (`lines`), a
line with its newline.  The lines are the records iff there are as many of them, and that is iff
no record holds a newline (`length_lines_records_iff`).

In text mode a file has two more line ends, which the reader turns into newlines (`universal`).
A record that does not end in a carriage return keeps its place in this
(`universal_records`). -/

namespace Lines

/-! ### Records -/

section records

variable {α : Type*} (nl : α)

/-- The text of a file of records. -/
def records (rs : List (List α)) : List α := rs.flatMap (· ++ [nl])

variable {nl}

@[simp] theorem records_nil : records nl [] = [] := rfl

theorem records_cons (r : List α) (rs : List (List α)) :
    records nl (r :: rs) = r ++ nl :: records nl rs := by
  simp [records]

theorem records_append (rs ss : List (List α)) :
    records nl (rs ++ ss) = records nl rs ++ records nl ss := List.flatMap_append

end records

/-! ### Lines -/

section lines

variable {α : Type*} [DecidableEq α] (nl : α)

/-- The lines of a text, each with the newline that ends it; the last one may have none. -/
def lines : List α → List (List α)
  | [] => []
  | c :: l =>
      if c = nl then [c] :: lines l
      else match lines l with
        | [] => [[c]]
        | line :: rest => (c :: line) :: rest

variable {nl}

theorem lines_append_cons {r : List α} (h : nl ∉ r) (l : List α) :
    lines nl (r ++ nl :: l) = (r ++ [nl]) :: lines nl l := by
  induction r with
  | nil => simp [lines]
  | cons c r ih =>
      have hc : c ≠ nl := fun hc => h (hc ▸ List.mem_cons_self)
      rw [List.cons_append, lines, if_neg hc, ih fun hr => h (List.mem_cons_of_mem c hr)]
      rfl

/-- Every newline of a record ends a line. -/
theorem length_lines_append_cons (r l : List α) :
    (lines nl (r ++ nl :: l)).length = r.count nl + 1 + (lines nl l).length := by
  induction r with
  | nil => simp [lines, Nat.add_comm]
  | cons c r ih =>
      rw [List.cons_append, lines]
      split_ifs with hc
      · subst hc
        rw [List.length_cons, ih, List.count_cons_self]
        omega
      · rw [List.count_cons_of_ne hc, ← ih]
        cases h : lines nl (r ++ nl :: l) with
        | nil =>
            rw [h, List.length_nil] at ih
            omega
        | cons line rest => rfl

theorem lines_records {rs : List (List α)} (h : ∀ r ∈ rs, nl ∉ r) :
    lines nl (records nl rs) = rs.map (· ++ [nl]) := by
  induction rs with
  | nil => rfl
  | cons r rs ih =>
      obtain ⟨hr, hrs⟩ := List.forall_mem_cons.mp h
      rw [records_cons, lines_append_cons hr, ih hrs]
      rfl

theorem length_le_length_lines (rs : List (List α)) :
    rs.length ≤ (lines nl (records nl rs)).length := by
  induction rs with
  | nil => exact Nat.le_refl _
  | cons r rs ih =>
      rw [records_cons, length_lines_append_cons, List.length_cons]
      omega

/-- **One line for each record** iff no record holds a newline. -/
theorem length_lines_records_iff (rs : List (List α)) :
    (lines nl (records nl rs)).length = rs.length ↔ ∀ r ∈ rs, nl ∉ r := by
  constructor
  · intro h
    induction rs with
    | nil => simp
    | cons r rs ih =>
        have hle : rs.length ≤ (lines nl (records nl rs)).length := length_le_length_lines rs
        rw [records_cons, length_lines_append_cons, List.length_cons] at h
        have hr : nl ∉ r := by
          rw [← List.count_eq_zero]
          omega
        exact List.forall_mem_cons.mpr ⟨hr, ih (by omega)⟩
  · intro h
    rw [lines_records h, List.length_map]

end lines

/-! ### Line ends -/

/-- The text that a reader in text mode sees: the three line ends are all newlines. -/
def universal : List Char → List Char
  | '\r' :: '\n' :: l => '\n' :: universal l
  | '\r' :: l => '\n' :: universal l
  | c :: l => c :: universal l
  | [] => []

/-- A character that ends a line. -/
def isBreak (c : Char) : Bool := c = '\n' || c = '\r'

theorem universal_cons {c : Char} (hc : c ≠ '\r') (l : List Char) :
    universal (c :: l) = c :: universal l := by
  rw [universal]
  · exact fun _ h _ => hc h
  · exact hc

theorem universal_return {l : List Char} (h : ∀ l', l ≠ '\n' :: l') :
    universal ('\r' :: l) = '\n' :: universal l := by
  rw [universal]
  exact fun l' hl => h l' hl

theorem getLast?_of_cons {a c : Char} {r : List Char} (h : (c :: r).getLast? ≠ some a) :
    r.getLast? ≠ some a := by
  cases r with
  | nil => simp
  | cons d r => rwa [List.getLast?_cons_cons] at h

/-- A newline after a record ends its last line, unless a carriage return is there to be merged
with it. -/
theorem universal_append_cons {r : List Char} (h : r.getLast? ≠ some '\r') (l : List Char) :
    universal (r ++ '\n' :: l) = universal r ++ '\n' :: universal l := by
  induction r using universal.induct with
  | case1 r ih =>
      have hr := ih (getLast?_of_cons (getLast?_of_cons h))
      rw [List.cons_append, List.cons_append, universal, hr, universal, List.cons_append]
  | case2 r hr ih =>
      rw [universal_return fun l' hl => hr l' hl, List.cons_append, universal_return,
        ih (getLast?_of_cons h)]
      · rfl
      · intro l' hl
        cases r with
        | nil => exact h rfl
        | cons c r => exact hr r (by rw [(List.cons.inj hl).1])
  | case3 c r hr hc ih =>
      rw [List.cons_append, universal_cons hc, universal_cons hc, ih (getLast?_of_cons h)]
      rfl
  | case4 => exact universal_cons (by decide) l

theorem universal_of_noBreak {r : List Char} (h : ∀ c ∈ r, isBreak c = false) :
    universal r = r := by
  induction r with
  | nil => rfl
  | cons c r ih =>
      obtain ⟨hc, hr⟩ := List.forall_mem_cons.mp h
      have hne : c ≠ '\r' := by
        rintro rfl
        cases hc
      rw [universal_cons hne, ih hr]

/-- Every line end is a newline in the end. -/
theorem newline_mem_universal {r : List Char} {c : Char} (hc : c ∈ r) (hb : isBreak c = true) :
    '\n' ∈ universal r := by
  induction r using universal.induct with
  | case1 r ih =>
      rw [universal]
      exact List.mem_cons_self
  | case2 r hr ih =>
      rw [universal_return fun l' hl => hr l' hl]
      exact List.mem_cons_self
  | case3 d r hr hd ih =>
      rw [universal_cons hd]
      rcases List.mem_cons.mp hc with rfl | hc
      · have hends : c = '\n' ∨ c = '\r' := by simpa [isBreak] using hb
        rw [hends.resolve_right hd]
        exact List.mem_cons_self
      · exact List.mem_cons_of_mem _ (ih hc)
  | case4 => cases hc

theorem universal_records {rs : List (List Char)} (h : ∀ r ∈ rs, r.getLast? ≠ some '\r') :
    universal (records '\n' rs) = records '\n' (rs.map universal) := by
  induction rs with
  | nil => rfl
  | cons r rs ih =>
      obtain ⟨hr, hrs⟩ := List.forall_mem_cons.mp h
      rw [records_cons, universal_append_cons hr, ih hrs, List.map_cons, records_cons]

/-! ### Reading a file -/

/-- The lines that `for line in file` goes through. -/
def readLines (text : List Char) : List (List Char) := lines '\n' (universal text)

theorem readLines_records {rs : List (List Char)} (h : ∀ r ∈ rs, ∀ c ∈ r, isBreak c = false) :
    readLines (records '\n' rs) = rs.map (· ++ ['\n']) := by
  have hlast : ∀ r ∈ rs, r.getLast? ≠ some '\r' := by
    intro r hr hl
    exact absurd (h r hr _ (List.mem_of_getLast? hl)) (by decide)
  have hmap : rs.map universal = rs :=
    (List.map_congr_left fun r hr => universal_of_noBreak (h r hr)).trans (List.map_id rs)
  unfold readLines
  rw [universal_records hlast, hmap, lines_records]
  exact fun r hr hc => absurd (h r hr _ hc) (by decide)

/-- **One line for each record of a file**, if no record ends in a carriage return, iff none of
them holds a line end. -/
theorem length_readLines_iff {rs : List (List Char)} (h : ∀ r ∈ rs, r.getLast? ≠ some '\r') :
    (readLines (records '\n' rs)).length = rs.length ↔ ∀ r ∈ rs, ∀ c ∈ r, isBreak c = false := by
  constructor
  · intro hlen r hr c hc
    have hcount : (lines '\n' (records '\n' (rs.map universal))).length =
        (rs.map universal).length := by
      rw [List.length_map, ← hlen, readLines, universal_records h]
    have hnone := (length_lines_records_iff _).mp hcount (universal r) (List.mem_map_of_mem hr)
    rw [← Bool.not_eq_true]
    exact fun hb => hnone (newline_mem_universal hc hb)
  · intro hb
    rw [readLines_records hb, List.length_map]

-- a carriage return at the end of a record goes unnoticed
example : (readLines (records '\n' [['a', '\r']])).length = 1 := by decide

end Lines
