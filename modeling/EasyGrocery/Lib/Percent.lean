import EasyGrocery.Lib.Json

/-! # Percent escapes

A text is read once into pieces (`pieces`): an escape, which is a `%` before two hexadecimal
digits, or a character.  The query of a URL is normalised piece by piece as RFC 3986 has it
(`normalizeQuery`); a form field is read back with `+` for a blank, as the bytes of its pieces in
UTF-8, and kept as it is when they are not UTF-8 (`readField`).

`readField_normalizeQuery_iff`: which texts come back from this as they went in.  The field is
never longer than the text while its bytes are UTF-8 (`length_le_of_decode`). -/

namespace Percent

/-! ### Pieces -/

inductive Piece where
  | esc (b : UInt8)
  | char (c : Char)
deriving DecidableEq

/-- The byte of an escape with these two digits. -/
def hexByte (a b : Char) : Option UInt8 := do
  let x ← Json.hexDigit a
  let y ← Json.hexDigit b
  some (UInt8.ofNat (16 * x + y))

/-- The pieces of a text; a `%` that starts no escape is a character. -/
def pieces : List Char → List Piece
  | '%' :: a :: b :: l => match hexByte a b with
      | some x => .esc x :: pieces l
      | none => .char '%' :: pieces (a :: b :: l)
  | c :: l => .char c :: pieces l
  | [] => []

/-- The upper-case digit of a number below 16. -/
def hexChar (n : ℕ) : Char := Char.ofNat (if n < 10 then 48 + n else 55 + n)

def escape (b : UInt8) : List Char := ['%', hexChar (b.toNat / 16), hexChar (b.toNat % 16)]

theorem pieces_char {c : Char} {l : List Char} (h : ∀ a b r, c = '%' → l = a :: b :: r → False) :
    pieces (c :: l) = .char c :: pieces l := by
  rw [pieces]
  exact h

theorem pieces_cons {c : Char} (hc : c ≠ '%') (l : List Char) :
    pieces (c :: l) = .char c :: pieces l := pieces_char fun _ _ _ h _ => hc h

theorem hexDigit_hexChar {n : ℕ} (h : n < 16) : Json.hexDigit (hexChar n) = some n := by
  revert n
  decide

theorem pieces_escape (b : UInt8) (l : List Char) : pieces (escape b ++ l) = .esc b :: pieces l := by
  have hb : b.toNat < 256 := b.toNat_lt
  have hbyte : hexByte (hexChar (b.toNat / 16)) (hexChar (b.toNat % 16)) = some b := by
    unfold hexByte
    rw [hexDigit_hexChar (by omega), hexDigit_hexChar (Nat.mod_lt _ (by decide))]
    dsimp only [Option.bind_eq_bind, Option.bind_some]
    rw [Nat.div_add_mod, UInt8.ofNat_toNat]
  unfold escape
  rw [List.cons_append, List.cons_append, List.cons_append, List.nil_append, pieces, hbyte]

/-- A `%` that starts no escape. -/
theorem pieces_percent {l : List Char} (h : ∀ a b r, l = a :: b :: r → hexByte a b = none) :
    pieces ('%' :: l) = .char '%' :: pieces l := by
  cases l with
  | nil => rfl
  | cons a l => cases l with
    | nil => rfl
    | cons b r => rw [pieces, h a b r rfl]

/-- A character that is no part of an escape parts a text. -/
theorem pieces_append_cons {c : Char} (hc : c ≠ '%') (hx : Json.hexDigit c = none)
    (l r : List Char) : pieces (l ++ c :: r) = pieces l ++ .char c :: pieces r := by
  have hleft (b : Char) : hexByte c b = none := by simp [hexByte, hx]
  have hright (a : Char) : hexByte a c = none := by simp [hexByte, hx]
  induction l using pieces.induct with
  | case1 a b l x h ih =>
      rw [List.cons_append, List.cons_append, List.cons_append, pieces, h, pieces, h]
      exact congrArg _ ih
  | case2 a b l h ih =>
      rw [List.cons_append, List.cons_append, List.cons_append, pieces, h, pieces, h]
      exact congrArg _ ih
  | case3 d l h ih =>
      by_cases hd : d = '%'
      · subst hd
        rw [List.cons_append, pieces_percent, ih, pieces_percent]
        · rfl
        · exact fun a b r' hl => absurd hl (h a b r' rfl)
        · intro a b r' hl
          cases l with
          | nil => exact (List.cons.inj hl).1 ▸ hleft b
          | cons a' l => cases l with
            | nil => exact (List.cons.inj (List.cons.inj hl).2).1 ▸ hright a
            | cons b' l => exact absurd rfl (h a' b' l rfl)
      · rw [List.cons_append, pieces_cons hd, pieces_cons hd, ih]
        rfl
  | case4 => exact pieces_cons hc r

/-! ### Normalising a query -/

/-- The unreserved characters of RFC 3986. -/
def unreserved (c : Char) : Bool := c.isAlphanum || c = '-' || c = '.' || c = '_' || c = '~'

/-- The characters that a query may hold as they are. -/
def queryChar (c : Char) : Bool :=
  unreserved c ||
    ['!', '$', '&', '\'', '(', ')', '*', '+', ',', ';', '=', ':', '@', '/', '?'].contains c

/-- An escape of an unreserved character is that character, any other has upper-case digits; a
character that a query may not hold is escaped. -/
def Piece.normal : Piece → List Char
  | .esc b => if unreserved (Char.ofNat b.toNat) then [Char.ofNat b.toNat] else escape b
  | .char c => if queryChar c then [c] else (String.utf8EncodeChar c).flatMap escape

def normalizeQuery (l : List Char) : List Char := (pieces l).flatMap Piece.normal

theorem isAlphanum_lt {c : Char} (h : c.isAlphanum = true) : c.toNat < 128 := by
  have hcases : (decide (c.val ≥ 'A'.val ∧ c.val ≤ 'Z'.val) ||
      (decide (c.val ≥ 'a'.val) && decide (c.val ≤ 'z'.val)) ||
      (decide (c.val ≥ '0'.val) && decide (c.val ≤ '9'.val))) = true := h
  simp only [Bool.or_eq_true, Bool.and_eq_true, decide_eq_true_eq, ge_iff_le,
    UInt32.le_iff_toNat_le] at hcases
  have hZ : ('Z').val.toNat = 90 := rfl
  have hz : ('z').val.toNat = 122 := rfl
  have h9 : ('9').val.toNat = 57 := rfl
  show c.val.toNat < 128
  omega

theorem unreserved_lt {c : Char} (h : unreserved c = true) : c.toNat < 128 := by
  simp only [unreserved, Bool.or_eq_true, decide_eq_true_eq] at h
  rcases h with (((h | rfl) | rfl) | rfl) | rfl
  · exact isAlphanum_lt h
  all_goals decide

/-- A delimiter stays where it is. -/
theorem normalizeQuery_append_cons {c : Char} (hq : queryChar c = true)
    (hx : Json.hexDigit c = none) (l r : List Char) :
    normalizeQuery (l ++ c :: r) = normalizeQuery l ++ c :: normalizeQuery r := by
  have hc : c ≠ '%' := by
    rintro rfl
    exact absurd hq (by decide)
  have hnormal : (Piece.char c).normal = [c] := if_pos hq
  unfold normalizeQuery
  rw [pieces_append_cons hc hx, List.flatMap_append, List.flatMap_cons, hnormal]
  rfl

theorem queryChar_plus : queryChar '+' = true := by decide

theorem queryChar_percent : queryChar '%' = false := by decide

/-! ### Reading a field back -/

def plusToBlank (c : Char) : Char := if c = '+' then ' ' else c

/-- The bytes of a piece; a `%` alone has none. -/
def Piece.bytes : Piece → Option (List UInt8)
  | .esc b => some [b]
  | .char c => if c = '%' then none else some (String.utf8EncodeChar c)

def bytes (l : List Char) : Option (List UInt8) := ((pieces l).mapM Piece.bytes).map List.flatten

def ofUtf8 (bs : List UInt8) : Option (List Char) := bs.toByteArray.utf8Decode?.map Array.toList

/-- `decodeURIComponent`; `none` when it throws. -/
def decode (l : List Char) : Option (List Char) := (bytes l).bind ofUtf8

/-- The value of a form field. -/
def readField (l : List Char) : List Char :=
  let l := l.map plusToBlank
  (decode l).getD l

theorem readField_eq (l : List Char) :
    readField l = (decode (l.map plusToBlank)).getD (l.map plusToBlank) := rfl

theorem ofUtf8_flatMap (l : List Char) : ofUtf8 (l.flatMap String.utf8EncodeChar) = some l := by
  have h := List.utf8Decode?_utf8Encode (l := l)
  rw [List.utf8Encode] at h
  unfold ofUtf8
  rw [h]
  rfl

theorem eq_of_ofUtf8 {bs : List UInt8} {l : List Char} (h : ofUtf8 bs = some l) :
    bs = l.flatMap String.utf8EncodeChar := by
  obtain ⟨chars, hchars, rfl⟩ := Option.map_eq_some_iff.mp h
  have hget : bs.toByteArray.utf8Decode?.get (by rw [hchars]; rfl) = chars := by simp [hchars]
  have hencode : chars.toList.utf8Encode = bs.toByteArray := by
    rw [← hget, ByteArray.utf8Encode_get_utf8Decode?]
  exact (List.toByteArray_inj.mp hencode).symm

theorem bytes_cons {c : Char} (hc : c ≠ '%') (l : List Char) :
    bytes (c :: l) = (bytes l).map (String.utf8EncodeChar c ++ ·) := by
  rw [bytes, pieces_cons hc, bytes]
  cases h : (pieces l).mapM Piece.bytes <;> simp [List.mapM_cons, Piece.bytes, hc, h]

theorem bytes_escape (b : UInt8) (l : List Char) :
    bytes (escape b ++ l) = (bytes l).map (b :: ·) := by
  rw [bytes, pieces_escape, bytes]
  cases h : (pieces l).mapM Piece.bytes <;> simp [List.mapM_cons, Piece.bytes, h]

theorem bytes_escapes (bs : List UInt8) (l : List Char) :
    bytes (bs.flatMap escape ++ l) = (bytes l).map (bs ++ ·) := by
  induction bs with
  | nil => simp
  | cons b bs ih =>
      rw [List.flatMap_cons, List.append_assoc, bytes_escape, ih, Option.map_map]
      rfl

theorem plusToBlank_of_ne {c : Char} (h : c ≠ '+') : plusToBlank c = c := if_neg h

theorem plusToBlank_ne_plus (c : Char) : plusToBlank c ≠ '+' := by
  unfold plusToBlank
  split_ifs with h
  · decide
  · exact h

theorem plusToBlank_ne_percent {c : Char} (h : c ≠ '%') : plusToBlank c ≠ '%' := by
  unfold plusToBlank
  split_ifs
  · decide
  · exact h

theorem hexChar_ne_plus {n : ℕ} (h : n < 16) : hexChar n ≠ '+' := by
  revert n
  decide

theorem map_escape (b : UInt8) : (escape b).map plusToBlank = escape b := by
  have hb : b.toNat < 256 := b.toNat_lt
  unfold escape
  rw [List.map_cons, List.map_cons, List.map_cons, List.map_nil,
    plusToBlank_of_ne (by decide), plusToBlank_of_ne (hexChar_ne_plus (by omega)),
    plusToBlank_of_ne (hexChar_ne_plus (Nat.mod_lt _ (by decide)))]

/-- What a piece of the text is read back as. -/
def Piece.meant : Piece → List UInt8
  | .esc b => [b]
  | .char c => String.utf8EncodeChar (plusToBlank c)

theorem utf8EncodeChar_ofNat {b : UInt8} (h : (Char.ofNat b.toNat).toNat < 128) :
    String.utf8EncodeChar (Char.ofNat b.toNat) = [b] := by
  have hb : b.toNat < 256 := b.toNat_lt
  have hvalid : b.toNat.isValidChar := .inl (by omega)
  have hval : (Char.ofNat b.toNat).val.toNat = b.toNat := by
    rw [Char.ofNat, dif_pos hvalid]
    rfl
  have hlt : b.toNat < 128 := hval ▸ h
  simp [String.utf8EncodeChar, hval, Nat.le_of_lt_succ hlt]

theorem bytes_normal (p : Piece) (l : List Char) :
    bytes (p.normal.map plusToBlank ++ l) = (bytes l).map (p.meant ++ ·) := by
  cases p with
  | esc b =>
      rw [Piece.normal]
      split_ifs with h
      · have hplus : Char.ofNat b.toNat ≠ '+' := fun hc => by simp [hc, unreserved] at h
        have hpercent : Char.ofNat b.toNat ≠ '%' := fun hc => by simp [hc, unreserved] at h
        rw [List.map_singleton, plusToBlank_of_ne hplus, List.singleton_append, bytes_cons hpercent,
          utf8EncodeChar_ofNat (unreserved_lt h)]
        rfl
      · rw [map_escape, bytes_escape]
        rfl
  | char c =>
      rw [Piece.normal]
      split_ifs with h
      · have hpercent : c ≠ '%' := fun hc => by simp [hc, queryChar_percent] at h
        rw [List.map_singleton, List.singleton_append, bytes_cons (plusToBlank_ne_percent hpercent)]
        rfl
      · have hplus : c ≠ '+' := fun hc => h (hc ▸ queryChar_plus)
        have hmap : ((String.utf8EncodeChar c).flatMap escape).map plusToBlank =
            (String.utf8EncodeChar c).flatMap escape := by
          simp only [List.map_flatMap, map_escape]
        rw [hmap, bytes_escapes, Piece.meant, plusToBlank_of_ne hplus]

theorem bytes_normalizeQuery (l : List Char) :
    bytes ((normalizeQuery l).map plusToBlank) = some ((pieces l).flatMap Piece.meant) := by
  unfold normalizeQuery
  induction pieces l with
  | nil => rfl
  | cons p ps ih => rw [List.flatMap_cons, List.map_append, bytes_normal, ih]; rfl

/-! ### Texts that come back -/

def Piece.isEsc : Piece → Bool
  | .esc _ => true
  | .char _ => false

/-- Some `%` of the text stands before two hexadecimal digits. -/
def HasEscape (l : List Char) : Prop := ∃ p ∈ pieces l, p.isEsc = true

instance (l : List Char) : Decidable (HasEscape l) :=
  inferInstanceAs (Decidable (∃ p ∈ pieces l, p.isEsc = true))

theorem length_pieces (l : List Char) :
    (pieces l).length + 2 * (pieces l).countP Piece.isEsc = l.length := by
  induction l using pieces.induct with
  | case1 a b l x h ih =>
      rw [pieces, h]
      simp only [List.length_cons, List.countP_cons, Piece.isEsc, if_true]
      omega
  | case2 a b l h ih =>
      rw [pieces, h, List.length_cons, List.countP_cons_of_neg (by simp [Piece.isEsc]),
        List.length_cons, ← ih]
      omega
  | case3 c l h ih =>
      rw [pieces_char h, List.length_cons, List.countP_cons_of_neg (by simp [Piece.isEsc]),
        List.length_cons, ← ih]
      omega
  | case4 => rfl

theorem pieces_of_not_hasEscape {l : List Char} (h : ¬ HasEscape l) : pieces l = l.map .char := by
  unfold HasEscape at h
  induction l using pieces.induct with
  | case1 a b l x hx ih =>
      rw [pieces, hx] at h
      exact absurd ⟨_, List.mem_cons_self, rfl⟩ h
  | case2 a b l hx ih =>
      rw [pieces, hx] at h ⊢
      exact congrArg _ (ih fun ⟨p, hp, he⟩ => h ⟨p, List.mem_cons_of_mem _ hp, he⟩)
  | case3 c l hc ih =>
      rw [pieces_char hc] at h ⊢
      exact congrArg _ (ih fun ⟨p, hp, he⟩ => h ⟨p, List.mem_cons_of_mem _ hp, he⟩)
  | case4 => rfl

/-- A character in UTF-8 has one byte that begins it. -/
theorem countP_utf8EncodeChar (c : Char) :
    (String.utf8EncodeChar c).countP (fun b => b.IsUTF8FirstByte) = 1 := by
  have hfirst (i : ℕ) (hi : i < (String.utf8EncodeChar c).length) :
      (String.utf8EncodeChar c)[i].IsUTF8FirstByte ↔ i = 0 :=
    UInt8.isUTF8FirstByte_getElem_utf8EncodeChar
  obtain ⟨b, bs, hbs⟩ := List.exists_cons_of_ne_nil (String.utf8EncodeChar_ne_nil (c := c))
  generalize String.utf8EncodeChar c = l at hfirst hbs
  subst hbs
  have hb : b.IsUTF8FirstByte := (hfirst 0 (by simp)).mpr rfl
  have hrest : bs.countP (fun b => b.IsUTF8FirstByte) = 0 := by
    rw [List.countP_eq_zero]
    intro x hx
    obtain ⟨i, hi, rfl⟩ := List.mem_iff_getElem.mp hx
    have := hfirst (i + 1) (by simpa using hi)
    simpa using this
  rw [List.countP_cons, hrest, if_pos (by simpa using hb)]

/-- **What is read back is no longer**, and shorter if the text had escapes. -/
theorem length_le_of_decode {l t : List Char}
    (h : decode ((normalizeQuery l).map plusToBlank) = some t) :
    t.length + 2 * (pieces l).countP Piece.isEsc ≤ l.length := by
  unfold decode at h
  rw [bytes_normalizeQuery, Option.bind_some] at h
  have hcount := congrArg (List.countP fun b => b.IsUTF8FirstByte) (eq_of_ofUtf8 h)
  have hmeant (ps : List Piece) :
      (ps.flatMap Piece.meant).countP (fun b => b.IsUTF8FirstByte) ≤ ps.length := by
    induction ps with
    | nil => exact le_rfl
    | cons p ps ih =>
        have hp : p.meant.countP (fun b => b.IsUTF8FirstByte) ≤ 1 := by
          cases p with
          | esc b => exact List.countP_le_length
          | char c => exact (countP_utf8EncodeChar _).le
        rw [List.flatMap_cons, List.countP_append, List.length_cons]
        omega
  have htext : (t.flatMap String.utf8EncodeChar).countP (fun b => b.IsUTF8FirstByte) =
      t.length := by
    clear h hcount
    induction t with
    | nil => rfl
    | cons c t ih =>
        rw [List.flatMap_cons, List.countP_append, ih, countP_utf8EncodeChar, List.length_cons,
          Nat.add_comm]
  have := hmeant (pieces l)
  have := length_pieces l
  omega

theorem decode_of_not_hasEscape {l : List Char} (h : ¬ HasEscape l) :
    decode ((normalizeQuery l).map plusToBlank) = some (l.map plusToBlank) := by
  have hmeant : (pieces l).flatMap Piece.meant =
      (l.map plusToBlank).flatMap String.utf8EncodeChar := by
    rw [pieces_of_not_hasEscape h, List.flatMap_map, List.flatMap_map]
    rfl
  unfold decode
  rw [bytes_normalizeQuery, Option.bind_some, hmeant, ofUtf8_flatMap]

theorem map_plusToBlank_eq_iff (l : List Char) : l.map plusToBlank = l ↔ '+' ∉ l := by
  induction l with
  | nil => simp
  | cons c l ih =>
      have hc : plusToBlank c = c ↔ '+' ≠ c := by
        by_cases h : c = '+' <;> simp [plusToBlank, h, eq_comm]
      rw [List.map_cons, List.cons.injEq, hc, ih, List.mem_cons, not_or]

theorem mem_of_char_mem_pieces {c : Char} {l : List Char} (h : .char c ∈ pieces l) : c ∈ l := by
  induction l using pieces.induct with
  | case1 a b l x hx ih =>
      rw [pieces, hx] at h
      have h : .char c ∈ pieces l := by simpa using h
      simp [ih h]
  | case2 a b l hx ih =>
      rw [pieces, hx] at h
      rcases List.mem_cons.mp h with h | h
      · exact List.mem_cons.mpr (.inl (Piece.char.inj h))
      · exact List.mem_cons_of_mem _ (ih h)
  | case3 d l hd ih =>
      rw [pieces_char hd] at h
      rcases List.mem_cons.mp h with h | h
      · exact List.mem_cons.mpr (.inl (Piece.char.inj h))
      · exact List.mem_cons_of_mem _ (ih h)
  | case4 => cases h

/-- A delimiter of the query comes from the text. -/
theorem mem_of_mem_normalizeQuery {c : Char} (hx : Json.hexDigit c = none) (hp : c ≠ '%')
    (hu : unreserved c = false) {l : List Char} (h : c ∈ normalizeQuery l) :
    queryChar c = true ∧ c ∈ l := by
  have hescape (b : UInt8) : c ∉ escape b := by
    have hb : b.toNat < 256 := b.toNat_lt
    have hdigit {n : ℕ} (hn : n < 16) : c ≠ hexChar n := by
      rintro rfl
      rw [hexDigit_hexChar hn] at hx
      cases hx
    simp [escape, hp, hdigit (n := b.toNat / 16) (by omega),
      hdigit (n := b.toNat % 16) (Nat.mod_lt _ (by decide))]
  obtain ⟨p, hmem, hc⟩ := List.mem_flatMap.mp h
  cases p with
  | esc b =>
      rw [Piece.normal] at hc
      split_ifs at hc with hb
      · rw [List.mem_singleton.mp hc, hb] at hu
        cases hu
      · exact absurd hc (hescape b)
  | char d =>
      rw [Piece.normal] at hc
      split_ifs at hc with hd
      · obtain rfl := List.mem_singleton.mp hc
        exact ⟨hd, mem_of_char_mem_pieces hmem⟩
      · obtain ⟨b, -, hb⟩ := List.mem_flatMap.mp hc
        exact absurd hb (hescape b)

theorem not_hasEscape_of_decode {l : List Char}
    (h : decode ((normalizeQuery l).map plusToBlank) = some l) : ¬ HasEscape l := by
  intro he
  have hlen := length_le_of_decode h
  have hpos := List.countP_pos_iff.mpr he
  omega

theorem readField_of_not_hasEscape {l : List Char} (h : ¬ HasEscape l) :
    readField (normalizeQuery l) = l.map plusToBlank := by
  rw [readField_eq, decode_of_not_hasEscape h, Option.getD_some]

/-- A field that is kept because it cannot be decoded. -/
theorem of_readField_kept {l : List Char}
    (hd : decode ((normalizeQuery l).map plusToBlank) = none) (h : readField (normalizeQuery l) = l) :
    '+' ∉ l ∧ normalizeQuery l = l := by
  rw [readField_eq, hd, Option.getD_none] at h
  have hp : '+' ∉ l := by
    rw [← h, List.mem_map]
    rintro ⟨c, -, hc⟩
    exact plusToBlank_ne_plus c hc
  have hplus : '+' ∉ normalizeQuery l := fun hn =>
    hp (mem_of_mem_normalizeQuery (by decide) (by decide) (by decide) hn).2
  rw [(map_plusToBlank_eq_iff _).mpr hplus] at h
  exact ⟨hp, h⟩

/-- **Which texts come back.**  A field that was normalised on the way is read back as it was iff
it has no `+`, and no escape either unless it is sent as it is and its bytes are not UTF-8. -/
theorem readField_normalizeQuery_iff (l : List Char) :
    readField (normalizeQuery l) = l ↔
      '+' ∉ l ∧ (HasEscape l → normalizeQuery l = l ∧ decode l = none) := by
  constructor
  · intro h
    cases hd : decode ((normalizeQuery l).map plusToBlank) with
    | some t =>
        have ht : t = l := by
          rwa [readField_eq, hd, Option.getD_some] at h
        have hesc := not_hasEscape_of_decode (hd.trans (congrArg some ht))
        rw [readField_of_not_hasEscape hesc, map_plusToBlank_eq_iff] at h
        exact ⟨h, fun he => absurd he hesc⟩
    | none =>
        obtain ⟨hp, hn⟩ := of_readField_kept hd h
        rw [hn, (map_plusToBlank_eq_iff l).mpr hp] at hd
        exact ⟨hp, fun _ => ⟨hn, hd⟩⟩
  · rintro ⟨hp, hesc⟩
    have hmap := (map_plusToBlank_eq_iff l).mpr hp
    by_cases he : HasEscape l
    · obtain ⟨hn, hnone⟩ := hesc he
      rw [readField_eq, hn, hmap, hnone, Option.getD_none]
    · rw [readField_of_not_hasEscape he, hmap]

-- what is not UTF-8 is kept, with the digits of the normalised query
example : readField (normalizeQuery ['%', 'F', 'F']) = ['%', 'F', 'F'] ∧
    readField (normalizeQuery ['%', 'f', 'f']) = ['%', 'F', 'F'] ∧
    readField (normalizeQuery ['%', '4', '1']) = ['A'] := by decide +kernel

/-- A text cut short at a delimiter does not come back whole. -/
theorem readField_normalizeQuery_ne {d : Char} (hx : Json.hexDigit d = none) (hp : d ≠ '%')
    (hu : unreserved d = false) (hb : d ≠ ' ') {l : List Char} (hd : d ∉ l) (r : List Char) :
    readField (normalizeQuery l) ≠ l ++ d :: r := by
  intro h
  rw [readField_eq] at h
  cases hdec : decode ((normalizeQuery l).map plusToBlank) with
  | some t =>
      rw [hdec, Option.getD_some] at h
      have hlen := length_le_of_decode hdec
      rw [h, List.length_append, List.length_cons] at hlen
      omega
  | none =>
      rw [hdec, Option.getD_none] at h
      have hmem : d ∈ (normalizeQuery l).map plusToBlank := by simp [h]
      obtain ⟨c, hc, hcd⟩ := List.mem_map.mp hmem
      have hplus : c ≠ '+' := by
        rintro rfl
        exact hb hcd.symm
      rw [plusToBlank_of_ne hplus] at hcd
      exact hd (mem_of_mem_normalizeQuery hx hp hu (hcd ▸ hc)).2

end Percent
