import Mathlib.Algebra.Order.BigOperators.Group.List
import Mathlib.Data.Setoid.Basic
import Mathlib.Tactic.Choose
import EasyGrocery.Lib.Like
import EasyGrocery.Server.Handlers
import EasyGrocery.Server.Queries

/-! # The products a search finds

The item handler against a database that is known only by what it does with a query of the
intended form: it returns the names of the two tables that match the two patterns, each once.

`searchExact_iff`: whatever the tables hold, a search finds exactly the products with its words
in order, iff its text has no quote, no backslash, no `%` and no `_`.  The pattern of such a text
says what it should (`like_pattern_iff`).  Of any other the lightest name that its pattern matches
is too light to hold the words (`lightest_literal_le`). -/

namespace EasyGrocery.Server

open SqlText Words

/-! ### The database -/

def printable (c : Char) : Bool := 0x20 ≤ c.toNat && c.toNat < 0x7F

/-- A case-insensitive collation: the characters with the same `fold` count as equal.  Among the
printable ASCII characters these are the two cases of a letter. -/
structure Collation (κ : Type) where
  fold : Char → κ
  fold_eq_iff : ∀ a b, printable a → printable b → (fold a = fold b ↔ a.toLower = b.toLower)

/-- The collation that knows the ASCII letters only. -/
def Collation.ascii : Collation Char := ⟨Char.toLower, fun _ _ _ _ => Iff.rfl⟩

section collation

variable {κ : Type} (coll : Collation κ)

/-- `name LIKE p` -/
def Collation.like [DecidableEq κ] (p name : String) : Bool :=
  Like.accepts ((Like.parse p.toList).map (.map coll.fold)) (name.toList.map coll.fold)

/-- The words of a search: split at single blanks, empty ones ignored. -/
def searchWords (s : String) : List (List Char) := pieces (· == ' ') s.toList

/-- The name holds the words of the search in order, without overlap. -/
def Collation.Contains (s name : String) : Prop :=
  InOrder ((searchWords s).map (List.map coll.fold)) (name.toList.map coll.fold)

end collation

/-- The list holds what satisfies `Q`, without repetition.  `same` are the rows that count as
repeated: equal texts, or those that the collation does not tell apart. -/
structure Lists (same : Setoid String) (Q : String → Prop) (names : List String) : Prop where
  once : names.Pairwise fun a b => ¬ same a b
  sound : ∀ n ∈ names, Q n
  complete : ∀ n, Q n → ∃ m ∈ names, same m n

/-- Only rows with the same text are repeated. -/
def equalTexts : Setoid String := ⟨Eq, eq_equivalence⟩

theorem lists_equalTexts_iff {Q : String → Prop} {names : List String} :
    Lists equalTexts Q names ↔ names.Nodup ∧ ∀ n, n ∈ names ↔ Q n := by
  constructor
  · intro h
    refine ⟨h.once, fun n => ⟨h.sound n, fun hn => ?_⟩⟩
    obtain ⟨m, hm, rfl⟩ := h.complete n hn
    exact hm
  · rintro ⟨hnodup, hmem⟩
    exact ⟨hnodup, fun n => (hmem n).mp, fun n hn => ⟨n, (hmem n).mpr hn, rfl⟩⟩

theorem Lists.congr {same : Setoid String} {Q Q' : String → Prop} (h : ∀ n, Q n ↔ Q' n)
    {names : List String} (hl : Lists same Q names) : Lists same Q' names :=
  ⟨hl.once, fun n hn => (h n).mp (hl.sound n hn), fun n hn => hl.complete n ((h n).mpr hn)⟩

/-- The tokens of a query of the intended form. -/
def unionLike (p q : String) : List Token :=
  selectLike "Safeway" ++ .str p :: .word "UNION" :: (selectLike "Walmart" ++ [.str q])

section database

variable {κ : Type} [DecidableEq κ]

/-- What is assumed of the database with these names in its tables: `LIKE` on the collation, and
`UNION`, which removes repeated rows.  Nothing is assumed of other texts. -/
def AnswersUnion (coll : Collation κ) (same : Setoid String) (safeway walmart : List String)
    (database : String → Except String (List String)) : Prop :=
  ∀ sql p q, tokens sql = some (unionLike p q) → ∃ names, database sql = .ok names ∧
    Lists same (fun n => (n ∈ safeway ∧ coll.like p n) ∨ (n ∈ walmart ∧ coll.like q n)) names

theorem exists_lists (same : Setoid String) (l : List String) :
    ∃ names, Lists same (· ∈ l) names := by
  induction l with
  | nil => exact ⟨[], .nil, fun n hn => hn, fun n hn => absurd hn List.not_mem_nil⟩
  | cons a l ih =>
      obtain ⟨names, h⟩ := ih
      have hsound : ∀ n ∈ names, n ∈ a :: l := fun n hn => List.mem_cons_of_mem a (h.sound n hn)
      by_cases ha : ∃ m ∈ names, same m a
      · refine ⟨names, h.once, hsound, fun n hn => ?_⟩
        rcases List.mem_cons.mp hn with rfl | hn
        · exact ha
        · exact h.complete n hn
      · refine ⟨a :: names, List.pairwise_cons.mpr ⟨?_, h.once⟩, ?_, fun n hn => ?_⟩
        · exact fun m hm heq => ha ⟨m, hm, same.symm heq⟩
        · exact List.forall_mem_cons.mpr ⟨List.mem_cons_self, hsound⟩
        · rcases List.mem_cons.mp hn with rfl | hn
          · exact ⟨n, List.mem_cons_self, same.refl n⟩
          · obtain ⟨m, hm, heq⟩ := h.complete n hn
            exact ⟨m, List.mem_cons_of_mem a hm, heq⟩

theorem unionLike_inj {p q p' q' : String} (h : unionLike p q = unionLike p' q') :
    p = p' ∧ q = q' := by
  simpa [unionLike, selectLike] using h

/-- There is such a database, and one that rejects every other text. -/
theorem exists_database (coll : Collation κ) (same : Setoid String) (safeway walmart : List String)
    (err : String) : ∃ database, AnswersUnion coll same safeway walmart database ∧
      ∀ sql, (∀ p q, tokens sql ≠ some (unionLike p q)) → database sql = .error err := by
  have houtcome (sql : String) : ∃ outcome : Except String (List String),
      (∀ p q, tokens sql = some (unionLike p q) → ∃ names, outcome = .ok names ∧
        Lists same (fun n => (n ∈ safeway ∧ coll.like p n) ∨ (n ∈ walmart ∧ coll.like q n)) names) ∧
      ((∀ p q, tokens sql ≠ some (unionLike p q)) → outcome = .error err) := by
    by_cases hform : ∃ p q, tokens sql = some (unionLike p q)
    · obtain ⟨p, q, hform⟩ := hform
      obtain ⟨names, h⟩ :=
        exists_lists same (safeway.filter (coll.like p) ++ walmart.filter (coll.like q))
      refine ⟨.ok names, fun p' q' hform' => ⟨names, rfl, ?_⟩, fun hn => absurd hform (hn p q)⟩
      obtain ⟨rfl, rfl⟩ := unionLike_inj (Option.some.inj (hform.symm.trans hform'))
      exact h.congr fun n => by simp
    · exact ⟨.error err, fun p q h => absurd ⟨p, q, h⟩ hform, fun _ => rfl⟩
  choose database hdatabase using houtcome
  exact ⟨database, fun sql => (hdatabase sql).1, fun sql => (hdatabase sql).2⟩

end database

/-! ### The search -/

section search

variable {P : Type}

/-- A request to the item handler, up to the answer of the database. -/
def searchItem (database : String → Except String (List String)) (g : Globals P) (item : String) :
    ItemRequest :=
  let r := (onItem g (some item)).2
  match r.query with
  | none => r
  | some sql => r.onResult (database sql)

/-- Whatever the tables hold, the response to the search is the list of the products that contain
its words. -/
def SearchExact {κ : Type} [DecidableEq κ] (coll : Collation κ) (same : Setoid String)
    (g : Globals P) (s : String) : Prop :=
  ∀ safeway walmart database, AnswersUnion coll same safeway walmart database →
    ∃ names, (searchItem database g s).sent = [names] ∧
      Lists same (fun n => (n ∈ safeway ∨ n ∈ walmart) ∧ coll.Contains s n) names

theorem searchItem_sent (database : String → Except String (List String)) (g : Globals P)
    (s : String) : (searchItem database g s).sent = (database (itemSql s)).toOption.toList := by
  rw [searchItem, onItem_snd]
  dsimp only [Option.map_some]
  cases database (itemSql s) <;> rfl

end search

/-! ### Patterns that say what they should -/

section plain

variable {κ : Type} [DecidableEq κ] (coll : Collation κ)

/-- A character that does not come out of the query as it went in, or that `LIKE` reads. -/
def special (c : Char) : Bool := c = '\'' || c = '\\' || c = '%' || c = '_'

theorem not_special {c : Char} (h : special c = false) :
    c ≠ '\'' ∧ c ≠ '\\' ∧ c ≠ '%' ∧ c ≠ '_' := by
  simpa [special, and_assoc] using h

theorem plainSearch_of_not_special :
    ∀ {l : List Char}, (∀ c ∈ l, special c = false) → plainSearch l = true
  | [], _ => rfl
  | c :: l, h => by
      obtain ⟨hq, hb, -, -⟩ := not_special (h c List.mem_cons_self)
      have hl := plainSearch_of_not_special fun d hd => h d (List.mem_cons_of_mem c hd)
      rw [plainSearch]
      · simp [hq, hb, hl]
      all_goals simp [hb]

/-- **The pattern of a text without special characters** matches the names that contain the words
of the text. -/
theorem like_pattern_iff {s : String} (hs : ∀ c ∈ s.toList, special c = false) (name : String) :
    coll.like (pattern s) name = true ↔ coll.Contains s name := by
  have hplain : ∀ w ∈ s.toList.splitOn ' ', ∀ c ∈ w, c ≠ '\\' ∧ c ≠ '%' ∧ c ≠ '_' := by
    intro w hw c hc
    have hmem : c ∈ (s.toList.splitOnP (· == ' ')).flatten := List.mem_flatten_of_mem hw hc
    rw [flatten_splitOnP] at hmem
    exact (not_special (hs c (List.mem_of_mem_filter hmem))).2
  rw [Collation.like, pattern_toList, ← flatMap_splitOn, Like.parse_words hplain, Like.map_words,
    Like.accepts_words, ← inOrder_filter, List.filter_map]
  have hempty : (fun w => !w.isEmpty) ∘ List.map coll.fold = fun w => !w.isEmpty := by
    funext w
    simp
  rw [hempty]
  rfl

end plain

/-! ### Patterns of special characters -/

section special

variable {κ : Type} [DecidableEq κ] (coll : Collation κ)

/-- Characters that count as equal weigh the same: a backslash 3, `_` 2, any other 1. -/
def Collation.weight (k : κ) : ℕ :=
  if k = coll.fold '\\' then 3 else if k = coll.fold '_' then 2 else 1

def Collation.weightOf (c : Char) : ℕ := coll.weight (coll.fold c)

theorem weightOf_pos (c : Char) : 1 ≤ coll.weightOf c := by
  unfold Collation.weightOf Collation.weight
  split_ifs <;> decide

theorem weightOf_le (c : Char) : coll.weightOf c ≤ 3 := by
  unfold Collation.weightOf Collation.weight
  split_ifs <;> decide

theorem weightOf_backslash : coll.weightOf '\\' = 3 := if_pos rfl

omit [DecidableEq κ] in
/-- Printable characters that differ beyond their case. -/
theorem fold_ne {a b : Char} (ha : printable a) (hb : printable b) (h : a.toLower ≠ b.toLower) :
    coll.fold a ≠ coll.fold b := fun heq => h ((coll.fold_eq_iff a b ha hb).mp heq)

theorem weightOf_underscore : coll.weightOf '_' = 2 := by
  have hb : coll.fold '_' ≠ coll.fold '\\' := fold_ne coll (by decide) (by decide) (by decide)
  simp [Collation.weightOf, Collation.weight, hb]

theorem weightOf_percent : coll.weightOf '%' = 1 := by
  have hb : coll.fold '%' ≠ coll.fold '\\' := fold_ne coll (by decide) (by decide) (by decide)
  have hu : coll.fold '%' ≠ coll.fold '_' := fold_ne coll (by decide) (by decide) (by decide)
  simp [Collation.weightOf, Collation.weight, hb, hu]

theorem weightOf_x : coll.weightOf 'x' = 1 := by
  have hb : coll.fold 'x' ≠ coll.fold '\\' := fold_ne coll (by decide) (by decide) (by decide)
  have hu : coll.fold 'x' ≠ coll.fold '_' := fold_ne coll (by decide) (by decide) (by decide)
  simp [Collation.weightOf, Collation.weight, hb, hu]

/-- What the lightest name weighs that the pattern matches, with `x` for a wildcard. -/
def Collation.lightest (p : List Char) : ℕ := Like.weightLeast coll.weightOf 'x' p

/-- What a text weighs without its blanks. -/
def Collation.wordsWeight (l : List Char) : ℕ :=
  ((l.filter fun c => !(c == ' ')).map coll.weightOf).sum

theorem wordsWeight_cons (c : Char) (l : List Char) : coll.wordsWeight (c :: l) =
    (if c = ' ' then 0 else coll.weightOf c) + coll.wordsWeight l := by
  unfold Collation.wordsWeight
  by_cases hc : c = ' ' <;> simp [hc]

theorem weights : Like.Weights coll.weightOf 'x' where
  one := by rw [weightOf_x, weightOf_underscore]; decide
  escape_run := by rw [weightOf_percent, weightOf_backslash]; decide
  escape_one := by rw [weightOf_underscore, weightOf_backslash, weightOf_x]; decide

theorem lightest_cons_le (c : Char) (p : List Char) :
    coll.lightest (c :: p) ≤ coll.weightOf c + coll.lightest p := (weights coll).cons_le c p

theorem lightest_append_le (p r : List Char) :
    coll.lightest (p ++ r) ≤ coll.lightest p + coll.lightest r := (weights coll).append_le p r

/-- An escape is lighter than its two characters, also when the second one was a blank. -/
theorem lightest_unescape (c : Char) :
    coll.lightest (unescape (blankToPercent c)) + 1 ≤ 3 + if c = ' ' then 0 else coll.weightOf c := by
  have hsingle (d : Char) : coll.lightest [d] ≤ 3 :=
    (lightest_cons_le coll d []).trans (weightOf_le coll d)
  have hescape (d : Char) : coll.lightest ['\\', d] = coll.weightOf d :=
    Like.weightLeast_escape d []
  by_cases hc : c = ' '
  · subst hc
    have h : unescape (blankToPercent ' ') = ['\\', '%'] := by decide
    rw [h, hescape, weightOf_percent, if_pos rfl]
    decide
  · rw [blankToPercent, if_neg hc, if_neg hc]
    have hpos := weightOf_pos coll c
    unfold unescape
    split
    case h_7 => rw [hescape, weightOf_percent]; omega
    case h_8 => rw [hescape, weightOf_underscore]; decide
    all_goals exact Nat.add_le_add (hsingle _) hpos

/-- A character that the literal keeps: a wildcard weighs less than it did in the text. -/
theorem lightest_char {c : Char} (hb : c ≠ '\\') (hq : c ≠ '\'') :
    coll.lightest [blankToPercent c] + (special c).toNat ≤
      if c = ' ' then 0 else coll.weightOf c := by
  rw [Collation.lightest, Like.weightLeast_singleton]
  by_cases hc : c = ' '
  · subst hc
    exact le_rfl
  · rw [blankToPercent, if_neg hc, if_neg hc]
    by_cases hp : c = '%'
    · subst hp
      exact weightOf_pos coll '%'
    · by_cases hu : c = '_'
      · subst hu
        rw [if_neg hp, if_pos rfl, weightOf_x, weightOf_underscore]
        decide
      · have hs : special c = false := by simp [special, hb, hq, hp, hu]
        rw [if_neg hp, if_neg hu, hs]
        exact le_rfl

/-- The pattern of `l` with what comes after it in the query. -/
def patternText (l rest : List Char) : List Char :=
  l.map blankToPercent ++ '%' :: '\'' :: ' ' :: rest

section patternText

variable (l rest : List Char)

theorem literal_patternText_nil : literal '\'' (patternText [] rest) = ['%'] := by
  rw [patternText, List.map_nil, List.nil_append, literal_cons (by decide) (by decide),
    literal_close (by decide) (by decide)]

/-- A last backslash takes the `%` behind the last word, like one behind a blank. -/
theorem literal_patternText_backslash :
    literal '\'' (patternText ['\\'] rest) = unescape (blankToPercent ' ') := by
  have h : literal '\'' (patternText ['\\'] rest) =
      unescape '%' ++ literal '\'' ('\'' :: ' ' :: rest) := literal_escape _ _ _
  rw [h, literal_close (by decide) (by decide), List.append_nil]
  rfl

theorem literal_patternText_escape (c : Char) : literal '\'' (patternText ('\\' :: c :: l) rest) =
    unescape (blankToPercent c) ++ literal '\'' (patternText l rest) := literal_escape _ _ _

theorem literal_patternText_quote : literal '\'' (patternText ('\'' :: '\'' :: l) rest) =
    '\'' :: literal '\'' (patternText l rest) := literal_quote_quote (by decide) _

theorem literal_patternText_close (h : l.head? ≠ some '\'') :
    literal '\'' (patternText ('\'' :: l) rest) = [] := by
  cases l with
  | nil => exact literal_close (by decide) (by decide) _
  | cons c l => exact literal_close (by decide) (blankToPercent_ne (by simpa using h) (by decide)) _

theorem literal_patternText_cons {c : Char} (hb : c ≠ '\\') (hq : c ≠ '\'') :
    literal '\'' (patternText (c :: l) rest) =
      blankToPercent c :: literal '\'' (patternText l rest) :=
  literal_cons (blankToPercent_ne hb (by decide)) (blankToPercent_ne hq (by decide)) _

end patternText

/-- **Special characters lose weight.**  The lightest name that the pattern of a text matches, as
the database reads it, is no heavier than the words of the text, and lighter if one of its
characters is special. -/
theorem lightest_literal_le (rest : List Char) : ∀ l : List Char,
    coll.lightest (literal '\'' (patternText l rest)) + (l.any special).toNat ≤ coll.wordsWeight l
  | [] => by
      rw [literal_patternText_nil]
      exact Nat.zero_le _
  | c :: l => by
      have hany : ((c :: l).any special).toNat ≤ 1 := Bool.toNat_le _
      have hpos := weightOf_pos coll c
      by_cases hb : c = '\\'
      · subst hb
        rw [wordsWeight_cons, if_neg (by decide), weightOf_backslash]
        cases l with
        | nil =>
            have hle := lightest_unescape coll ' '
            rw [literal_patternText_backslash]
            exact (Nat.add_le_add_left hany _).trans hle
        | cons d l =>
            have ih := lightest_literal_le rest l
            have hle := lightest_unescape coll d
            have happ := lightest_append_le coll (unescape (blankToPercent d))
              (literal '\'' (patternText l rest))
            rw [literal_patternText_escape, wordsWeight_cons]
            omega
      · by_cases hq : c = '\''
        · subst hq
          rw [wordsWeight_cons, if_neg (by decide)]
          have hnil : coll.lightest [] = 0 := rfl
          cases l with
          | nil => rw [literal_patternText_close [] rest (by simp)]; omega
          | cons d l =>
              by_cases hd : d = '\''
              · subst hd
                have ih := lightest_literal_le rest l
                have hle := lightest_cons_le coll '\'' (literal '\'' (patternText l rest))
                rw [literal_patternText_quote, wordsWeight_cons, if_neg (by decide)]
                omega
              · -- the literal ends here, and with it the pattern
                rw [literal_patternText_close (d :: l) rest (by simpa using hd)]
                omega
        · have ih := lightest_literal_le rest l
          have hle := lightest_char coll hb hq
          have hor : ((c :: l).any special).toNat ≤ (special c).toNat + (l.any special).toNat := by
            rw [List.any_cons]
            cases special c <;> cases l.any special <;> decide
          have hcons : coll.lightest (blankToPercent c :: literal '\'' (patternText l rest)) =
              coll.lightest [blankToPercent c] + coll.lightest (literal '\'' (patternText l rest)) :=
            Like.weightLeast_cons (blankToPercent_ne hb (by decide)) _
          rw [literal_patternText_cons l rest hb hq, hcons, wordsWeight_cons]
          omega

end special

/-! ### Exact searches -/

section exact

variable {κ : Type} [DecidableEq κ] (coll : Collation κ) (same : Setoid String)

/-- The first pattern of the query, as the database reads it. -/
theorem itemSql_literal {s p q : String} (h : tokens (itemSql s) = some (unionLike p q)) :
    ∃ rest, p.toList = '%' :: literal '\'' (patternText s.toList rest) := by
  rw [tokens_itemSql] at h
  generalize "UNION SELECT productName FROM Walmart where productName like '".toList ++ _ = rest at h
  have hpre := literal_prefix (by decide) h
  rw [unionLike, List.prefix_append_right_inj] at hpre
  have hp := Token.str.inj (List.cons_prefix_cons.mp hpre).1
  refine ⟨rest, ?_⟩
  rw [← hp, String.toList_ofList, List.nil_append, pattern_toList, List.cons_append,
    literal_cons (by decide) (by decide), List.append_assoc]
  rfl

omit [DecidableEq κ] in
/-- A name that holds the words of a search has its characters in order. -/
theorem sublist_of_contains {s name : String} (h : coll.Contains s name) :
    ((s.toList.filter fun c => !(c == ' ')).map coll.fold).Sublist (name.toList.map coll.fold) := by
  have hflat := InOrder.sublist h
  rwa [← List.map_flatten, searchWords, flatten_pieces] at hflat

theorem wordsWeight_le {s name : String} (h : coll.Contains s name) :
    coll.wordsWeight s.toList ≤ (name.toList.map coll.weightOf).sum := by
  have hsum := ((sublist_of_contains coll h).map coll.weight).sum_le_sum fun _ _ => Nat.zero_le _
  rw [List.map_map, List.map_map] at hsum
  exact hsum

/-- The pattern of a text with special characters matches a name without its words. -/
theorem exists_like_not_contains {s p q : String} (hs : s.toList.any special = true)
    (h : tokens (itemSql s) = some (unionLike p q)) :
    ∃ name, coll.like p name = true ∧ ¬ coll.Contains s name := by
  refine ⟨String.ofList (Like.least 'x' (Like.parse p.toList)), ?_, fun hc => ?_⟩
  · rw [Collation.like, String.toList_ofList]
    exact Like.accepts_least coll.fold 'x' _
  · obtain ⟨rest, hp⟩ := itemSql_literal h
    have hle := wordsWeight_le coll hc
    have hlt := lightest_literal_le coll rest s.toList
    have hpercent : Like.weightLeast coll.weightOf 'x' p.toList =
        coll.lightest (literal '\'' (patternText s.toList rest)) := by
      rw [hp, Like.weightLeast_cons (by decide), Like.weightLeast_singleton, if_pos rfl, Nat.zero_add]
      rfl
    rw [String.toList_ofList] at hle
    rw [hs, Bool.toNat_true, ← hpercent, Like.weightLeast] at hlt
    omega

/-- **Which searches are exact.**  Whatever the two tables hold, the names returned are exactly the
products with the words of the search in order, without repetition, iff the search has no quote,
no backslash, no `%` and no `_`. -/
theorem searchExact_iff {P : Type} (g : Globals P) (s : String) :
    SearchExact coll same g s ↔ ∀ c ∈ s.toList, special c = false := by
  constructor
  · intro h
    by_contra hspecial
    have hs : s.toList.any special = true := by simpa using hspecial
    by_cases hform : ∃ p q, tokens (itemSql s) = some (unionLike p q)
    · obtain ⟨p, q, hform⟩ := hform
      obtain ⟨name, hlike, hnot⟩ := exists_like_not_contains coll hs hform
      obtain ⟨database, hdb, -⟩ := exists_database coll same [name] [] ""
      obtain ⟨names, hok, hlists⟩ := hdb _ p q hform
      obtain ⟨names', hsent, hlists'⟩ := h [name] [] database hdb
      rw [searchItem_sent, hok] at hsent
      obtain rfl : names = names' := by simpa [Except.toOption] using hsent
      -- the table has one row, and the query finds it
      obtain ⟨m, hm, -⟩ := hlists.complete name (.inl ⟨List.mem_cons_self, hlike⟩)
      obtain ⟨hmem, hcontains⟩ := hlists'.sound m hm
      obtain rfl : m = name := by simpa using hmem
      exact hnot hcontains
    · obtain ⟨database, hdb, herr⟩ := exists_database coll same [] [] ""
      obtain ⟨names, hsent, -⟩ := h [] [] database hdb
      rw [searchItem_sent, herr _ fun p q hpq => hform ⟨p, q, hpq⟩] at hsent
      simp [Except.toOption] at hsent
  · intro hs safeway walmart database hdb
    have htokens := (itemSql_tokens_iff s).mpr (plainSearch_of_not_special hs)
    obtain ⟨names, hok, hlists⟩ := hdb (itemSql s) (pattern s) (pattern s) htokens
    refine ⟨names, by rw [searchItem_sent, hok]; rfl, hlists.congr fun n => ?_⟩
    rw [like_pattern_iff coll hs, or_and_right]

end exact

/-- The `%` of "2% milk" finds a product of two pounds. -/
theorem not_searchExact :
    ¬ ∀ s, SearchExact Collation.ascii equalTexts (Globals.init : Globals Decimal) s := by
  intro h
  obtain ⟨database, hdb, -⟩ := exists_database Collation.ascii equalTexts ["2 lb buttermilk"] [] ""
  have htokens := (itemSql_tokens_iff "2% milk").mpr (by decide)
  obtain ⟨names, hok, hlists⟩ := hdb (itemSql "2% milk") _ _ htokens
  obtain ⟨names', hsent, hlists'⟩ := h "2% milk" _ _ database hdb
  rw [searchItem_sent, hok] at hsent
  obtain rfl : names = names' := by simpa [Except.toOption] using hsent
  have hlike : Collation.ascii.like (pattern "2% milk") "2 lb buttermilk" = true := by decide +kernel
  have hfound : "2 lb buttermilk" ∈ names :=
    ((lists_equalTexts_iff.mp hlists).2 _).mpr (.inl ⟨List.mem_cons_self, hlike⟩)
  have hsub := sublist_of_contains _ (((lists_equalTexts_iff.mp hlists').2 _).mp hfound).2
  revert hsub
  decide +kernel

end EasyGrocery.Server
