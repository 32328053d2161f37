import Mathlib.Data.List.Infix

/-! # Tokens of a MySQL text

The lexical structure of MySQL in its default mode, read one character at a time: words,
string literals in either quote, names in backticks, comments, and single symbols.  Inside a
literal a doubled quote stands for a quote and a backslash starts an escape; `\%` and `\_`
stand for themselves, backslash included.

For programs that splice text between quotes: the text comes out as the value of the literal
it was put into iff it holds no quote and no backslash other than in `\%` and `\_`
(`tokens_literal_iff`). -/

namespace SqlText

inductive Token where
  /-- a keyword, name or number -/
  | word (s : String)
  /-- a string literal, by its value -/
  | str (s : String)
  /-- a name in backticks -/
  | name (s : String)
  | sym (c : Char)
deriving DecidableEq

/-- Where the lexer stands; `q` is the quote of the literal it is in. -/
inductive Mode where
  | start
  | word (acc : List Char)
  | str (q : Char) (acc : List Char)
  | strEsc (q : Char) (acc : List Char)
  /-- after a quote inside a literal: its end, or the first half of a doubled quote -/
  | strQuote (q : Char) (acc : List Char)
  | name (acc : List Char)
  | nameQuote (acc : List Char)
  | dash
  | dashDash
  | slash
  | slashStar
  | lineComment
  | blockComment
  | blockStar
deriving DecidableEq

structure Lex where
  mode : Mode
  toks : List Token
deriving DecidableEq

def isWs (c : Char) : Bool := c = ' ' || (9 ≤ c.toNat && c.toNat ≤ 13)

def isWord (c : Char) : Bool := c.isAlphanum || c = '_' || c = '$' || 0x80 ≤ c.toNat

/-- What a backslash and this character stand for in a literal. -/
def unescape : Char → List Char
  | '0' => [Char.ofNat 0]
  | 'b' => [Char.ofNat 8]
  | 'n' => ['\n']
  | 'r' => ['\r']
  | 't' => ['\t']
  | 'Z' => [Char.ofNat 26]
  | '%' => ['\\', '%']
  | '_' => ['\\', '_']
  | c => [c]

/-- A character between tokens. -/
def startChar (toks : List Token) (c : Char) : Lex :=
  if isWs c then ⟨.start, toks⟩
  else if c = '\'' ∨ c = '"' then ⟨.str c [], toks⟩
  else if c = '`' then ⟨.name [], toks⟩
  else if c = '#' then ⟨.lineComment, toks⟩
  else if c = '-' then ⟨.dash, toks⟩
  else if c = '/' then ⟨.slash, toks⟩
  else if isWord c then ⟨.word [c], toks⟩
  else ⟨.start, toks ++ [.sym c]⟩

def step (s : Lex) (c : Char) : Lex :=
  match s.mode with
  | .start => startChar s.toks c
  | .word acc =>
      if isWord c then ⟨.word (acc ++ [c]), s.toks⟩
      else startChar (s.toks ++ [.word (String.ofList acc)]) c
  | .str q acc =>
      if c = '\\' then ⟨.strEsc q acc, s.toks⟩
      else if c = q then ⟨.strQuote q acc, s.toks⟩
      else ⟨.str q (acc ++ [c]), s.toks⟩
  | .strEsc q acc => ⟨.str q (acc ++ unescape c), s.toks⟩
  | .strQuote q acc =>
      if c = q then ⟨.str q (acc ++ [q]), s.toks⟩
      else startChar (s.toks ++ [.str (String.ofList acc)]) c
  | .name acc =>
      if c = '`' then ⟨.nameQuote acc, s.toks⟩ else ⟨.name (acc ++ [c]), s.toks⟩
  | .nameQuote acc =>
      if c = '`' then ⟨.name (acc ++ [c]), s.toks⟩
      else startChar (s.toks ++ [.name (String.ofList acc)]) c
  | .dash => if c = '-' then ⟨.dashDash, s.toks⟩ else startChar (s.toks ++ [.sym '-']) c
  | .dashDash =>
      -- two dashes start a comment only before a blank or a control character
      if c = '\n' then ⟨.start, s.toks⟩
      else if isWs c ∨ c.toNat < 0x20 then ⟨.lineComment, s.toks⟩
      else startChar (s.toks ++ [.sym '-', .sym '-']) c
  | .slash => if c = '*' then ⟨.slashStar, s.toks⟩ else startChar (s.toks ++ [.sym '/']) c
  | .slashStar =>
      -- the text of a `/*!` comment is executed
      if c = '!' then ⟨.start, s.toks ++ [.sym '/', .sym '*', .sym '!']⟩
      else if c = '*' then ⟨.blockStar, s.toks⟩
      else ⟨.blockComment, s.toks⟩
  | .lineComment => if c = '\n' then ⟨.start, s.toks⟩ else s
  | .blockComment => if c = '*' then ⟨.blockStar, s.toks⟩ else s
  | .blockStar =>
      if c = '/' then ⟨.start, s.toks⟩
      else if c = '*' then s
      else ⟨.blockComment, s.toks⟩

def run (s : Lex) (text : List Char) : Lex := text.foldl step s

/-- The tokens, when the text may end here. -/
def finish (s : Lex) : Option (List Token) :=
  match s.mode with
  | .start => some s.toks
  | .word acc => some (s.toks ++ [.word (String.ofList acc)])
  | .strQuote _ acc => some (s.toks ++ [.str (String.ofList acc)])
  | .nameQuote acc => some (s.toks ++ [.name (String.ofList acc)])
  | .dash => some (s.toks ++ [.sym '-'])
  | .dashDash => some (s.toks ++ [.sym '-', .sym '-'])
  | .slash => some (s.toks ++ [.sym '/'])
  | .lineComment => some s.toks
  | _ => none

/-- The tokens of a text; `none` when a literal or a comment is left open. -/
def tokens (text : String) : Option (List Token) := finish (run ⟨.start, []⟩ text.toList)

@[simp] theorem run_nil (s : Lex) : run s [] = s := rfl

@[simp] theorem run_cons (s : Lex) (c : Char) (l : List Char) :
    run s (c :: l) = run (step s c) l := rfl

theorem run_append (s : Lex) (l m : List Char) : run s (l ++ m) = run (run s l) m :=
  List.foldl_append

/-! ### Tokens are only added -/

theorem toks_prefix_startChar (toks : List Token) (c : Char) : toks <+: (startChar toks c).toks := by
  unfold startChar
  split_ifs <;> simp

theorem toks_prefix_step (s : Lex) (c : Char) : s.toks <+: (step s c).toks := by
  have happ (t : Token) (ts : List Token) : s.toks <+: (startChar (s.toks ++ t :: ts) c).toks :=
    (List.prefix_append _ _).trans (toks_prefix_startChar _ c)
  unfold step
  cases s.mode <;> dsimp only <;> (try split_ifs) <;>
    first
      | exact toks_prefix_startChar _ c
      | exact happ _ _
      | exact List.prefix_append _ _
      | exact List.prefix_rfl

theorem toks_prefix_run (s : Lex) (l : List Char) : s.toks <+: (run s l).toks := by
  induction l generalizing s with
  | nil => exact List.prefix_rfl
  | cons c l ih => exact (toks_prefix_step s c).trans (ih (step s c))

theorem toks_prefix_finish {s : Lex} {ts : List Token} (h : finish s = some ts) : s.toks <+: ts := by
  unfold finish at h
  split at h <;> first
    | exact Option.some.inj h ▸ List.prefix_append _ _
    | exact Option.some.inj h ▸ List.prefix_rfl
    | cases h

/-- The state with the tokens `before` in front of its own. -/
def Lex.after (s : Lex) (before : List Token) : Lex := ⟨s.mode, before ++ s.toks⟩

theorem startChar_append (before toks : List Token) (c : Char) :
    startChar (before ++ toks) c = (startChar toks c).after before := by
  unfold startChar
  split_ifs <;> simp [Lex.after]

/-- The tokens already there do not matter. -/
theorem step_after (s : Lex) (before : List Token) (c : Char) :
    step (s.after before) c = (step s c).after before := by
  obtain ⟨mode, toks⟩ := s
  have hstart (ts : List Token) : startChar (before ++ toks ++ ts) c =
      (startChar (toks ++ ts) c).after before := by rw [List.append_assoc, startChar_append]
  cases mode <;> simp only [step, Lex.after] <;> (try split_ifs) <;>
    first
      | rfl
      | exact startChar_append before toks c
      | exact hstart _
      | exact congrArg (Lex.mk _) (List.append_assoc ..)

theorem run_after (s : Lex) (before : List Token) (l : List Char) :
    run (s.after before) l = (run s l).after before := by
  induction l generalizing s with
  | nil => rfl
  | cons c l ih => rw [run_cons, step_after, ih, run_cons]

/-! ### The value of a literal -/

/-- The value of a literal that the text `l` goes on with, up to its closing quote. -/
def literal (q : Char) : List Char → List Char
  | [] => []
  | [c] => if c = '\\' ∨ c = q then [] else [c]
  | c :: d :: l =>
      if c = '\\' then unescape d ++ literal q l
      else if c = q then (if d = q then q :: literal q l else [])
      else c :: literal q (d :: l)

theorem literal_escape (q d : Char) (l : List Char) :
    literal q ('\\' :: d :: l) = unescape d ++ literal q l := by
  simp [literal]

theorem literal_quote_quote {q : Char} (hq : q ≠ '\\') (l : List Char) :
    literal q (q :: q :: l) = q :: literal q l := by
  simp [literal, hq]

theorem literal_close {q d : Char} (hq : q ≠ '\\') (hd : d ≠ q) (l : List Char) :
    literal q (q :: d :: l) = [] := by
  simp [literal, hq, hd]

theorem literal_cons {q c : Char} (hb : c ≠ '\\') (hc : c ≠ q) (l : List Char) :
    literal q (c :: l) = c :: literal q l := by
  cases l <;> simp [literal, hb, hc]

/-- In a literal that is closed the lexer reads its value. -/
theorem literal_prefix {q : Char} (hq : q ≠ '\\') {toks ts : List Token} :
    ∀ {l acc : List Char}, finish (run ⟨.str q acc, toks⟩ l) = some ts →
      toks ++ [.str (String.ofList (acc ++ literal q l))] <+: ts
  | [], acc, h => by cases h
  | [c], acc, h => by
      rw [run_cons, step] at h
      by_cases hb : c = '\\'
      · simp [hb, finish] at h
      · by_cases hc : c = q
        · simp only [hc, hq, if_false, if_true, run_nil, finish, Option.some.injEq] at h
          simp [literal, hc, ← h]
        · simp [hb, hc, finish] at h
  | c :: d :: l, acc, h => by
      by_cases hb : c = '\\'
      · subst hb
        have hrun : run ⟨.str q acc, toks⟩ ('\\' :: d :: l) =
            run ⟨.str q (acc ++ unescape d), toks⟩ l := rfl
        rw [hrun] at h
        rw [literal_escape, ← List.append_assoc]
        exact literal_prefix hq h
      · by_cases hc : c = q
        · subst hc
          by_cases hd : d = c
          · -- a doubled quote
            subst hd
            have hrun : run ⟨.str d acc, toks⟩ (d :: d :: l) = run ⟨.str d (acc ++ [d]), toks⟩ l := by
              simp [step, hb]
            rw [hrun] at h
            rw [literal_quote_quote hq, List.append_cons acc]
            exact literal_prefix hq h
          · have hrun : run ⟨.str c acc, toks⟩ (c :: d :: l) =
                run (startChar (toks ++ [.str (String.ofList acc)]) d) l := by
              simp [step, hb, hd]
            rw [hrun] at h
            rw [literal_close hq hd, List.append_nil]
            exact ((toks_prefix_startChar _ d).trans (toks_prefix_run _ l)).trans
              (toks_prefix_finish h)
        · have hrun : run ⟨.str q acc, toks⟩ (c :: d :: l) =
              run ⟨.str q (acc ++ [c]), toks⟩ (d :: l) := by
            simp [step, hb, hc]
          rw [hrun] at h
          rw [literal_cons hb hc, List.append_cons acc]
          exact literal_prefix hq h

/-! ### Text spliced into a literal -/

/-- No quote, and no backslash other than in `\%` and `\_`. -/
def plainLiteral : List Char → Bool
  | [] => true
  | '\\' :: c :: l => (c = '%' || c = '_') && plainLiteral l
  | c :: l => c ≠ '\'' && c ≠ '\\' && plainLiteral l

theorem length_unescape (c : Char) : (unescape c).length = if c = '%' ∨ c = '_' then 2 else 1 := by
  unfold unescape
  split <;> simp_all

/-- The state of the lexer after the text `l` inside a literal that had the value `acc`
before it. -/
inductive Scan (toks : List Token) (acc l : List Char) : Lex → Prop
  /-- still inside; the value is as long as the text only if it is the text -/
  | inside (v : List Char) : v.length ≤ acc.length + l.length →
      (v.length = acc.length + l.length → v = acc ++ l ∧ plainLiteral l = true) →
      Scan toks acc l ⟨.str '\'' v, toks⟩
  | afterBackslash (v : List Char) : l.getLast? = some '\\' → Scan toks acc l ⟨.strEsc '\'' v, toks⟩
  | afterQuote (v : List Char) : l.getLast? = some '\'' → Scan toks acc l ⟨.strQuote '\'' v, toks⟩
  /-- the literal is over, and its value is shorter than the text -/
  | closed (v : List Char) (s : Lex) : v.length < acc.length + l.length →
      toks ++ [.str (String.ofList v)] <+: s.toks → Scan toks acc l s

/-- Text `p` read before the text `l`. -/
theorem Scan.append {toks : List Token} {acc acc' p l : List Char} {s : Lex}
    (h : Scan toks acc' l s) (hle : acc'.length ≤ acc.length + p.length)
    (heq : acc'.length = acc.length + p.length →
      acc' = acc ++ p ∧ (plainLiteral l = true → plainLiteral (p ++ l) = true)) :
    Scan toks acc (p ++ l) s := by
  cases h with
  | inside v hv hp =>
      refine .inside v (by simp; omega) fun he => ?_
      simp only [List.length_append] at he
      obtain ⟨rfl, hl⟩ := hp (by omega)
      obtain ⟨rfl, hpl⟩ := heq (by simp at he; omega)
      exact ⟨by simp, hpl hl⟩
  | afterBackslash v hv => exact .afterBackslash v (by simp [List.getLast?_append, hv])
  | afterQuote v hv => exact .afterQuote v (by simp [List.getLast?_append, hv])
  | closed v s hv ht => exact .closed v s (by simp; omega) ht

theorem scan (toks : List Token) :
    ∀ l acc : List Char, Scan toks acc l (run ⟨.str '\'' acc, toks⟩ l)
  | [], acc => .inside acc (by simp) fun _ => by simp [plainLiteral]
  | [c], acc => by
      by_cases hb : c = '\\'
      · subst hb; exact .afterBackslash acc rfl
      · by_cases hq : c = '\''
        · subst hq; exact .afterQuote acc rfl
        · rw [run_cons, step]
          simp only [hb, hq, if_false, run_nil]
          exact .inside _ (by simp) fun _ => by simp [plainLiteral, hb, hq]
  | c :: d :: l, acc => by
      by_cases hb : c = '\\'
      · subst hb
        have hrun : run ⟨.str '\'' acc, toks⟩ ('\\' :: d :: l) =
            run ⟨.str '\'' (acc ++ unescape d), toks⟩ l := rfl
        rw [hrun]
        refine (scan toks l (acc ++ unescape d)).append (p := ['\\', d]) ?_ fun he => ?_
        · simp only [List.length_append, length_unescape]; split_ifs <;> simp
        · simp only [List.length_append, length_unescape] at he
          split_ifs at he with hd
          · rcases hd with rfl | rfl <;> exact ⟨rfl, fun hl => by simpa [plainLiteral] using hl⟩
          · simp at he
      · by_cases hq : c = '\''
        · subst hq
          by_cases hd : d = '\''
          · -- a doubled quote
            subst hd
            have hrun : run ⟨.str '\'' acc, toks⟩ ('\'' :: '\'' :: l) =
                run ⟨.str '\'' (acc ++ ['\'']), toks⟩ l := rfl
            rw [hrun]
            exact (scan toks l (acc ++ ['\''])).append (p := ['\'', '\'']) (by simp) fun he => by
              simp at he
          · have hrun : run ⟨.str '\'' acc, toks⟩ ('\'' :: d :: l) =
                run (startChar (toks ++ [.str (String.ofList acc)]) d) l := by
              simp [step, hd]
            rw [hrun]
            exact .closed acc _ (by simp) ((toks_prefix_startChar _ d).trans (toks_prefix_run _ l))
        · have hrun : run ⟨.str '\'' acc, toks⟩ (c :: d :: l) =
              run ⟨.str '\'' (acc ++ [c]), toks⟩ (d :: l) := by
            simp [step, hb, hq]
          rw [hrun]
          refine (scan toks (d :: l) (acc ++ [c])).append (p := [c]) (by simp) fun _ => ⟨rfl, ?_⟩
          simp [plainLiteral, hb, hq]

theorem run_plainLiteral (toks : List Token) :
    ∀ (l acc : List Char), plainLiteral l = true →
      run ⟨.str '\'' acc, toks⟩ l = ⟨.str '\'' (acc ++ l), toks⟩
  | [], acc, _ => by simp
  | [c], acc, h => by
      have : c ≠ '\'' ∧ c ≠ '\\' := by simpa [plainLiteral] using h
      simp [step, this]
  | c :: d :: l, acc, h => by
      by_cases hb : c = '\\'
      · subst hb
        obtain ⟨hd, hl⟩ : (d = '%' ∨ d = '_') ∧ plainLiteral l = true := by
          simpa [plainLiteral] using h
        have hrun : run ⟨.str '\'' acc, toks⟩ ('\\' :: d :: l) =
            run ⟨.str '\'' (acc ++ unescape d), toks⟩ l := rfl
        rw [hrun, run_plainLiteral toks l _ hl]
        rcases hd with rfl | rfl <;> simp [unescape]
      · obtain ⟨hq, hl⟩ : c ≠ '\'' ∧ plainLiteral (d :: l) = true := by
          simpa [plainLiteral, hb] using h
        rw [run_cons, step]
        simp only [hb, hq, if_false]
        rw [run_plainLiteral toks (d :: l) _ hl]
        simp

/-- Without another quote a literal stays open. -/
theorem finish_open {rest : List Char} (hr : '\'' ∉ rest) (toks : List Token) :
    ∀ v, finish (run ⟨.str '\'' v, toks⟩ rest) = none ∧
      finish (run ⟨.strEsc '\'' v, toks⟩ rest) = none := by
  induction rest with
  | nil => exact fun v => ⟨rfl, rfl⟩
  | cons c rest ih =>
      have hc : c ≠ '\'' := fun h => hr (h ▸ List.mem_cons_self)
      have ih := ih fun h => hr (List.mem_cons_of_mem c h)
      intro v
      constructor
      · rw [run_cons, step]
        by_cases hb : c = '\\'
        · simpa [hb] using (ih v).2
        · simpa [hb, hc] using (ih _).1
      · exact (ih _).1

/-- **Text that comes out as it went in is plain.**  `l` was spliced between quotes and the
next token is a literal of the value `l`.  What follows the closing quote does not begin with
one, and the literal could not have ended later: either the following text holds no quote, or
`l` ends in a character that leaves the closing quote alone. -/
theorem plainLiteral_of_tokens {toks after : List Token} {l rest : List Char}
    (hhead : rest.head? ≠ some '\'')
    (hclose : '\'' ∉ rest ∨ (l.getLast? ≠ some '\\' ∧ l.getLast? ≠ some '\''))
    (h : finish (run ⟨.str '\'' [], toks⟩ (l ++ '\'' :: rest)) =
      some (toks ++ .str (String.ofList l) :: after)) : plainLiteral l = true := by
  rw [run_append] at h
  -- the first token after `toks` is a literal of the value `l`
  have hval {v : List Char} (hv : toks ++ [.str (String.ofList v)] <+:
      toks ++ .str (String.ofList l) :: after) : v = l := by
    rw [List.prefix_append_right_inj] at hv
    have := (List.cons_prefix_cons.mp hv).1
    exact String.ofList_injective (Token.str.inj this)
  have hs := scan toks l []
  generalize hrun : run ⟨.str '\'' [], toks⟩ l = s at hs h
  cases hs with
  | inside v hle hp =>
      have hq : run ⟨.str '\'' v, toks⟩ ('\'' :: rest) = run ⟨.strQuote '\'' v, toks⟩ rest := rfl
      rw [hq] at h
      have hpre : toks ++ [.str (String.ofList v)] <+: toks ++ .str (String.ofList l) :: after := by
        cases rest with
        | nil => exact Option.some.inj h ▸ List.prefix_rfl
        | cons c rest =>
            have hc : c ≠ '\'' := by simpa using hhead
            have hstep : step ⟨.strQuote '\'' v, toks⟩ c =
                startChar (toks ++ [.str (String.ofList v)]) c := by simp [step, hc]
            rw [run_cons, hstep] at h
            exact ((toks_prefix_startChar _ c).trans (toks_prefix_run _ rest)).trans
              (toks_prefix_finish h)
      exact (hp (by rw [hval hpre]; simp)).2
  | afterBackslash v hl =>
      have hr : '\'' ∉ rest := hclose.resolve_right fun hn => hn.1 hl
      have hnone := (finish_open hr toks (v ++ unescape '\'')).1
      exact absurd (hnone.symm.trans h) (by simp)
  | afterQuote v hl =>
      have hr : '\'' ∉ rest := hclose.resolve_right fun hn => hn.2 hl
      have hnone := (finish_open hr toks (v ++ ['\''])).1
      exact absurd (hnone.symm.trans h) (by simp)
  | closed v _ hlt hpre =>
      have := hval (hpre.trans ((toks_prefix_run _ _).trans (toks_prefix_finish h)))
      rw [this] at hlt
      simp at hlt

/-- Plain text comes out as it went in. -/
theorem run_spliced {toks : List Token} {l : List Char} (h : plainLiteral l = true)
    (rest : List Char) :
    run ⟨.str '\'' [], toks⟩ (l ++ '\'' :: rest) = run ⟨.strQuote '\'' l, toks⟩ rest := by
  rw [run_append, run_plainLiteral toks l [] h]
  rfl

/-- **A spliced literal, exactly**, when it is the last one of the text. -/
theorem tokens_literal_iff {toks after : List Token} {l rest : List Char} (hrest : '\'' ∉ rest)
    (hafter : finish (run ⟨.strQuote '\'' l, toks⟩ rest) =
      some (toks ++ .str (String.ofList l) :: after)) :
    finish (run ⟨.str '\'' [], toks⟩ (l ++ '\'' :: rest)) =
      some (toks ++ .str (String.ofList l) :: after) ↔ plainLiteral l = true := by
  refine ⟨plainLiteral_of_tokens ?_ (.inl hrest), fun h => (run_spliced h rest) ▸ hafter⟩
  exact fun h => hrest (List.mem_of_mem_head? h)

/-- The same for a text put together from strings. -/
theorem tokens_splice_iff {before behind : String} {toks after : List Token} {rest : List Char}
    (hbefore : run ⟨.start, []⟩ before.toList = ⟨.str '\'' [], toks⟩)
    (hbehind : behind.toList = '\'' :: rest) (hrest : '\'' ∉ rest)
    (hafter : ∀ v, finish (run ⟨.strQuote '\'' v, toks⟩ rest) =
      some (toks ++ .str (String.ofList v) :: after)) (s : String) :
    tokens (before ++ s ++ behind) = some (toks ++ .str s :: after) ↔
      plainLiteral s.toList = true := by
  have h := tokens_literal_iff hrest (hafter s.toList)
  rw [String.ofList_toList] at h
  rw [tokens, String.toList_append, String.toList_append, List.append_assoc, run_append, hbefore,
    hbehind, h]

end SqlText
