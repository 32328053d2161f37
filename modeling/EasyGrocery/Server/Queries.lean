import EasyGrocery.Lib.SqlText
import EasyGrocery.Server.Strings

/-! # The query texts of the server (`eg_server.js`)

Every query is glued together from fixed text and what the request holds.  Each definition
below is the text that a handler passes to `db.query`.

An item name or a category comes out of its literal as it went in iff it holds no quote and no
backslash other than in `\%` and `\_`.  A search string puts a `%` after each of its words, so
there a backslash may also stand before a blank or at the end (`queries_data_iff`). -/

namespace EasyGrocery.Server

open SqlText

/-! ### The compare handler -/

def sql1 (item : String) : String :=
  "select ProductName, ProductPrice, Category from Safeway where ProductName = '" ++ item ++ "';"

def sql2 (item : String) : String :=
  "select ProductName, ProductPrice from Walmart where ProductName = '" ++ item ++ "';"

def sql3 : String := "select ProductName, ProductPrice from Walmart;"

def sql4 (safewayCategory : String) : String :=
  "select ProductName, ProductPrice from Safeway where Category = '" ++ safewayCategory ++ "';"

/-! ### The item handler -/

/-- The loop that appends the words to the pattern. -/
def appendWords (sql : String) (words : List String) : String :=
  words.foldl (fun sql word => sql ++ (word ++ "%")) sql

/-- The query of the item handler. -/
def itemSql (item : String) : String :=
  let sql := "SELECT productName FROM Safeway where productName like '%"
  let words := split item
  let sql := appendWords sql words
  let sql := sql ++ "'"
  let sql := sql ++ " UNION "
  let sql := sql ++ "SELECT productName FROM Walmart where productName like '%"
  let words := split item
  let sql := appendWords sql words
  sql ++ "'"

/-- The pattern text the loop builds, with the `%` before it. -/
def pattern (item : String) : String := appendWords "%" (split item)

/-! ### The intended tokens -/

def sql1Head : List Token :=
  [.word "select", .word "ProductName", .sym ',', .word "ProductPrice", .sym ',',
    .word "Category", .word "from", .word "Safeway", .word "where", .word "ProductName", .sym '=']

def sql1Tokens (item : String) : List Token := sql1Head ++ [.str item, .sym ';']

def sql2Head : List Token :=
  [.word "select", .word "ProductName", .sym ',', .word "ProductPrice", .word "from",
    .word "Walmart", .word "where", .word "ProductName", .sym '=']

def sql2Tokens (item : String) : List Token := sql2Head ++ [.str item, .sym ';']

def sql3Tokens : List Token :=
  [.word "select", .word "ProductName", .sym ',', .word "ProductPrice", .word "from",
    .word "Walmart", .sym ';']

def sql4Head : List Token :=
  [.word "select", .word "ProductName", .sym ',', .word "ProductPrice", .word "from",
    .word "Safeway", .word "where", .word "Category", .sym '=']

def sql4Tokens (category : String) : List Token := sql4Head ++ [.str category, .sym ';']

def selectLike (table : String) : List Token :=
  [.word "SELECT", .word "productName", .word "FROM", .word table, .word "where",
    .word "productName", .word "like"]

def itemTokens (pattern : String) : List Token :=
  selectLike "Safeway" ++ .str pattern :: .word "UNION" :: (selectLike "Walmart" ++ [.str pattern])

/-! ### The queries of the compare handler -/

theorem quote_semicolon : "';".toList = '\'' :: [';'] := by decide

theorem sql1_tokens_iff (item : String) :
    tokens (sql1 item) = some (sql1Tokens item) ↔ plainLiteral item.toList = true := by
  have hhead : run ⟨.start, []⟩
      "select ProductName, ProductPrice, Category from Safeway where ProductName = '".toList =
      ⟨.str '\'' [], sql1Head⟩ := by decide +kernel
  exact tokens_splice_iff hhead quote_semicolon (by decide) (fun _ => rfl) item

theorem sql2_tokens_iff (item : String) :
    tokens (sql2 item) = some (sql2Tokens item) ↔ plainLiteral item.toList = true := by
  have hhead : run ⟨.start, []⟩
      "select ProductName, ProductPrice from Walmart where ProductName = '".toList =
      ⟨.str '\'' [], sql2Head⟩ := by decide +kernel
  exact tokens_splice_iff hhead quote_semicolon (by decide) (fun _ => rfl) item

theorem sql3_tokens : tokens sql3 = some sql3Tokens := by decide

theorem sql4_tokens_iff (category : String) :
    tokens (sql4 category) = some (sql4Tokens category) ↔ plainLiteral category.toList = true := by
  have hhead : run ⟨.start, []⟩
      "select ProductName, ProductPrice from Safeway where Category = '".toList =
      ⟨.str '\'' [], sql4Head⟩ := by decide +kernel
  exact tokens_splice_iff hhead quote_semicolon (by decide) (fun _ => rfl) category

/-! ### The query of the item handler -/

/-- No quote, and no backslash other than before `%`, `_` or a blank, or at the end. -/
def plainSearch : List Char → Bool
  | [] => true
  | ['\\'] => true
  | '\\' :: c :: l => (c = '%' || c = '_' || c = ' ') && plainSearch l
  | c :: l => c ≠ '\'' && c ≠ '\\' && plainSearch l

theorem appendWords_append (a b : String) (words : List String) :
    appendWords (a ++ b) words = a ++ appendWords b words := by
  unfold appendWords
  induction words generalizing b with
  | nil => rfl
  | cons word words ih => rw [List.foldl_cons, List.foldl_cons, String.append_assoc, ih]

theorem itemSql_eq (item : String) :
    itemSql item = "SELECT productName FROM Safeway where productName like '" ++
      (pattern item ++ ("' UNION SELECT productName FROM Walmart where productName like '" ++
        (pattern item ++ "'"))) := by
  have hpat (before : String) : appendWords (before ++ "%") (split item) = before ++ pattern item :=
    appendWords_append before "%" (split item)
  have h1 : "SELECT productName FROM Safeway where productName like '%" =
      "SELECT productName FROM Safeway where productName like '" ++ "%" := by decide
  have h2 : "SELECT productName FROM Walmart where productName like '%" =
      "SELECT productName FROM Walmart where productName like '" ++ "%" := by decide
  have h3 : "' UNION SELECT productName FROM Walmart where productName like '" =
      "'" ++ (" UNION " ++ "SELECT productName FROM Walmart where productName like '") := by decide
  simp only [itemSql]
  rw [h1, h2, h3, hpat, ← String.append_assoc, hpat]
  simp only [String.append_assoc]

/-- A blank of the search string is a `%` of the pattern. -/
def blankToPercent (c : Char) : Char := if c = ' ' then '%' else c

theorem blankToPercent_ne {c d : Char} (hc : c ≠ d) (hd : d ≠ '%') : blankToPercent c ≠ d := by
  unfold blankToPercent
  split_ifs
  · exact hd.symm
  · exact hc

theorem flatMap_splitOn (l : List Char) :
    ((l.splitOn ' ').flatMap fun word => word ++ ['%']) = l.map blankToPercent ++ ['%'] := by
  unfold List.splitOn
  induction l with
  | nil => rfl
  | cons c l ih =>
      rw [List.splitOnP_cons_eq_if_modifyHead]
      by_cases hc : c = ' '
      · simp [hc, ih, blankToPercent]
      · obtain ⟨w, ws, hws⟩ := List.exists_cons_of_ne_nil (List.splitOnP_ne_nil (· == ' ') l)
        rw [hws] at ih ⊢
        simpa [hc, blankToPercent] using ih

/-- The pattern is the search string with every blank a `%`, between two more. -/
theorem pattern_toList (item : String) :
    (pattern item).toList = '%' :: (item.toList.map blankToPercent ++ ['%']) := by
  have hfold (words : List (List Char)) (sql : String) :
      (appendWords sql (words.map String.ofList)).toList =
        sql.toList ++ words.flatMap fun word => word ++ ['%'] := by
    unfold appendWords
    induction words generalizing sql with
    | nil => simp
    | cons word words ih => simp [ih]
  rw [pattern, split, hfold, flatMap_splitOn]
  rfl

theorem plainLiteral_blankToPercent (l : List Char) :
    plainLiteral (l.map blankToPercent ++ ['%']) = plainSearch l := by
  induction l using plainSearch.induct with
  | case1 => rfl
  | case2 => rfl
  | case3 c l ih =>
      -- after a backslash a blank is a `%` too
      have hb : blankToPercent '\\' = '\\' := rfl
      rw [List.map_cons, List.map_cons, List.cons_append, List.cons_append, hb, plainLiteral, ih,
        plainSearch]
      by_cases hc : c = ' ' <;> simp [blankToPercent, hc]
  | case4 c l h1 h2 ih =>
      have hc : c ≠ '\\' := by
        rintro rfl
        cases l with
        | nil => exact h1 rfl rfl
        | cons d l => exact h2 d l rfl rfl
      have hb : blankToPercent c ≠ '\\' := blankToPercent_ne hc (by decide)
      have hq : blankToPercent c = '\'' ↔ c = '\'' := by
        unfold blankToPercent; split_ifs with h <;> simp [h]
      rw [List.map_cons, List.cons_append, plainLiteral, ih, plainSearch]
      · simp [hb, hc, hq]
      all_goals simp_all

theorem plainLiteral_pattern (item : String) :
    plainLiteral (pattern item).toList = plainSearch item.toList := by
  rw [pattern_toList, plainLiteral, plainLiteral_blankToPercent] <;> simp

/-- The lexer at the first literal of the query. -/
theorem tokens_itemSql (item : String) : tokens (itemSql item) =
    finish (run ⟨.str '\'' [], selectLike "Safeway"⟩ ((pattern item).toList ++ '\'' :: ' ' ::
      ("UNION SELECT productName FROM Walmart where productName like '".toList ++
        ((pattern item).toList ++ '\'' :: [])))) := by
  have hsafeway : run ⟨.start, []⟩
      "SELECT productName FROM Safeway where productName like '".toList =
      ⟨.str '\'' [], selectLike "Safeway"⟩ := by decide +kernel
  have htext : (itemSql item).toList =
      "SELECT productName FROM Safeway where productName like '".toList ++
        ((pattern item).toList ++ '\'' :: ' ' ::
          ("UNION SELECT productName FROM Walmart where productName like '".toList ++
            ((pattern item).toList ++ '\'' :: []))) := by
    rw [itemSql_eq]
    simp
  rw [tokens, htext, run_append, hsafeway]

theorem itemSql_tokens_iff (item : String) :
    tokens (itemSql item) = some (itemTokens (pattern item)) ↔ plainSearch item.toList = true := by
  rw [← plainLiteral_pattern]
  have hunion : run ⟨.start, []⟩
      "UNION SELECT productName FROM Walmart where productName like '".toList =
      ⟨.str '\'' [], .word "UNION" :: selectLike "Walmart"⟩ := by decide +kernel
  have hblank (v : List Char) (toks : List Token) : step ⟨.strQuote '\'' v, toks⟩ ' ' =
      Lex.after ⟨.start, []⟩ (toks ++ [.str (String.ofList v)]) := by
    simp [step, startChar, isWs, Lex.after]
  have htokens : itemTokens (pattern item) = selectLike "Safeway" ++
      .str (String.ofList (pattern item).toList) :: .word "UNION" ::
        (selectLike "Walmart" ++ [.str (pattern item)]) := by
    rw [String.ofList_toList]; rfl
  rw [tokens_itemSql]
  constructor
  · intro h
    rw [htokens] at h
    -- the pattern ends in a `%`, which leaves the closing quote alone
    have hlast : (pattern item).toList.getLast? = some '%' := by
      rw [pattern_toList, ← List.cons_append, List.getLast?_concat]
    exact plainLiteral_of_tokens (by simp) (.inr (by simp [hlast])) h
  · intro h
    rw [run_spliced h, run_cons, hblank, run_append, run_after, hunion, Lex.after, run_spliced h,
      run_nil, finish, String.ofList_toList]
    simp [itemTokens]

/-! ### Item text as data -/

/-- **Which texts are data.**  Each query has its fixed tokens around the text it was given iff
that text is plain; the pattern of the item handler guards a backslash before a blank or at
the end. -/
theorem queries_data_iff (item safewayCategory search : String) :
    ((tokens (sql1 item) = some (sql1Tokens item) ∧ tokens (sql2 item) = some (sql2Tokens item)) ↔
        plainLiteral item.toList = true) ∧
      (tokens (sql4 safewayCategory) = some (sql4Tokens safewayCategory) ↔
        plainLiteral safewayCategory.toList = true) ∧
      (tokens (itemSql search) = some (itemTokens (pattern search)) ↔
        plainSearch search.toList = true) := by
  constructor
  · rw [sql1_tokens_iff, sql2_tokens_iff, and_self]
  · exact ⟨sql4_tokens_iff safewayCategory, itemSql_tokens_iff search⟩

/-- An apostrophe in the name ends the literal, and the quote behind it opens another one. -/
theorem not_queries_data_apostrophe :
    ¬ ∃ before behind : List Token, ∀ item : String,
      tokens (sql1 item) = some (before ++ .str item :: behind) := by
  rintro ⟨before, behind, h⟩
  have hnone : tokens (sql1 "Welch's Concord Grape Jelly  30 oz") = none := by decide +kernel
  rw [h] at hnone
  cases hnone

end EasyGrocery.Server
