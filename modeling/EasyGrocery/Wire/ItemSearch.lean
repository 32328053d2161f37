import EasyGrocery.App.SearchResults
import EasyGrocery.Lib.JsonText
import EasyGrocery.Lib.Percent
import EasyGrocery.Server.Handlers
import EasyGrocery.Server.Queries

/-! # The item search across the wire

`_addRequest` puts the raw search string at the end of a URL, and the item handler takes it from
the parsed query.  It arrives as it was typed precisely when nothing in it means something in a
query (`Carried`).  The rows of the answer are keyed as the `SELECT` spells its column, which is
not how the app asks for it.

`search_wire_iff`: when each of the two directions is intact.  A search page with this server
behind it never shows the name of a product (`allNull_of_run`). -/

namespace EasyGrocery.Wire

open Guarded Json Percent
open SearchResults (namesOf addLoop nameOf)
open Server (itemSql onItem)

/-! ### The request -/

/-- The URL that `_addRequest` asks for. -/
def itemUrl (itemName : String) : String :=
  "http://34.222.160.242:3000/Easygrocery/api/item/?item=" ++ itemName

/-- The query of a URL with a path, as `Uri.parse` has it: from the first `?` to the fragment. -/
def uriQuery (url : String) : String :=
  String.ofList (normalizeQuery
    (((url.toList.takeWhile (· ≠ '#')).dropWhile (· ≠ '?')).drop 1))

/-- The parameter of the item handler, up to its value. -/
def itemParam : List Char := ['i', 't', 'e', 'm', '=']

/-- The delimiters of `qs`. -/
def isQsDelimiter (c : Char) : Bool := c = '&' || c = '[' || c = ']'

/-- What the handler relies on of a query parser `qs`, which gives `req.query.item` if that is a
text: the value of the only parameter is decoded, and a second one cannot change it into another
text, since a repeated parameter becomes an array. -/
structure ParsesItem (qs : String → Option String) : Prop where
  single : ∀ v : List Char, (∀ c ∈ v, isQsDelimiter c = false) →
    qs (String.ofList (itemParam ++ v)) = some (String.ofList (readField v))
  several : ∀ v rest : List Char, (∀ c ∈ v, isQsDelimiter c = false) →
    qs (String.ofList (itemParam ++ (v ++ '&' :: rest))) = some (String.ofList (readField v)) ∨
      qs (String.ofList (itemParam ++ (v ++ '&' :: rest))) = none

/-- The call that reaches the item handler. -/
def received (qs : String → Option String) (itemName : String) : Server.Call :=
  .item (qs (uriQuery (itemUrl itemName)))

/-- The search strings that nothing happens to on the way: no delimiter, no `+`, and no percent
escape, unless `Uri` leaves the whole text as it is and it cannot be decoded. -/
structure Carried (itemName : String) : Prop where
  ampersand : '&' ∉ itemName.toList
  hash : '#' ∉ itemName.toList
  plus : '+' ∉ itemName.toList
  escapes : HasEscape itemName.toList →
    normalizeQuery itemName.toList = itemName.toList ∧ decode itemName.toList = none

/-- The query of a URL whose beginning is known. -/
theorem uriQuery_append {head : String} {base name : List Char}
    (hhead : head.toList = base ++ '?' :: name) (hbase : ∀ c ∈ base, c ≠ '#' ∧ c ≠ '?')
    (hname : ∀ c ∈ name, c ≠ '#') (s : String) : uriQuery (head ++ s) =
      String.ofList (normalizeQuery (name ++ s.toList.takeWhile (· ≠ '#'))) := by
  have htake : (head ++ s).toList.takeWhile (· ≠ '#') =
      base ++ '?' :: (name ++ s.toList.takeWhile (· ≠ '#')) := by
    rw [String.toList_append, hhead, List.append_assoc, List.cons_append,
      List.takeWhile_append_of_pos (by simpa using fun c hc => (hbase c hc).1),
      List.takeWhile_cons_of_pos (by decide), List.takeWhile_append_of_pos (by simpa using hname)]
  unfold uriQuery
  rw [htake, List.dropWhile_append_of_pos (by simpa using fun c hc => (hbase c hc).2),
    List.dropWhile_cons_of_neg (by decide)]
  rfl

/-- What `_addRequest` sends. -/
theorem uriQuery_itemUrl (itemName : String) : uriQuery (itemUrl itemName) =
    String.ofList (itemParam ++ normalizeQuery (itemName.toList.takeWhile (· ≠ '#'))) := by
  have hhead : "http://34.222.160.242:3000/Easygrocery/api/item/?item=".toList =
      "http://34.222.160.242:3000/Easygrocery/api/item/".toList ++ '?' :: itemParam := by
    simp [itemParam]
  have hparam (l : List Char) : itemParam ++ l = ['i', 't', 'e', 'm'] ++ '=' :: l := rfl
  have hname : normalizeQuery ['i', 't', 'e', 'm'] = ['i', 't', 'e', 'm'] := by decide
  apply (uriQuery_append hhead (by simp) (by simp [itemParam]) itemName).trans
  rw [hparam, hparam, normalizeQuery_append_cons (by decide) (by decide), hname]

/-- A normalised query holds no brackets, and an `&` only if the text did. -/
theorem isQsDelimiter_normalizeQuery {l : List Char} (h : '&' ∉ l) :
    ∀ c ∈ normalizeQuery l, isQsDelimiter c = false := by
  intro c hc
  by_contra hd
  simp only [Bool.not_eq_false, isQsDelimiter, Bool.or_eq_true, decide_eq_true_eq] at hd
  rcases hd with (rfl | rfl) | rfl
  · exact h (mem_of_mem_normalizeQuery (by decide) (by decide) (by decide) hc).2
  · exact absurd (mem_of_mem_normalizeQuery (by decide) (by decide) (by decide) hc).1 (by decide)
  · exact absurd (mem_of_mem_normalizeQuery (by decide) (by decide) (by decide) hc).1 (by decide)

section request

variable {qs : String → Option String}

/-- A search string is cut at its first `&` or `#`. -/
theorem item_of_cut (h : ParsesItem qs) {itemName : String} {d : Char} {l r : List Char}
    (hd : d = '&' ∨ d = '#') (hl : '&' ∉ l ∧ '#' ∉ l) (hs : itemName.toList = l ++ d :: r) :
    qs (uriQuery (itemUrl itemName)) = some (String.ofList (readField (normalizeQuery l))) ∨
      qs (uriQuery (itemUrl itemName)) = none := by
  have hplain := isQsDelimiter_normalizeQuery hl.1
  have hhash : ∀ c ∈ l, decide (c ≠ '#') = true := by
    intro c hc
    have hne : c ≠ '#' := fun he => hl.2 (he ▸ hc)
    simpa using hne
  rw [uriQuery_itemUrl, hs, List.takeWhile_append_of_pos hhash]
  rcases hd with rfl | rfl
  · rw [List.takeWhile_cons_of_pos (by decide), normalizeQuery_append_cons (by decide) (by decide)]
    exact h.several _ _ hplain
  · rw [List.takeWhile_cons_of_neg (by decide), List.append_nil]
    exact .inl (h.single _ hplain)

theorem received_ne_of_cut (h : ParsesItem qs) {itemName : String} {d : Char} {l r : List Char}
    (hd : d = '&' ∨ d = '#') (hl : '&' ∉ l ∧ '#' ∉ l) (hs : itemName.toList = l ++ d :: r) :
    received qs itemName ≠ .item (some itemName) := by
  have hne : readField (normalizeQuery l) ≠ itemName.toList := by
    rw [hs]
    rcases hd with rfl | rfl
    · exact readField_normalizeQuery_ne (by decide) (by decide) (by decide) (by decide) hl.1 r
    · exact readField_normalizeQuery_ne (by decide) (by decide) (by decide) (by decide) hl.2 r
  intro hr
  have hitem := Server.Call.item.inj hr
  rcases item_of_cut h hd hl hs with hvalue | hvalue
  · rw [hvalue] at hitem
    exact hne (by rw [← Option.some.inj hitem, String.toList_ofList])
  · rw [hvalue] at hitem
    cases hitem

theorem received_of_uncut (h : ParsesItem qs) {itemName : String} (hamp : '&' ∉ itemName.toList)
    (hhash : '#' ∉ itemName.toList) : received qs itemName =
      .item (some (String.ofList (readField (normalizeQuery itemName.toList)))) := by
  have htake : itemName.toList.takeWhile (· ≠ '#') = itemName.toList := by
    rw [List.takeWhile_eq_self_iff]
    intro c hc
    have hne : c ≠ '#' := fun he => hhash (he ▸ hc)
    simpa using hne
  unfold received
  rw [uriQuery_itemUrl, htake, h.single _ (isQsDelimiter_normalizeQuery hamp)]

/-- **The request, exactly.** -/
theorem received_iff (h : ParsesItem qs) (itemName : String) :
    received qs itemName = .item (some itemName) ↔ Carried itemName := by
  by_cases hcut : ∃ d ∈ itemName.toList, d = '&' ∨ d = '#'
  · -- the first of them
    obtain ⟨d, hfind⟩ := Option.isSome_iff_exists.mp
      (List.find?_isSome (p := fun d => d = '&' || d = '#').mpr (by simpa using hcut))
    obtain ⟨hd, l, r, hs, hl⟩ := List.find?_eq_some_iff_append.mp hfind
    have hd : d = '&' ∨ d = '#' := by simpa using hd
    have hmem : d ∈ itemName.toList := by simp [hs]
    have hl : '&' ∉ l ∧ '#' ∉ l :=
      ⟨fun hc => absurd (hl _ hc) (by decide), fun hc => absurd (hl _ hc) (by decide)⟩
    apply iff_of_false (received_ne_of_cut h hd hl hs)
    intro hc
    rcases hd with rfl | rfl
    · exact hc.ampersand hmem
    · exact hc.hash hmem
  · have hamp : '&' ∉ itemName.toList := fun hc => hcut ⟨_, hc, .inl rfl⟩
    have hhash : '#' ∉ itemName.toList := fun hc => hcut ⟨_, hc, .inr rfl⟩
    have hcarried : Carried itemName ↔ '+' ∉ itemName.toList ∧ (HasEscape itemName.toList →
        normalizeQuery itemName.toList = itemName.toList ∧ decode itemName.toList = none) :=
      ⟨fun hc => ⟨hc.plus, hc.escapes⟩, fun hc => ⟨hamp, hhash, hc.1, hc.2⟩⟩
    rw [received_of_uncut h hamp hhash, hcarried, ← readField_normalizeQuery_iff,
      Server.Call.item.injEq, Option.some.injEq, ← String.toList_inj, String.toList_ofList]

end request

/-! ### The answer -/

/-- The key of a row in the answer to a `SELECT` of one column: the column as it is written
there. -/
def column (sql : String) : String :=
  String.ofList ((sql.toList.drop "SELECT ".length).takeWhile (· ≠ ' '))

/-- The text of a row after its opening brace. -/
def rowTail (column name : String) : List Char :=
  quote column ++ ':' :: (quote name ++ ['}'])

/-- The body that `res.json(result)` sends for the rows of a query. -/
def resJson (sql : String) (result : List String) : String :=
  String.ofList ('[' :: (objectsText (rowTail (column sql)) result ++ [']']))

/-- A row as the app decodes it. -/
def row (column name : String) : Json := .obj [(column, .str name)]

theorem run_rowTail (js : List Json) (column name : String) :
    run step ⟨[.elems js], .objStart⟩ (rowTail column name) =
      some ⟨[], .afterElem (js ++ [row column name])⟩ := by
  have hkey : step ⟨[.elems js], .objStart⟩ '"' =
      some ⟨[.elems js], .str (some []) .empty⟩ := rfl
  have hcolon : step (closeStr [.elems js] (some []) ⟨column.toList, none, .no⟩) ':' =
      some ⟨[.member [] column, .elems js], .value⟩ := by
    simp [step, closeStr, Str.flush, isWs]
  have hvalue : step ⟨[.member [] column, .elems js], .value⟩ '"' =
      some ⟨[.member [] column, .elems js], .str none .empty⟩ := rfl
  have hbrace : step (closeStr [.member [] column, .elems js] none ⟨name.toList, none, .no⟩) '}' =
      some ⟨[], .afterElem (js ++ [row column name])⟩ := by
    simp [step, stepClosed, closeStr, complete, Str.flush, isWs, row]
  unfold rowTail
  rw [run_append, run_quote hkey, Option.bind_some, run_cons_of_eq hcolon, run_append,
    run_quote hvalue, Option.bind_some, run_cons_of_eq hbrace, run_nil]

/-- Whatever the names hold, the rows are decoded as they were. -/
theorem parse_resJson (sql : String) (result : List String) :
    Json.parse (resJson sql result) = some (.arr (result.map (row (column sql)))) := by
  have hrow : ∀ name ∈ result, ∀ js, run step ⟨[.elems js], .objStart⟩ (rowTail (column sql) name) =
      some ⟨[], .afterElem (js ++ [row (column sql) name])⟩ :=
    fun name _ js => run_rowTail js (column sql) name
  obtain ⟨x, hrun, hclose⟩ := run_objects hrow
  have hstart : step start '[' = some ⟨[], .arrStart⟩ := rfl
  rw [Json.parse, resJson, String.toList_ofList, run_cons_of_eq hstart, run_append, hrun,
    Option.bind_some, run_cons_of_eq hclose]
  rfl

theorem nameOf_row (text : Json → String) (column name : String) :
    nameOf text (row column name) = some (if column = "ProductName" then name else "null") := by
  by_cases h : column = "ProductName" <;> simp [nameOf, row, get?, h]

/-- The names the app adds: the rows' if they are keyed as it expects. -/
theorem namesOf_resJson (text : Json → String) (sql : String) (result : List String) :
    namesOf text (some (resJson sql result)) =
      result.map fun name => if column sql = "ProductName" then name else "null" := by
  unfold namesOf
  rw [Option.bind_some, parse_resJson]
  induction result with
  | nil => rfl
  | cons name result ih => simp [addLoop, nameOf_row, ih]

theorem column_append {head : String} {name rest : List Char}
    (hhead : head.toList = "SELECT ".toList ++ (name ++ ' ' :: rest)) (hname : ∀ c ∈ name, c ≠ ' ')
    (s : String) : column (head ++ s) = String.ofList name := by
  unfold column
  rw [String.toList_append, hhead, List.append_assoc, ← String.length_toList,
    List.drop_left, List.append_assoc, List.takeWhile_append_of_pos (by simpa using hname),
    List.cons_append, List.takeWhile_cons_of_neg (by decide), List.append_nil]

/-- The handler writes its column with a small `p`. -/
theorem column_itemSql (item : String) : column (itemSql item) = "productName" := by
  have hhead : "SELECT productName FROM Safeway where productName like '".toList =
      "SELECT ".toList ++
        ("productName".toList ++ ' ' :: "FROM Safeway where productName like '".toList) := by
    simp
  rw [Server.itemSql_eq]
  exact (column_append hhead (by simp) _).trans String.ofList_toList

theorem map_const_eq_self_iff (s : String) (names : List String) :
    names.map (fun _ => s) = names ↔ ∀ name ∈ names, name = s := by
  induction names with
  | nil => simp
  | cons name names ih => rw [List.map_cons, List.cons.injEq, ih, List.forall_mem_cons, eq_comm]

theorem namesOf_itemSql_eq_iff (text : Json → String) (item : String) (result : List String) :
    namesOf text (some (resJson (itemSql item) result)) = result ↔ ∀ name ∈ result, name = "null" := by
  have hnull (name : String) :
      (if column (itemSql item) = "ProductName" then name else "null") = "null" := by
    rw [column_itemSql, if_neg (by decide)]
  rw [namesOf_resJson, List.map_congr_left fun name _ => hnull name, map_const_eq_self_iff]

/-! ### The search page on the handler's answers -/

/-- A response is a failure or an answer of the item handler. -/
def FromHandler : SearchResults.Event → Prop
  | .respond _ (some body) => ∃ item result, body = resJson (itemSql item) result
  | _ => True

/-- Every entry of the search list is the text "null". -/
def AllNull (s : SearchResults.State) : Prop := ∀ x ∈ s.searchList, x.name = "null"

theorem mem_shown_name {n : ℕ} {names : List String} {x : SearchResults.Shown}
    (h : x ∈ SearchResults.shown n names) : x.name ∈ names := by
  obtain ⟨p, hp, rfl⟩ := List.mem_map.mp h
  exact List.fst_mem_of_mem_zipIdx hp

theorem allNull_step {text : Json → String} {s s' : SearchResults.State} {e : SearchResults.Event}
    (hi : AllNull s) (he : FromHandler e) (h : SearchResults.step text s e = some s') :
    AllNull s' := by
  cases SearchResults.effect_of_step h with
  | page _ _ _ hsub _ _ => exact fun x hx => hi x (hsub.subset hx)
  | search _ rs hl _ _ _ => simp [AllNull, hl]
  | respond k response r _ =>
      intro x hx
      rcases List.mem_append.mp hx with hx | hx
      · exact hi x hx
      · have hname := mem_shown_name hx
        cases response with
        | none => simp [namesOf] at hname
        | some body =>
            obtain ⟨item, result, rfl⟩ := he
            rw [namesOf_resJson, column_itemSql] at hname
            obtain ⟨name, -, heq⟩ := List.mem_map.mp hname
            rw [← heq, if_neg (by decide)]

/-- **What the page shows.**  With the item handler behind it, a search page never shows the name
of a product. -/
theorem allNull_of_run (text : Json → String) {es : List SearchResults.Event}
    (he : EachStep (SearchResults.step text) (fun _ e => FromHandler e) .opened es) :
    EachState (SearchResults.step text) AllNull .opened es :=
  eachState_of_inv AllNull (fun _ _ _ => allNull_step) (fun _ hi => hi)
    (by simp [AllNull, SearchResults.State.opened]) he

/-! ### Both directions -/

/-- **The item search, exactly.**  The handler gets the search string iff nothing in it means
something in a query.  Of the rows it passes to `res.json` the app has the names iff every name
is the text "null", which is what the app makes of a member it does not find. -/
theorem search_wire_iff {P : Type} {qs : String → Option String} (h : ParsesItem qs)
    (text : Json → String) (itemName : String) (g : Server.Globals P) (item sql : String)
    (hsql : (onItem g (some item)).2.query = some sql) (result : List String) :
    (received qs itemName = .item (some itemName) ↔ Carried itemName) ∧
      (namesOf text (some (resJson sql result)) = result ↔ ∀ name ∈ result, name = "null") := by
  rw [Server.onItem_snd] at hsql
  obtain rfl := Option.some.inj hsql
  exact ⟨received_iff h itemName, namesOf_itemSql_eq_iff text item result⟩

/-- A query parser for keys without brackets. -/
def flatQuery (query : String) : Option String :=
  match (query.toList.splitOn '&').filterMap (itemParam.isPrefixOf? ·) with
  | [v] => some (String.ofList (readField v))
  | _ => none

theorem not_mem_itemParam_append {v : List Char} (hv : ∀ c ∈ v, isQsDelimiter c = false) :
    '&' ∉ itemParam ++ v := by
  intro hc
  rcases List.mem_append.mp hc with hc | hc
  · exact absurd hc (by decide)
  · exact absurd (hv _ hc) (by decide)

theorem parsesItem_flatQuery : ParsesItem flatQuery where
  single v hv := by
    have hvalue : itemParam.isPrefixOf? (itemParam ++ v) = some v := rfl
    unfold flatQuery
    rw [String.toList_ofList, List.splitOn_eq_singleton (not_mem_itemParam_append hv),
      List.filterMap_cons_some hvalue, List.filterMap_nil]
  several v rest hv := by
    have hvalue : itemParam.isPrefixOf? (itemParam ++ v) = some v := rfl
    unfold flatQuery
    rw [String.toList_ofList, ← List.append_assoc,
      List.splitOn_append_cons_self_of_not_mem (not_mem_itemParam_append hv),
      List.filterMap_cons_some hvalue]
    cases (rest.splitOn '&').filterMap (itemParam.isPrefixOf? ·) with
    | nil => exact .inl rfl
    | cons w ws => exact .inr rfl

/-- A `%` before a blank is no escape and arrives; the name of a row does not. -/
theorem search_wire_percent :
    received flatQuery "2% milk" = .item (some "2% milk") ∧
      namesOf (fun _ => "") (some (resJson (itemSql "2% milk") ["Lucerne 2% Milk"])) ≠
        ["Lucerne 2% Milk"] := by
  obtain ⟨hrequest, hanswer⟩ := search_wire_iff parsesItem_flatQuery (fun _ => "") "2% milk"
    (Server.Globals.init (P := ℕ)) "2% milk" (itemSql "2% milk")
    (by rw [Server.onItem_snd]; rfl) ["Lucerne 2% Milk"]
  constructor
  · exact hrequest.mpr ⟨by decide, by decide, by decide, by decide⟩
  · intro h
    exact absurd (hanswer.mp h) (by decide)

/-- An `&` ends the parameter, and the app looks for another member than the one it was sent. -/
theorem not_search_wire :
    ¬ (∀ itemName : String, itemName ≠ "" → received flatQuery itemName = .item (some itemName)) ∧
      ¬ ∀ (text : Json → String) (item : String) (result : List String),
        namesOf text (some (resJson (itemSql item) result)) = result := by
  constructor
  · intro h
    have hcarried := (received_iff parsesItem_flatQuery _).mp (h "Mac & Cheese" (by decide))
    exact absurd hcarried.ampersand (by decide)
  · intro h
    have hnull := (namesOf_itemSql_eq_iff _ "milk" ["Lucerne 2% Milk"]).mp (h (fun _ => "") _ _)
    exact absurd hnull (by decide)

end EasyGrocery.Wire
