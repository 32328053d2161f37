import EasyGrocery.App.Prices
import EasyGrocery.Lib.JsonText
import EasyGrocery.Server.Encode

/-! # The compare answer across the wire

`convertToJson` glues the answer together from raw names, and prints Walmart's unknown count in
both halves.  For lists of freshly built pairs and totals in whole cents, the app reads back
what the server had precisely when the two unknown counts agree and no name needs an escape
(`answerIntact_iff`). -/

namespace EasyGrocery.Wire

open Guarded Json
open Server (Entry Info Globals convertToJson itemsToJson itemToJson countText Price)
open Prices (Item generateItemList itemOf storeOf readResponse PriceCompareReturn)

/-- An array `[name, price]`. -/
structure Pair where
  ref : ℕ
  name : String
  price : Decimal

def Pair.entry (p : Pair) : Entry Decimal := .pair p.ref p.name p.price

/-- The pair as the app has it. -/
def Pair.item (p : Pair) : Item := ⟨some p.name, p.price.toRat⟩

/-- Every pair was built by an array literal of its own. -/
def Fresh (ps : List Pair) : Prop := (ps.map Pair.ref).Nodup

instance (ps : List Pair) : Decidable (Fresh ps) :=
  inferInstanceAs (Decidable (ps.map Pair.ref).Nodup)

/-- What the server may have to encode: totals in whole cents, lists of freshly built pairs, and
counts. -/
structure Answer where
  sPrice : Decimal
  sList : List Pair
  sUnk : ℕ
  wPrice : Decimal
  wList : List Pair
  wUnk : ℕ
  sCents : sPrice.InHundredths
  wCents : wPrice.InHundredths
  sFresh : Fresh sList
  wFresh : Fresh wList

def Answer.info (a : Answer) : Info Decimal :=
  ⟨a.sPrice, a.sList.map Pair.entry, a.sUnk, a.wPrice, a.wList.map Pair.entry, a.wUnk⟩

/-- The server's text is an array of two objects, from which the app reads both totals and both
lists as they were, and whose `unknown` members are the two counts. -/
def AnswerIntact (g : Globals Decimal) (a : Answer) : Prop :=
  ∃ g' text safeway walmart, convertToJson g a.info = some (g', text) ∧
    Json.parse text = some (.arr [.obj safeway, .obj walmart]) ∧
    readResponse text =
      some ⟨a.sPrice.toRat, a.sList.map Pair.item, a.wPrice.toRat, a.wList.map Pair.item⟩ ∧
    get? safeway "unknown" = some (.num a.sUnk) ∧ get? walmart "unknown" = some (.num a.wUnk)

/-! ### The text -/

def itemHead : List Char := [' ', '"', 'n', 'a', 'm', 'e', '"', ' ', ':', ' ', '"']

def itemMiddle : List Char := ['"', ',', ' ', '"', 'c', 'o', 's', 't', '"', ' ', ':', ' ']

/-- The text of an item after its opening brace. -/
def pairTail (p : Pair) : List Char :=
  itemHead ++ (p.name.toList ++ (itemMiddle ++ (p.price.toText.toList ++ ['}'])))

def pairsText : List Pair → List Char
  | [] => []
  | [p] => '{' :: pairTail p
  | p :: ps => '{' :: (pairTail p ++ ',' :: pairsText ps)

def costHead : List Char := ['"', 'c', 'o', 's', 't', '"', ' ', ':', ' ']

def itemsHead : List Char := [',', '"', 'i', 't', 'e', 'm', 's', '"', ' ', ':', ' ', '[']

def unknownHead : List Char :=
  [']', ',', '"', 'u', 'n', 'k', 'n', 'o', 'w', 'n', '"', ' ', ':', ' ']

/-- The text of a store after its opening brace. -/
def storeText (price : String) (ps : List Pair) (unknown : ℕ) : List Char :=
  costHead ++ (price.toList ++ (itemsHead ++ (pairsText ps ++ (unknownHead ++
    ((countText unknown).toList ++ ['}'])))))

/-- One round of the loop. -/
theorem itemToJson_toList (last : Option (Entry Decimal)) (g : Globals Decimal) (jsonStr : String)
    (p : Pair) : (itemToJson last g jsonStr p.entry).2.toList = jsonStr.toList ++
      '{' :: (pairTail p ++ if last.any p.entry.strictEq then [] else [',']) := by
  have h0 : p.entry.at0 = p.name := rfl
  have h1 : p.entry.at1 = p.price.toText := rfl
  by_cases h : last.any p.entry.strictEq = true <;>
    simp [itemToJson, h, h0, h1, pairTail, itemHead, itemMiddle]

/-- The loop writes a comma after every pair but the last one. -/
theorem itemsToJson_toList {last : Option (Entry Decimal)} {ps : List Pair}
    (hlast : ps ≠ [] → ps.getLast?.map Pair.entry = last) (hfresh : Fresh ps)
    (g : Globals Decimal) (jsonStr : String) :
    (itemsToJson last g jsonStr (ps.map Pair.entry)).2.toList = jsonStr.toList ++ pairsText ps := by
  unfold itemsToJson
  induction ps generalizing g jsonStr with
  | nil => simp [pairsText]
  | cons p ps ih =>
      rw [List.map_cons, List.foldl_cons]
      cases ps with
      | nil =>
          obtain rfl : some p.entry = last := by simpa using hlast
          have hself : (some p.entry).any p.entry.strictEq = true := by
            simp [Pair.entry, Entry.strictEq]
          rw [List.map_nil, List.foldl_nil, itemToJson_toList, if_pos hself, List.append_nil]
          rfl
      | cons q ps =>
          have hlast' : (q :: ps).getLast?.map Pair.entry = last := by simpa using hlast
          obtain ⟨z, hz⟩ : ∃ z, (q :: ps).getLast? = some z :=
            ⟨_, List.getLast?_eq_some_getLast (List.cons_ne_nil q ps)⟩
          -- the last pair is another array
          have hne : p.ref ≠ z.ref := by
            intro h
            have hmem : z.ref ∈ (q :: ps).map Pair.ref := List.mem_map_of_mem (List.mem_of_getLast? hz)
            exact (List.nodup_cons.mp hfresh).1 (h ▸ hmem)
          have hother : last.any p.entry.strictEq = false := by
            rw [← hlast', hz]
            simp [Pair.entry, Entry.strictEq, hne]
          rw [ih (fun _ => hlast') (List.nodup_cons.mp hfresh).2, itemToJson_toList, hother]
          simp [pairsText]

theorem convert_toList (g : Globals Decimal) (a : Answer) :
    ∃ g' text, convertToJson g a.info = some (g', text) ∧
      text.toList = '[' :: '{' :: (storeText a.sPrice.toFixed2 a.sList a.wUnk ++ ',' :: '{' ::
        (storeText a.wPrice.toFixed2 a.wList a.wUnk ++ [']'])) := by
  have hlast (ps : List Pair) : ps ≠ [] → ps.getLast?.map Pair.entry =
      (ps.map Pair.entry)[(ps.map Pair.entry).length - 1]? := by
    intro _
    rw [← List.getLast?_eq_getElem?, List.getLast?_map]
  let sList := a.sList.map Pair.entry
  let wList := a.wList.map Pair.entry
  let safeway := itemsToJson sList[sList.length - 1]? g
    ("" ++ "[\x7b" ++ "\"cost\" : " ++ a.sPrice.toFixed2 ++ "," ++ "\"items\" : [") sList
  let walmart := itemsToJson wList[wList.length - 1]? safeway.1
    (safeway.2 ++ "]," ++ "\"unknown\" : " ++ countText a.wUnk ++ "\x7d," ++ "\x7b" ++ "\"cost\" : " ++
      a.wPrice.toFixed2 ++ "," ++ "\"items\" : [") wList
  refine ⟨walmart.1, walmart.2 ++ "]," ++ "\"unknown\" : " ++ countText a.wUnk ++ "\x7d]", rfl, ?_⟩
  have hsafeway := itemsToJson_toList (hlast a.sList) a.sFresh g
    ("" ++ "[\x7b" ++ "\"cost\" : " ++ a.sPrice.toFixed2 ++ "," ++ "\"items\" : [")
  have hwalmart := itemsToJson_toList (hlast a.wList) a.wFresh safeway.1
    (safeway.2 ++ "]," ++ "\"unknown\" : " ++ countText a.wUnk ++ "\x7d," ++ "\x7b" ++ "\"cost\" : " ++
      a.wPrice.toFixed2 ++ "," ++ "\"items\" : [")
  simp only [String.toList_append] at hwalmart hsafeway ⊢
  rw [hwalmart, hsafeway]
  simp [storeText, costHead, itemsHead, unknownHead]

/-! ### Reading an item -/

/-- An element of the list as it is read. -/
def pairElement (p : Pair) : Json := .obj [("name", .str p.name), ("cost", .num p.price.toRat)]

theorem run_itemHead (js : List Json) (st : List Frame) :
    run step ⟨.elems js :: st, .objStart⟩ itemHead =
      some ⟨.member [] "name" :: .elems js :: st, .str none ⟨[], none, .no⟩⟩ := rfl

/-- From the end of a name to the end of the item. -/
theorem run_afterName (js : List Json) (st : List Frame) {s : Str} (he : s.esc = .no) (p : Pair) :
    run step ⟨.member [] "name" :: .elems js :: st, .str none s⟩
        (itemMiddle ++ (p.price.toText.toList ++ ['}'])) =
      some ⟨st, .afterElem (js ++ [pairElement { p with name := String.ofList s.flush }])⟩ := by
  have hclose : step ⟨.member [] "name" :: .elems js :: st, .str none s⟩ '"' =
      some ⟨.elems js :: st, .afterMember [("name", .str (String.ofList s.flush))]⟩ := by
    simp [step, he, closeStr, complete]
  have hmiddle : run step ⟨.member [] "name" :: .elems js :: st, .str none s⟩ itemMiddle =
      some ⟨.member [("name", .str (String.ofList s.flush))] "cost" :: .elems js :: st, .value⟩ := by
    rw [itemMiddle, run_cons_of_eq hclose]
    rfl
  obtain ⟨n, hn, hv⟩ := Decimal.run_toText
    (.member [("name", .str (String.ofList s.flush))] "cost" :: .elems js :: st) p.price
  rw [run_append, hmiddle, Option.bind_some, run_append, hn, Option.bind_some,
    run_cons_of_eq (Decimal.step_num_brace hv)]
  rfl

theorem run_pairTail (js : List Json) (st : List Frame) {p : Pair} (h : PlainText p.name) :
    run step ⟨.elems js :: st, .objStart⟩ (pairTail p) =
      some ⟨st, .afterElem (js ++ [pairElement p])⟩ := by
  rw [pairTail, run_append, run_itemHead, Option.bind_some, run_append, run_plain _ _ h,
    Option.bind_some, run_afterName js st rfl]
  simp [Str.flush]

/-- Reading an item whose name has no quote yields an item with the same price, and the same
name only if that is plain. -/
theorem run_pairTail_cases {js : List Json} {st : List Frame} {p : Pair} (hq : '"' ∉ p.name.toList)
    {x : State} (h : run step ⟨.elems js :: st, .objStart⟩ (pairTail p) = some x) :
    ∃ q : Pair, x = ⟨st, .afterElem (js ++ [pairElement q])⟩ ∧ (q.name = p.name → PlainText p.name) := by
  rw [pairTail, run_append, run_itemHead, Option.bind_some, run_append] at h
  obtain ⟨y, hy, h⟩ := Option.bind_eq_some_iff.mp h
  obtain ⟨s, rfl, hs⟩ := run_noQuote hq hy
  cases he : s.esc with
  | hex k n =>
      have htext : itemMiddle ++ (p.price.toText.toList ++ ['}']) =
          '"' :: (itemMiddle.drop 1 ++ (p.price.toText.toList ++ ['}'])) := rfl
      rw [htext, run_cons, step_quote_hex he] at h
      cases h
  | backslash =>
      -- the quote was swallowed, and the next one ends the name too late
      have hpush := (specials_pushUnit_le s 0x22).2
      have htext : itemMiddle ++ (p.price.toText.toList ++ ['}']) = '"' :: ([',', ' '] ++ '"' :: 'c' ::
          (itemMiddle.drop 5 ++ (p.price.toText.toList ++ ['}']))) := rfl
      obtain ⟨s', he', hrun⟩ := run_plain_esc (.member [] "name" :: .elems js :: st) none
        (l := [',', ' ']) (by simp) hpush
      rw [htext, run_cons_of_eq (step_quote_backslash he), run_append, hrun, Option.bind_some,
        dead_at_quote _ _ _ he' (by decide)] at h
      cases h
  | no =>
      rw [run_afterName js st he] at h
      refine ⟨_, (Option.some.inj h).symm, fun hd => hs ?_⟩
      have hlen := congrArg (fun n => n.toList.length) hd
      simp only [String.toList_ofList, Str.length_flush] at hlen
      simpa using hlen

/-! ### Reading a list -/

theorem pairsText_eq (ps : List Pair) : pairsText ps = objectsText pairTail ps := by
  induction ps with
  | nil => rfl
  | cons p ps ih => cases ps with
    | nil => rfl
    | cons q ps => rw [pairsText, objectsText, ih] <;> simp

theorem run_pairsText_cases {ps : List Pair} (hq : ∀ p ∈ ps, '"' ∉ p.name.toList) (hne : ps ≠ [])
    {js : List Json} {st : List Frame} {s : State} (hs : step s '{' = some ⟨.elems js :: st, .objStart⟩)
    {x : State} (h : run step s (pairsText ps) = some x) :
    ∃ qs : List Pair, x = ⟨st, .afterElem (js ++ qs.map pairElement)⟩ ∧
      (qs.map Pair.name = ps.map Pair.name → ∀ p ∈ ps, PlainText p.name) := by
  induction ps generalizing js s with
  | nil => exact absurd rfl hne
  | cons p ps ih =>
      have hqp := hq p List.mem_cons_self
      cases ps with
      | nil =>
          rw [pairsText, run_cons_of_eq hs] at h
          obtain ⟨q, rfl, hname⟩ := run_pairTail_cases hqp h
          refine ⟨[q], rfl, fun hnames => ?_⟩
          simpa using hname (by simpa using hnames)
      | cons p' ps =>
          rw [pairsText, run_cons_of_eq hs, run_append] at h
          · obtain ⟨y, hy, h⟩ := Option.bind_eq_some_iff.mp h
            obtain ⟨q, rfl, hname⟩ := run_pairTail_cases hqp hy
            have hcomma : step ⟨st, .afterElem (js ++ [pairElement q])⟩ ',' =
                some ⟨.elems (js ++ [pairElement q]) :: st, .value⟩ := rfl
            rw [run_cons_of_eq hcomma] at h
            obtain ⟨qs, rfl, hall⟩ := ih (fun r hr => hq r (List.mem_cons_of_mem p hr)) (by simp) rfl h
            refine ⟨q :: qs, by simp, fun hnames => ?_⟩
            obtain ⟨h1, h2⟩ := List.cons.inj hnames
            exact List.forall_mem_cons.mpr ⟨hname h1, hall h2⟩
          · simp

/-- After the pairs of a list, empty or not, the bracket closes it. -/
theorem run_list {ps : List Pair} (hp : ∀ p ∈ ps, PlainText p.name) (st : List Frame) :
    ∃ x, run step ⟨st, .arrStart⟩ (pairsText ps) = some x ∧
      step x ']' = some (complete st (.arr (ps.map pairElement))) := by
  rw [pairsText_eq]
  exact run_objects fun p hmem js => run_pairTail js st (hp p hmem)

theorem run_list_cases {ps : List Pair} (hq : ∀ p ∈ ps, '"' ∉ p.name.toList) {st : List Frame}
    {x : State} (h : run step ⟨st, .arrStart⟩ (pairsText ps) = some x) :
    ∃ qs : List Pair, step x ']' = some (complete st (.arr (qs.map pairElement))) ∧
      (qs.map Pair.name = ps.map Pair.name → ∀ p ∈ ps, PlainText p.name) := by
  by_cases hne : ps = []
  · subst hne
    obtain rfl := Option.some.inj h
    exact ⟨[], rfl, fun _ => by simp⟩
  · have hs : step ⟨st, .arrStart⟩ '{' = some ⟨.elems [] :: st, .objStart⟩ := rfl
    obtain ⟨qs, rfl, hall⟩ := run_pairsText_cases hq hne hs h
    exact ⟨qs, rfl, hall⟩

/-! ### Reading a store -/

/-- The members of a store as they are read. -/
def storeMembers (price : ℚ) (ps : List Pair) (unknown : ℕ) : List (String × Json) :=
  [("cost", .num price), ("items", .arr (ps.map pairElement)), ("unknown", .num unknown)]

theorem toRat_count (n : ℕ) : (⟨n, 0⟩ : Decimal).toRat = n := by simp [Decimal.toRat]

/-- Up to the first pair. -/
theorem run_storeHead (js : List Json) (st : List Frame) {d : Decimal} (hd : d.InHundredths)
    (rest : List Char) :
    run step ⟨.elems js :: st, .objStart⟩ (costHead ++ (d.toFixed2.toList ++ (itemsHead ++ rest))) =
      run step ⟨.member [("cost", .num d.toRat)] "items" :: .elems js :: st, .arrStart⟩ rest := by
  have hcost : run step ⟨.elems js :: st, .objStart⟩ costHead =
      some ⟨.member [] "cost" :: .elems js :: st, .value⟩ := rfl
  obtain ⟨n, hn, hv⟩ := Decimal.run_toFixed2 (.member [] "cost" :: .elems js :: st) hd
  rw [run_append, hcost, Option.bind_some, run_append, hn, Option.bind_some, itemsHead,
    List.cons_append, run_cons_of_eq (Decimal.step_num_comma hv)]
  rfl

/-- From the last pair on. -/
theorem run_storeTail (js : List Json) (st : List Frame) {q : ℚ} {qs : List Pair} {x : State}
    (hx : step x ']' = some (complete (.member [("cost", .num q)] "items" :: .elems js :: st)
      (.arr (qs.map pairElement)))) (unknown : ℕ) :
    run step x (unknownHead ++ ((countText unknown).toList ++ ['}'])) =
      some ⟨st, .afterElem (js ++ [.obj (storeMembers q qs unknown)])⟩ := by
  have hunknown : run step x unknownHead = some ⟨.member [("cost", .num q),
      ("items", .arr (qs.map pairElement))] "unknown" :: .elems js :: st, .value⟩ := by
    rw [unknownHead, run_cons_of_eq hx]
    rfl
  obtain ⟨n, hn, hv⟩ := Decimal.run_toText (.member [("cost", .num q),
    ("items", .arr (qs.map pairElement))] "unknown" :: .elems js :: st) ⟨unknown, 0⟩
  rw [toRat_count] at hv
  rw [run_append, hunknown, Option.bind_some, run_append, countText, hn, Option.bind_some,
    run_cons_of_eq (Decimal.step_num_brace hv)]
  rfl

theorem run_storeText (js : List Json) (st : List Frame) {d : Decimal} (hd : d.InHundredths)
    {ps : List Pair} (hp : ∀ p ∈ ps, PlainText p.name) (unknown : ℕ) :
    run step ⟨.elems js :: st, .objStart⟩ (storeText d.toFixed2 ps unknown) =
      some ⟨st, .afterElem (js ++ [.obj (storeMembers d.toRat ps unknown)])⟩ := by
  obtain ⟨x, hx, hclose⟩ := run_list hp (.member [("cost", .num d.toRat)] "items" :: .elems js :: st)
  rw [storeText, run_storeHead js st hd, run_append, hx, Option.bind_some, run_storeTail js st hclose]

theorem run_storeText_cases {js : List Json} {st : List Frame} {d : Decimal} (hd : d.InHundredths)
    {ps : List Pair} (hq : ∀ p ∈ ps, '"' ∉ p.name.toList) {unknown : ℕ} {x : State}
    (h : run step ⟨.elems js :: st, .objStart⟩ (storeText d.toFixed2 ps unknown) = some x) :
    ∃ qs : List Pair, x = ⟨st, .afterElem (js ++ [.obj (storeMembers d.toRat qs unknown)])⟩ ∧
      (qs.map Pair.name = ps.map Pair.name → ∀ p ∈ ps, PlainText p.name) := by
  rw [storeText, run_storeHead js st hd, run_append] at h
  obtain ⟨y, hy, h⟩ := Option.bind_eq_some_iff.mp h
  obtain ⟨qs, hclose, hall⟩ := run_list_cases hq hy
  rw [run_storeTail js st hclose] at h
  exact ⟨qs, (Option.some.inj h).symm, hall⟩

/-! ### Reading the answer -/

/-- The array of the two stores, with the lists `qs` and `rs` and the count that was printed. -/
def answerJson (a : Answer) (qs rs : List Pair) : Json :=
  .arr [.obj (storeMembers a.sPrice.toRat qs a.wUnk), .obj (storeMembers a.wPrice.toRat rs a.wUnk)]

theorem parse_plain {a : Answer} (hs : ∀ p ∈ a.sList, PlainText p.name)
    (hw : ∀ p ∈ a.wList, PlainText p.name) {text : String}
    (htext : text.toList = '[' :: '{' :: (storeText a.sPrice.toFixed2 a.sList a.wUnk ++ ',' :: '{' ::
        (storeText a.wPrice.toFixed2 a.wList a.wUnk ++ [']']))) :
    Json.parse text = some (answerJson a a.sList a.wList) := by
  have hopen : step start '[' = some ⟨[], .arrStart⟩ := rfl
  have hfirst : step ⟨[], .arrStart⟩ '{' = some ⟨[.elems []], .objStart⟩ := rfl
  have hcomma (js : List Json) : step ⟨[], .afterElem js⟩ ',' = some ⟨[.elems js], .value⟩ := rfl
  have hsecond (js : List Json) : step ⟨[.elems js], .value⟩ '{' = some ⟨[.elems js], .objStart⟩ := rfl
  rw [Json.parse, htext, run_cons_of_eq hopen, run_cons_of_eq hfirst, run_append,
    run_storeText [] [] a.sCents hs, Option.bind_some, run_cons_of_eq (hcomma _),
    run_cons_of_eq (hsecond _), run_append, run_storeText _ [] a.wCents hw]
  rfl

theorem parse_cases {a : Answer} (hs : ∀ p ∈ a.sList, '"' ∉ p.name.toList)
    (hw : ∀ p ∈ a.wList, '"' ∉ p.name.toList) {text : String}
    (htext : text.toList = '[' :: '{' :: (storeText a.sPrice.toFixed2 a.sList a.wUnk ++ ',' :: '{' ::
        (storeText a.wPrice.toFixed2 a.wList a.wUnk ++ [']'])))
    {j : Json} (h : Json.parse text = some j) :
    ∃ qs rs : List Pair, j = answerJson a qs rs ∧
      (qs.map Pair.name = a.sList.map Pair.name → ∀ p ∈ a.sList, PlainText p.name) ∧
      (rs.map Pair.name = a.wList.map Pair.name → ∀ p ∈ a.wList, PlainText p.name) := by
  have hopen : step start '[' = some ⟨[], .arrStart⟩ := rfl
  have hfirst : step ⟨[], .arrStart⟩ '{' = some ⟨[.elems []], .objStart⟩ := rfl
  have hcomma (js : List Json) : step ⟨[], .afterElem js⟩ ',' = some ⟨[.elems js], .value⟩ := rfl
  have hsecond (js : List Json) : step ⟨[.elems js], .value⟩ '{' = some ⟨[.elems js], .objStart⟩ := rfl
  rw [Json.parse, htext, run_cons_of_eq hopen, run_cons_of_eq hfirst, run_append] at h
  obtain ⟨t, ht, hf⟩ := Option.bind_eq_some_iff.mp h
  obtain ⟨x, hx, ht⟩ := Option.bind_eq_some_iff.mp ht
  obtain ⟨qs, rfl, hqs⟩ := run_storeText_cases a.sCents hs hx
  rw [run_cons_of_eq (hcomma _), run_cons_of_eq (hsecond _), run_append] at ht
  obtain ⟨y, hy, ht⟩ := Option.bind_eq_some_iff.mp ht
  obtain ⟨rs, rfl, hrs⟩ := run_storeText_cases a.wCents hw hy
  obtain rfl := Option.some.inj ht
  exact ⟨qs, rs, (Option.some.inj hf).symm, hqs, hrs⟩

theorem itemOf_pairElement (p : Pair) : itemOf (pairElement p) = some p.item := by
  simp [itemOf, pairElement, Json.get?, Pair.item]

theorem generateItemList_pairs (ps : List Pair) :
    generateItemList (.arr (ps.map pairElement)) = some (ps.map Pair.item) := by
  unfold generateItemList
  induction ps with
  | nil => rfl
  | cons p ps ih => simp [itemOf_pairElement, ih]

theorem storeOf_storeMembers (price : ℚ) (ps : List Pair) (unknown : ℕ) :
    storeOf (.obj (storeMembers price ps unknown)) = some (price, ps.map Pair.item) := by
  simp [storeOf, storeMembers, Json.get?, generateItemList_pairs]

theorem readResponse_answer {a : Answer} {qs rs : List Pair} {text : String}
    (h : Json.parse text = some (answerJson a qs rs)) :
    readResponse text =
      some ⟨a.sPrice.toRat, qs.map Pair.item, a.wPrice.toRat, rs.map Pair.item⟩ := by
  simp [readResponse, h, answerJson, storeOf_storeMembers]

theorem unknown_storeMembers (price : ℚ) (ps : List Pair) (unknown : ℕ) :
    get? (storeMembers price ps unknown) "unknown" = some (.num unknown) := rfl

theorem answerIntact_of_plain (g : Globals Decimal) {a : Answer} (hu : a.sUnk = a.wUnk)
    (hs : ∀ p ∈ a.sList, PlainText p.name) (hw : ∀ p ∈ a.wList, PlainText p.name) :
    AnswerIntact g a := by
  obtain ⟨g', text, hconv, htext⟩ := convert_toList g a
  have hparse := parse_plain hs hw htext
  refine ⟨g', text, _, _, hconv, hparse, readResponse_answer hparse, ?_, unknown_storeMembers _ _ _⟩
  rw [hu]
  exact unknown_storeMembers _ _ _

/-! ### What an answer that came across must look like -/

/-- Characters that may stand in a number are neither quotes nor backslashes. -/
theorem charges_number {l : List Char} {p p' : NumPhase} (h : run NumPhase.step p l = some p') :
    charges l = 0 := by
  induction l generalizing p with
  | nil => rfl
  | cons c l ih =>
      obtain ⟨q, hq, h⟩ := run_cons_eq_some.mp h
      have hb : c ≠ '\\' := by rintro rfl; cases p <;> cases hq
      have hc : c ≠ '"' := by rintro rfl; cases p <;> cases hq
      rw [charges_cons, charge_other hb hc, ih h]

theorem charges_sign (d : Decimal) : charges d.sign = 0 := by
  unfold Decimal.sign
  split_ifs <;> rfl

theorem charges_toText (d : Decimal) : charges d.toText.toList = 0 := by
  obtain ⟨p, hp, -⟩ := Decimal.run_absText d.coef.natAbs d.scale
  rw [Decimal.toText, String.toList_ofList, charges_append, charges_sign, charges_number hp]

theorem charges_toFixed2 (d : Decimal) : charges d.toFixed2.toList = 0 := by
  unfold Decimal.toFixed2
  split_ifs
  · exact charges_toText d
  · obtain ⟨p, hp, -⟩ := Decimal.run_fixedText (Decimal.hundredths d.coef.natAbs d.scale)
    rw [String.toList_ofList, charges_append, charges_sign, charges_number hp]

theorem charges_pairTail (p : Pair) : charges (pairTail p) = 6 + charges p.name.toList := by
  have hhead : charges itemHead = 3 := rfl
  have hmiddle : charges itemMiddle = 3 := rfl
  have hbrace : charges ['}'] = 0 := rfl
  rw [pairTail, charges_append, charges_append, charges_append, charges_append, hhead, hmiddle,
    charges_toText, hbrace]
  omega

theorem charges_pairsText (ps : List Pair) :
    charges (pairsText ps) = (ps.map fun p => 6 + charges p.name.toList).sum := by
  induction ps with
  | nil => rfl
  | cons p ps ih =>
      have hbrace : charge '{' = 0 := rfl
      have hcomma : charge ',' = 0 := rfl
      cases ps with
      | nil => simp [pairsText, charges_pairTail, hbrace]
      | cons q ps =>
          rw [pairsText, charges_cons, charges_append, charges_cons, charges_pairTail, ih, hbrace, hcomma]
          · simp
          · simp

theorem charges_storeText (d : Decimal) (ps : List Pair) (unknown : ℕ) :
    charges (storeText d.toFixed2 ps unknown) = 6 + (ps.map fun p => 6 + charges p.name.toList).sum := by
  have hcost : charges costHead = 2 := rfl
  have hitems : charges itemsHead = 2 := rfl
  have hunknown : charges unknownHead = 2 := rfl
  have hbrace : charges ['}'] = 0 := rfl
  simp only [storeText, charges_append, charges_toFixed2, charges_pairsText, countText,
    charges_toText, hcost, hitems, hunknown, hbrace]
  omega

theorem itemOf_eq_some {j : Json} {name : String} {price : ℚ} (h : itemOf j = some ⟨some name, price⟩) :
    ∃ ms, j = .obj ms ∧ get? ms "name" = some (.str name) ∧ get? ms "cost" = some (.num price) := by
  cases j with
  | obj ms =>
      refine ⟨ms, rfl, ?_⟩
      cases hc : get? ms "cost" with
      | none => cases hn : get? ms "name" with
        | none => simp [itemOf, hc, hn] at h
        | some v => cases v <;> simp [itemOf, hc, hn] at h
      | some c => cases hn : get? ms "name" with
        | none => cases c <;> simp [itemOf, hc, hn] at h
        | some v => cases c <;> cases v <;> simp [itemOf, hc, hn] at h ⊢; exact h
  | _ => simp [itemOf] at h

/-- An element that is read back as a pair costs its quotes and the name's. -/
theorem cost_of_itemOf {j : Json} {p : Pair} (h : itemOf j = some p.item) :
    6 + 2 * specials p.name.toList ≤ j.cost := by
  obtain ⟨ms, rfl, hname, hcost⟩ := itemOf_eq_some h
  have hle := sum_le_memberCosts ms [("name", .str p.name), ("cost", .num p.price.toRat)] (by simp)
    (by simp [hname, hcost])
  have hkeys : specials "name".toList = 0 ∧ specials "cost".toList = 0 := by decide
  simp only [List.map_cons, List.map_nil, List.sum_cons, List.sum_nil, memberCost, cost, hkeys] at hle
  simp only [cost]
  omega

theorem sum_cost_of_mapM {js : List Json} {ps : List Pair} (h : js.mapM itemOf = some (ps.map Pair.item)) :
    (ps.map fun p => 6 + 2 * specials p.name.toList).sum ≤ costs js := by
  induction js generalizing ps with
  | nil =>
      cases ps with
      | nil => simp [costs]
      | cons p ps => simp at h
  | cons j js ih =>
      rw [List.mapM_cons] at h
      obtain ⟨v, hv, h⟩ := Option.bind_eq_some_iff.mp h
      obtain ⟨vs, hvs, h⟩ := Option.bind_eq_some_iff.mp h
      cases ps with
      | nil => simp at h
      | cons p ps =>
          obtain ⟨rfl, rfl⟩ : v = p.item ∧ vs = ps.map Pair.item := by simpa using h
          have h1 := cost_of_itemOf hv
          have h2 := ih hvs
          simp only [List.map_cons, List.sum_cons, costs]
          omega

theorem sum_cost_of_list {j : Json} {ps : List Pair} (h : generateItemList j = some (ps.map Pair.item)) :
    (ps.map fun p => 6 + 2 * specials p.name.toList).sum ≤ j.cost := by
  have hempty (hp : ([] : List Item) = ps.map Pair.item) : ps = [] := by simpa using hp.symm
  cases j with
  | arr js => exact sum_cost_of_mapM h
  | str s =>
      simp only [generateItemList] at h
      split_ifs at h
      rw [hempty (Option.some.inj h)]
      exact Nat.zero_le _
  | obj ms =>
      simp only [generateItemList] at h
      split_ifs at h
      rw [hempty (Option.some.inj h)]
      exact Nat.zero_le _
  | _ => simp [generateItemList] at h

theorem storeOf_eq_some {ms : List (String × Json)} {q : ℚ} {list : List Item}
    (h : storeOf (.obj ms) = some (q, list)) :
    get? ms "cost" = some (.num q) ∧ ∃ items, get? ms "items" = some items ∧
      generateItemList items = some list := by
  cases hc : get? ms "cost" with
  | none => simp [storeOf, hc] at h
  | some c =>
      cases hi : get? ms "items" with
      | none => cases c <;> simp [storeOf, hc, hi] at h
      | some items =>
          cases c with
          | num c => cases hl : generateItemList items with
            | none => simp [storeOf, hc, hi, hl] at h
            | some l =>
                obtain ⟨rfl, rfl⟩ : c = q ∧ l = list := by simpa [storeOf, hc, hi, hl] using h
                exact ⟨rfl, items, rfl, hl⟩
          | _ => simp [storeOf, hc] at h

theorem sum_cost_of_store {ms : List (String × Json)} {q : ℚ} {ps : List Pair} {u : Json}
    (h : storeOf (.obj ms) = some (q, ps.map Pair.item)) (hu : get? ms "unknown" = some u) :
    6 + (ps.map fun p => 6 + 2 * specials p.name.toList).sum ≤ (Json.obj ms).cost := by
  obtain ⟨hcost, items, hitems, hlist⟩ := storeOf_eq_some h
  have hsum := sum_cost_of_list hlist
  have hle := sum_le_memberCosts ms [("cost", .num q), ("items", items), ("unknown", u)] (by simp)
    (by simp [hcost, hitems, hu])
  have hkeys : specials "cost".toList = 0 ∧ specials "items".toList = 0 ∧
      specials "unknown".toList = 0 := by decide
  simp only [List.map_cons, List.map_nil, List.sum_cons, List.sum_nil, memberCost, hkeys] at hle
  simp only [cost]
  omega

theorem storesOf_readResponse {text : String} {safeway walmart : List (String × Json)}
    {sCost wCost : ℚ} {sList wList : List Item}
    (hp : Json.parse text = some (.arr [.obj safeway, .obj walmart]))
    (h : readResponse text = some ⟨sCost, sList, wCost, wList⟩) :
    storeOf (.obj safeway) = some (sCost, sList) ∧ storeOf (.obj walmart) = some (wCost, wList) := by
  cases hs : storeOf (.obj safeway) with
  | none => simp [readResponse, hp, hs] at h
  | some s =>
      cases hw : storeOf (.obj walmart) with
      | none => simp [readResponse, hp, hs, hw] at h
      | some w =>
          obtain ⟨s1, s2⟩ := s
          obtain ⟨w1, w2⟩ := w
          obtain ⟨rfl, rfl, rfl, rfl⟩ : s1 = sCost ∧ s2 = sList ∧ w1 = wCost ∧ w2 = wList := by
            simpa [readResponse, hp, hs, hw] using h
          exact ⟨rfl, rfl⟩

theorem no_quote_of_answerIntact {g : Globals Decimal} {a : Answer} (h : AnswerIntact g a) :
    ∀ p ∈ a.sList ++ a.wList, '"' ∉ p.name.toList := by
  obtain ⟨g', text, safeway, walmart, hconv, hparse, hread, hsu, hwu⟩ := h
  obtain ⟨g'', text', hconv', htext⟩ := convert_toList g a
  obtain ⟨-, rfl⟩ : g' = g'' ∧ text = text' := by simpa [hconv] using hconv'
  obtain ⟨hsafeway, hwalmart⟩ := storesOf_readResponse hparse hread
  have hs := sum_cost_of_store hsafeway hsu
  have hw := sum_cost_of_store hwalmart hwu
  have hcost := cost_le_of_parse hparse
  have hpunct : charge '[' = 0 ∧ charge '{' = 0 ∧ charge ',' = 0 ∧ charge ']' = 0 := by decide
  simp only [htext, cost, costs, charges_cons, charges_append, charges_nil, charges_storeText, hpunct]
    at hcost hs hw
  have hlt : ((a.sList ++ a.wList).map fun p => 6 + 2 * specials p.name.toList).sum ≤
      ((a.sList ++ a.wList).map fun p => 6 + charges p.name.toList).sum := by
    simp only [List.map_append, List.sum_append]
    omega
  exact no_quote_of_sum_le hlt

theorem plain_of_answerIntact {g : Globals Decimal} {a : Answer} (h : AnswerIntact g a) :
    a.sUnk = a.wUnk ∧ (∀ p ∈ a.sList, PlainText p.name) ∧ ∀ p ∈ a.wList, PlainText p.name := by
  have hq := no_quote_of_answerIntact h
  obtain ⟨g', text, safeway, walmart, hconv, hparse, hread, hsu, -⟩ := h
  obtain ⟨g'', text', hconv', htext⟩ := convert_toList g a
  obtain ⟨-, rfl⟩ : g' = g'' ∧ text = text' := by simpa [hconv] using hconv'
  obtain ⟨qs, rs, hj, hqs, hrs⟩ := parse_cases (fun p hp => hq p (List.mem_append_left _ hp))
    (fun p hp => hq p (List.mem_append_right _ hp)) htext hparse
  rw [hj] at hparse
  have hboth := (readResponse_answer hparse).symm.trans hread
  simp only [Option.some.injEq, PriceCompareReturn.mk.injEq, true_and] at hboth
  have hnames {ps ps' : List Pair} (h : ps.map Pair.item = ps'.map Pair.item) :
      ps.map Pair.name = ps'.map Pair.name := by
    have := congrArg (List.map fun i : Item => i.name.getD "") h
    simpa [List.map_map, Function.comp_def, Pair.item] using this
  refine ⟨?_, hqs (hnames hboth.1), hrs (hnames hboth.2)⟩
  obtain ⟨rfl, -⟩ : safeway = storeMembers a.sPrice.toRat qs a.wUnk ∧ _ := by
    simpa [answerJson] using hj
  have hunk := (unknown_storeMembers a.sPrice.toRat qs a.wUnk).symm.trans hsu
  have hcast : (a.wUnk : ℚ) = a.sUnk := Json.num.inj (Option.some.inj hunk)
  exact_mod_cast hcast.symm

/-- **The compare answer, exactly.**  The app has what the server had iff the two unknown
counts agree and no name needs an escape. -/
theorem answerIntact_iff (g : Globals Decimal) (a : Answer) :
    AnswerIntact g a ↔
      a.sUnk = a.wUnk ∧ (∀ p ∈ a.sList, PlainText p.name) ∧ ∀ p ∈ a.wList, PlainText p.name :=
  ⟨plain_of_answerIntact, fun ⟨hu, hs, hw⟩ => answerIntact_of_plain g hu hs hw⟩

/-- A quote in a product name ends the string early, and the text is not JSON. -/
theorem not_answerIntact_quote : ¬ ∀ (g : Globals Decimal) (a : Answer), AnswerIntact g a := by
  intro h
  let salmon : Pair :=
    ⟨0, "(2 Pack) Double \"Q\" Wild Caught Alaskan Pink Salmon  14.75 oz Can", ⟨906, 2⟩⟩
  let a : Answer := ⟨0, [], 0, ⟨906, 2⟩, [salmon], 0, by decide, by decide, by decide, by decide⟩
  obtain ⟨g', text, safeway, walmart, hconv, hparse, -⟩ := h .init a
  have hnone : ((convertToJson .init a.info).bind fun r => Json.parse r.2).isNone = true := by
    decide +kernel
  rw [hconv, Option.bind_some, hparse] at hnone
  cases hnone

end EasyGrocery.Wire
