import EasyGrocery.App.Prices
import EasyGrocery.Lib.JsonText
import EasyGrocery.Server.Request

/-! # The compare request across the wire

`encodeListAsJson` glues the raw item names into a text, and leaves out the comma after every
item that equals the last one.  The server reads the stored list back from it precisely when
there is a stored list, no name needs an escape, and the last name occurs once
(`requestIntact_iff`). -/

namespace EasyGrocery.Wire

open Firebase Guarded Json
open Prices (encodeListAsJson encodeItems)
open Server (requestList itemname)

/-- The price page after `initializeVars` has completed on the stored list (empty for none). -/
def loadedPrices (stored : List String) : Prices.State :=
  Prices.State.init.onSnapshot (Items.ofList stored)

/-- The request text is valid JSON, and the server's list is the stored one. -/
def RequestIntact (stored : List String) : Prop :=
  ∃ text body, encodeListAsJson (loadedPrices stored) = some text ∧
    Json.parse text = some (.arr body) ∧
    requestList body = some (stored.map fun name => some (.str name))

/-- The stored lists the encoder gets across. -/
structure Encodable (stored : List String) : Prop where
  ne_nil : stored ≠ []
  plain : ∀ name ∈ stored, PlainText name
  /-- the last name occurs nowhere else, so every comma is written -/
  last : ∀ name ∈ stored.dropLast, some name ≠ stored.getLast?

/-! ### The text, item by item -/

/-- An element of the request as the server sees it. -/
def element (name : String) : Json := .obj [("itemname", .str name)]

/-- The text of an item after its opening brace. -/
def itemTail (name : String) : List Char :=
  ['"', 'i', 't', 'e', 'm', 'n', 'a', 'm', 'e', '"', ':', '"'] ++ (name.toList ++ ['"', '}'])

/-- The text after an item. -/
def separator (last : Option String) (name : String) : List Char :=
  if some name = last then [] else [',', ' ']

/-- The text of all items. -/
def itemsText (last : Option String) : List String → List Char
  | [] => []
  | name :: names => '{' :: (itemTail name ++ (separator last name ++ itemsText last names))

theorem encodeItems_toList (last : Option String) (jsonlist : String) (names : List String) :
    (encodeItems last jsonlist names).toList = jsonlist.toList ++ itemsText last names := by
  unfold encodeItems
  induction names generalizing jsonlist with
  | nil => simp [itemsText]
  | cons name names ih =>
      rw [List.foldl_cons, ih]
      by_cases h : some name = last <;> simp [h, separator, itemTail, itemsText]

theorem encode_toList (l : List String) :
    ∃ text, encodeListAsJson (loadedPrices l) = (if l = [] then none else some text) ∧
      text.toList = '[' :: (itemsText l.getLast? l ++ [']']) := by
  refine ⟨encodeItems l.getLast? "[" l ++ "]", ?_, ?_⟩
  · by_cases h : l = []
    · simp [h, loadedPrices, Items.ofList, Prices.State.onSnapshot, Prices.State.init,
        encodeListAsJson]
    · simp [h, loadedPrices, Items.ofList, Prices.State.onSnapshot, Prices.State.init,
        encodeListAsJson, List.getLast?_eq_getElem?]
  · rw [String.toList_append, encodeItems_toList]
    simp

/-! ### Reading a plain list -/

theorem run_itemPrefix (js : List Json) :
    run step ⟨[.elems js], .objStart⟩
        ['"', 'i', 't', 'e', 'm', 'n', 'a', 'm', 'e', '"', ':', '"'] =
      some ⟨[.member [] "itemname", .elems js], .str none ⟨[], none, .no⟩⟩ := rfl

theorem run_itemTail {js : List Json} {name : String} (h : PlainText name) :
    run step ⟨[.elems js], .objStart⟩ (itemTail name) = some ⟨[], .afterElem (js ++ [element name])⟩ := by
  rw [itemTail, run_append, run_itemPrefix, Option.bind_some, run_append, run_plain _ _ h]
  simp [run_cons, step, closeStr, Str.flush, complete, stepClosed, isWs, element]

/-- The machine gets from a place where an element may start past all of them. -/
theorem run_itemsText {last : Option String} {names : List String}
    (hp : ∀ name ∈ names, PlainText name) (hc : ∀ name ∈ names.dropLast, some name ≠ last)
    (hl : names.getLast? = last) (hne : names ≠ []) {js : List Json} {s : State}
    (hs : step s '{' = some ⟨[.elems js], .objStart⟩) :
    run step s (itemsText last names) = some ⟨[], .afterElem (js ++ names.map element)⟩ := by
  induction names generalizing js s with
  | nil => exact absurd rfl hne
  | cons name names ih =>
      rw [itemsText, run_cons_of_eq hs, run_append, run_itemTail (hp name List.mem_cons_self),
        Option.bind_some]
      cases names with
      | nil =>
          have : some name = last := by simpa using hl
          simp [separator, this, itemsText]
      | cons name' names =>
          have hsep : some name ≠ last := hc name (by simp)
          rw [separator, if_neg hsep, run_append]
          have hcomma : run step ⟨[], .afterElem (js ++ [element name])⟩ [',', ' '] =
              some ⟨[.elems (js ++ [element name])], .value⟩ := rfl
          rw [hcomma, Option.bind_some, ih (fun n hn => hp n (List.mem_cons_of_mem _ hn))
            (fun n hn => hc n (by simp [hn])) (by simpa using hl) (by simp) rfl]
          simp

theorem itemname_element (name : String) : itemname (element name) = some (some (.str name)) := by
  simp [itemname, element, Json.get?]

theorem requestList_map_element (names : List String) :
    requestList (names.map element) = some (names.map fun name => some (.str name)) := by
  unfold requestList
  induction names with
  | nil => rfl
  | cons name names ih => simp [itemname_element, ih]

theorem requestIntact_of_encodable {stored : List String} (h : Encodable stored) :
    RequestIntact stored := by
  obtain ⟨text, henc, htext⟩ := encode_toList stored
  rw [if_neg h.ne_nil] at henc
  refine ⟨text, stored.map element, henc, ?_, requestList_map_element stored⟩
  have hstart : step start '[' = some ⟨[], .arrStart⟩ := rfl
  have hs : step ⟨[], .arrStart⟩ '{' = some ⟨[.elems []], .objStart⟩ := rfl
  rw [Json.parse, htext, run_cons_of_eq hstart, run_append,
    run_itemsText h.plain h.last rfl h.ne_nil hs]
  rfl

/-! ### What a list that came across must look like

First the charge of the text shows that no name holds a quote.  Then the text is read item by
item: a name that ends inside an escape swallows the quote after it, and what follows is not
JSON; any other name with a backslash comes out too short. -/

theorem charges_itemTail (name : String) : charges (itemTail name) = 4 + charges name.toList := by
  simp [itemTail, charge]; omega

theorem charges_itemsText (last : Option String) (names : List String) :
    charges (itemsText last names) = (names.map fun name => 4 + charges name.toList).sum := by
  induction names with
  | nil => rfl
  | cons name names ih =>
      have hsep : charges (separator last name) = 0 := by
        unfold separator; split_ifs <;> rfl
      simp only [itemsText, charges_cons, charges_append, charges_itemTail, hsep, ih]
      simp [charge]

/-- An element that is read back as a name costs its quotes and the name's. -/
theorem cost_of_itemname {j : Json} {name : String} (h : itemname j = some (some (.str name))) :
    4 + 2 * specials name.toList ≤ j.cost := by
  cases j with
  | obj ms =>
      have hm : Json.get? ms "itemname" = some (.str name) := by simpa [itemname] using h
      have hle := sum_le_memberCosts ms [("itemname", .str name)] (by simp)
        (by simpa using hm)
      simp [memberCost, cost] at hle
      simp only [cost]
      omega
  | _ => simp [itemname] at h

theorem sum_cost_of_requestList {js : List Json} {names : List String}
    (h : requestList js = some (names.map fun name => some (.str name))) :
    (names.map fun name => 4 + 2 * specials name.toList).sum ≤ costs js := by
  unfold requestList at h
  induction js generalizing names with
  | nil =>
      cases names with
      | nil => simp [costs]
      | cons name names => simp at h
  | cons j js ih =>
      rw [List.mapM_cons] at h
      obtain ⟨v, hv, h⟩ := Option.bind_eq_some_iff.mp h
      obtain ⟨vs, hvs, h⟩ := Option.bind_eq_some_iff.mp h
      cases names with
      | nil => simp at h
      | cons name names =>
          obtain ⟨rfl, rfl⟩ : v = some (.str name) ∧ vs = names.map fun name => some (.str name) := by
            simpa using h
          have h1 := cost_of_itemname hv
          have h2 := ih hvs
          simp only [List.map_cons, List.sum_cons, costs]
          omega

theorem no_quote_of_intact {stored : List String} (h : RequestIntact stored) :
    ∀ name ∈ stored, '"' ∉ name.toList := by
  obtain ⟨text, body, henc, hparse, hreq⟩ := h
  obtain ⟨text', henc', htext⟩ := encode_toList stored
  have hcost := cost_le_of_parse hparse
  have hne : stored ≠ [] := by
    rintro rfl
    simp [henc] at henc'
  rw [if_neg hne, henc] at henc'
  rw [Option.some.inj henc', htext] at hcost
  have hsum := sum_cost_of_requestList hreq
  have hlt : (stored.map fun name => 4 + 2 * specials name.toList).sum ≤
      (stored.map fun name => 4 + charges name.toList).sum := by
    rw [charges_cons, charges_append, charges_itemsText] at hcost
    exact hsum.trans (by simpa [charge, cost] using hcost)
  exact no_quote_of_sum_le hlt

/-- A quote that an escape swallowed leaves a text that cannot be completed: the next quote
closes the string, and then a name stands where a comma or a brace should. -/
theorem dead_in_string (last : Option String) {name : String} {names : List String}
    (hlast : names = [] → some name = last) {ms : List (String × Json)} {key : String}
    {st : List Frame} {s : Str} (he : s.esc = .no) :
    (run step ⟨.member ms key :: st, .str none s⟩
      (separator last name ++ (itemsText last names ++ [']']))).bind finish = none := by
  cases names with
  | nil => simp [separator, hlast rfl, itemsText, run_cons, step, Str.step, he, finish]
  | cons name' names =>
      -- the comma, if there is one, and the brace go into the string
      have hplain : ∀ c ∈ separator last name ++ ['{'], c ≠ '"' ∧ c ≠ '\\' ∧ 0x20 ≤ c.toNat := by
        unfold separator
        split_ifs <;> simp
      obtain ⟨s', he', hrun⟩ := run_plain_esc (.member ms key :: st) none hplain he
      have htext : separator last name ++ (itemsText last (name' :: names) ++ [']']) =
          (separator last name ++ ['{']) ++ '"' :: 'i' :: ((itemTail name').drop 2 ++
            (separator last name' ++ itemsText last names ++ [']'])) := by
        simp [itemsText, itemTail]
      rw [htext, run_append, hrun, Option.bind_some, dead_at_quote ms key st he' (by decide)]
      rfl

/-- Reading one item whose name has no quote: it fails, or the closing quote was swallowed by
an escape, or some name has been read, which is the item's only if that is plain. -/
theorem run_itemTail_cases {js : List Json} {name : String} (hq : '"' ∉ name.toList) {x : State}
    (h : run step ⟨[.elems js], .objStart⟩ (itemTail name) = some x) :
    (∃ s, s.esc = .no ∧ x = ⟨[.member [] "itemname", .elems js], .str none s⟩) ∨
      ∃ d, x = ⟨[], .afterElem (js ++ [element d])⟩ ∧ (d = name → PlainText name) := by
  rw [itemTail, run_append, run_itemPrefix, Option.bind_some, run_append] at h
  obtain ⟨y, hy, h⟩ := Option.bind_eq_some_iff.mp h
  obtain ⟨s, rfl, hs⟩ := run_noQuote hq hy
  cases he : s.esc with
  | hex k n =>
      rw [run_cons, step_quote_hex he] at h
      cases h
  | backslash =>
      have hpush := (specials_pushUnit_le s 0x22).2
      left
      refine ⟨⟨(s.pushUnit 0x22).flush ++ ['}'], none, .no⟩, rfl, ?_⟩
      rw [run_cons_of_eq (step_quote_backslash he)] at h
      simpa [run_cons, step, Str.step, hpush] using h.symm
  | no =>
      right
      refine ⟨String.ofList s.flush, ?_, fun hd => hs ?_⟩
      · simpa [run_cons, step, he, closeStr, complete, stepClosed, isWs, element] using h.symm
      · rw [← hd, String.toList_ofList, s.length_flush]
        simp

/-- Reading the items one by one: the elements are some names `ds`, as many as the items, and
they are the items only if every name is plain and every comma is there. -/
theorem of_parse_items {last : Option String} {names : List String}
    (hq : ∀ name ∈ names, '"' ∉ name.toList) (hl : names.getLast? = last) (hne : names ≠ [])
    {js : List Json} {s : State} (hs : step s '{' = some ⟨[.elems js], .objStart⟩) {j : Json}
    (h : (run step s (itemsText last names ++ [']'])).bind finish = some j) :
    ∃ ds : List String, j = .arr (js ++ ds.map element) ∧ ds.length = names.length ∧
      (ds = names → (∀ name ∈ names, PlainText name) ∧ ∀ name ∈ names.dropLast, some name ≠ last) := by
  induction names generalizing js s with
  | nil => exact absurd rfl hne
  | cons name names ih =>
      have hlast : names = [] → some name = last := fun hn => by simpa [hn] using hl
      rw [itemsText, List.cons_append, run_cons_of_eq hs, List.append_assoc, List.append_assoc,
        run_append] at h
      obtain ⟨t, ht, hf⟩ := Option.bind_eq_some_iff.mp h
      obtain ⟨x, hx, ht⟩ := Option.bind_eq_some_iff.mp ht
      have hrest : (run step x (separator last name ++ (itemsText last names ++ [']']))).bind finish =
          some j := by rw [ht]; exact hf
      rcases run_itemTail_cases (hq name List.mem_cons_self) hx with ⟨s', he, rfl⟩ | ⟨d, rfl, hd⟩
      · rw [dead_in_string last hlast he] at hrest
        cases hrest
      · cases names with
        | nil =>
            refine ⟨[d], ?_, rfl, fun hds => ?_⟩
            · simpa [separator, hlast rfl, itemsText, run_cons, step, stepClosed, isWs, complete,
                finish] using hrest.symm
            · obtain rfl : d = name := by simpa using hds
              simpa using hd rfl
        | cons name' names =>
            by_cases hsep : some name = last
            · -- the comma is missing
              simp [separator, hsep, itemsText, run_cons, step, stepClosed, isWs] at hrest
            · have hcomma : run step ⟨[], .afterElem (js ++ [element d])⟩ [',', ' '] =
                  some ⟨[.elems (js ++ [element d])], .value⟩ := rfl
              rw [separator, if_neg hsep, run_append, hcomma, Option.bind_some] at hrest
              obtain ⟨ds, hj, hlen, hall⟩ := ih (fun n hn => hq n (List.mem_cons_of_mem _ hn))
                (by simpa using hl) (by simp) rfl hrest
              refine ⟨d :: ds, by simp [hj], by simp [hlen], fun hds => ?_⟩
              obtain ⟨rfl, rfl⟩ := List.cons.inj hds
              obtain ⟨hplain, hdrop⟩ := hall rfl
              refine ⟨fun n hn => ?_, fun n hn => ?_⟩
              · rcases List.mem_cons.mp hn with rfl | hn
                · exact hd rfl
                · exact hplain n hn
              · rw [List.dropLast_cons_cons] at hn
                rcases List.mem_cons.mp hn with rfl | hn
                · exact hsep
                · exact hdrop n hn

theorem encodable_of_intact {stored : List String} (h : RequestIntact stored) : Encodable stored := by
  have hq := no_quote_of_intact h
  obtain ⟨text, body, henc, hparse, hreq⟩ := h
  obtain ⟨text', henc', htext⟩ := encode_toList stored
  have hne : stored ≠ [] := by
    rintro rfl
    simp [henc] at henc'
  rw [if_neg hne, henc] at henc'
  have hstart : step start '[' = some ⟨[], .arrStart⟩ := rfl
  have hs : step ⟨[], .arrStart⟩ '{' = some ⟨[.elems []], .objStart⟩ := rfl
  rw [Json.parse, Option.some.inj henc', htext, run_cons_of_eq hstart] at hparse
  obtain ⟨ds, hbody, -, hall⟩ := of_parse_items hq rfl hne hs hparse
  obtain rfl : body = ds.map element := by simpa using hbody
  rw [requestList_map_element] at hreq
  have hds : ds = stored := by
    have := Option.some.inj hreq
    exact List.map_injective_iff.mpr (fun a b hab => by simpa using hab) this
  exact ⟨hne, (hall hds).1, (hall hds).2⟩

/-- **The compare request, exactly.**  The server builds the stored list from the request iff
something is stored, no name needs an escape, and the last name occurs only once. -/
theorem requestIntact_iff (stored : List String) : RequestIntact stored ↔ Encodable stored :=
  ⟨encodable_of_intact, requestIntact_of_encodable⟩

/-- "milk" occurs twice and is the last item: the comma after the first one is missing. -/
theorem not_requestIntact_repeated : ¬ RequestIntact ["milk", "eggs", "milk"] := by
  rintro ⟨text, body, henc, hparse, -⟩
  have htext : encodeListAsJson (loadedPrices ["milk", "eggs", "milk"]) =
      some "[\x7b\"itemname\":\"milk\"\x7d\x7b\"itemname\":\"eggs\"\x7d, \x7b\"itemname\":\"milk\"\x7d]" := by
    decide
  obtain rfl := Option.some.inj (htext.symm.trans henc)
  have hnone : (Json.parse
      "[\x7b\"itemname\":\"milk\"\x7d\x7b\"itemname\":\"eggs\"\x7d, \x7b\"itemname\":\"milk\"\x7d]").isNone := by
    decide
  rw [hparse] at hnone
  cases hnone

end EasyGrocery.Wire
