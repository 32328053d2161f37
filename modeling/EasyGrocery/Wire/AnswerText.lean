import EasyGrocery.Wire.CompareResponse

/-! # What the app reads from any answer

A name alone in a list of the server, which is an item found in both stores, is written as if it
were a pair: its first character for the name, its second for the price.  What the app reads from
an answer with any lists is one equation (`readResponse_convert`).  An answer is lost as soon as
one such name has no digit in second place, or is equal to the last one of its list. -/

namespace EasyGrocery.Wire

open Guarded Json
open Server (Entry Info Globals convertToJson itemsToJson itemToJson countText charAt utf16
  units)
open Prices (Item readResponse)

/-! ### What the app reads -/

/-- The name an entry was made from. -/
def label : Entry Decimal → String
  | .name s => s
  | .pair _ name _ => name

/-- The pair that the app takes an entry for; `none` when the text of the entry is not JSON. -/
def readEntry : Entry Decimal → Option Pair
  | .pair ref name price => some ⟨ref, name, price⟩
  | .name s => match (charAt s 1).toList with
      | [c] => if c.isDigit then some ⟨0, charAt s 0, ⟨digitVal c, 0⟩⟩ else none
      | _ => none

/-- Only the last entry is `===` to the last one. -/
def Separated (last : Option (Entry Decimal)) (list : List (Entry Decimal)) : Prop :=
  ∀ e ∈ list.dropLast, last.any e.strictEq = false

instance (last : Option (Entry Decimal)) (list : List (Entry Decimal)) : Decidable (Separated last list) :=
  inferInstanceAs (Decidable (∀ e ∈ list.dropLast, last.any e.strictEq = false))

/-- The pairs that the app takes a list for. -/
def readEntries (list : List (Entry Decimal)) : Option (List Pair) :=
  if Separated list.getLast? list then list.mapM readEntry else none

/-! ### The text of a list -/

/-- The text of an entry after its opening brace. -/
def entryTail (e : Entry Decimal) : List Char :=
  itemHead ++ (e.at0.toList ++ (itemMiddle ++ (e.at1.toList ++ ['}'])))

def comma (last : Option (Entry Decimal)) (e : Entry Decimal) : List Char :=
  if last.any e.strictEq then [] else [',']

def entriesText (last : Option (Entry Decimal)) : List (Entry Decimal) → List Char
  | [] => []
  | e :: list => '{' :: (entryTail e ++ (comma last e ++ entriesText last list))

theorem itemsToJson_entries (last : Option (Entry Decimal)) (g : Globals Decimal) (jsonStr : String)
    (list : List (Entry Decimal)) :
    (itemsToJson last g jsonStr list).2.toList = jsonStr.toList ++ entriesText last list := by
  unfold itemsToJson
  induction list generalizing g jsonStr with
  | nil => simp [entriesText]
  | cons e list ih =>
      rw [List.foldl_cons, ih]
      cases h : last.any e.strictEq <;>
        simp [itemToJson, h, entriesText, entryTail, comma, itemHead, itemMiddle]

/-! ### Reading a list -/

/-- The element of a UTF-16 sequence of a plain text is plain. -/
theorem plainText_charAt {s : String} (h : PlainText s) (i : ℕ) : PlainText (charAt s i) := by
  unfold charAt
  cases hn : (utf16 s)[i]? with
  | none => decide
  | some n =>
      obtain ⟨c, hc, hn⟩ := List.mem_flatMap.mp (List.mem_of_getElem? hn)
      dsimp only
      split_ifs with hhalf
      · decide
      · -- not half of a pair, so a character of the text itself
        obtain rfl : n = c.toNat := by
          unfold units at hn
          split_ifs at hn with hc'
          · exact List.mem_singleton.mp hn
          · have hlt : c.toNat < 0x110000 := by
              have := c.valid
              rcases this with h | h
              · exact h.trans (by decide)
              · exact h.2
            simp only [isHigh, isLow, Bool.or_eq_true, Bool.and_eq_true, decide_eq_true_eq, not_or,
              not_and] at hhalf
            simp only [List.mem_cons, List.not_mem_nil, or_false] at hn
            omega
        rw [Char.ofNat_toNat]
        intro d hd
        rw [String.toList_ofList, List.mem_singleton] at hd
        exact hd ▸ h c hc

theorem charAt_cases (s : String) (i : ℕ) :
    charAt s i = "undefined" ∨ ∃ c, charAt s i = String.ofList [c] := by
  unfold charAt
  cases (utf16 s)[i]? with
  | none => exact .inl rfl
  | some n => exact .inr ⟨_, rfl⟩

/-- The reader failed, or it is in an object after a member: neither the next entry nor the end
of the list goes on from there. -/
def Dead (x : Option State) : Prop := x = none ∨ ∃ st ms, x = some ⟨st, .afterMember ms⟩

theorem Dead.rest {x : Option State} (h : Dead x) (last : Option (Entry Decimal)) (e : Entry Decimal)
    (list : List (Entry Decimal)) (rest : List Char) :
    x.bind (fun s => run step s (comma last e ++ (entriesText last list ++ ']' :: rest))) = none := by
  rcases h with rfl | ⟨st, ms, rfl⟩
  · rfl
  · cases hc : last.any e.strictEq <;> rw [comma, hc] <;> cases list <;> rfl

theorem step_digit {c : Char} (hd : c.isDigit = true) :
    ∃ p, NumPhase.step .minus c = some p ∧ p.value = some (digitVal c : ℚ) := by
  by_cases h0 : c = '0'
  · subst h0
    exact ⟨.zero, rfl, by simp [NumPhase.value, digitVal]⟩
  · exact ⟨.int (digitVal c), by simp [NumPhase.step, h0, hd], rfl⟩

/-- A digit in the place of a price. -/
theorem run_digit (st : List Frame) (ms : List (String × Json)) (key : String) {c : Char}
    (hd : c.isDigit = true) : run step ⟨.member ms key :: st, .value⟩ [c, '}'] =
      some (complete st (.obj (ms ++ [(key, .num (digitVal c))]))) := by
  obtain ⟨p, hp, hv⟩ := step_digit hd
  have hrun : run NumPhase.step .minus [c] = some p := by rw [run_cons_of_eq hp]; rfl
  have hnum := @Decimal.run_number (.member ms key :: st) false [c] p (List.cons_ne_nil c []) hrun
  have hbrace : step ⟨.member ms key :: st, .num ⟨false, p⟩⟩ '}' =
      some (complete st (.obj (ms ++ [(key, .num (digitVal c))]))) :=
    Decimal.step_num_brace (by simp [Num.value, hv])
  calc run step ⟨.member ms key :: st, .value⟩ ([c] ++ ['}'])
      = (run step ⟨.member ms key :: st, .num ⟨false, p⟩⟩ ['}']) := by
        rw [run_append]; exact congrArg (Option.bind · _) hnum
    _ = _ := run_cons_of_eq hbrace []

/-- Any other character there. -/
theorem dead_other (st : List Frame) (ms : List (String × Json)) (key : String) {c : Char}
    (hd : ¬ c.isDigit = true) (hq : c ≠ '"') :
    Dead (run step ⟨.member ms key :: st, .value⟩ [c, '}']) := by
  by_cases hws : isWs c = true
  · left
    have hstep : step ⟨.member ms key :: st, .value⟩ c = some ⟨.member ms key :: st, .value⟩ := by
      simp [step, hws]
    rw [run_cons_of_eq hstep]
    rfl
  by_cases hobj : c = '{'
  · subst hobj
    exact .inr ⟨_, _, rfl⟩
  left
  by_cases harr : c = '['
  · subst harr; rfl
  by_cases ht : c = 't'
  · subst ht; rfl
  by_cases hf : c = 'f'
  · subst hf; rfl
  by_cases hn : c = 'n'
  · subst hn; rfl
  by_cases hm : c = '-'
  · subst hm; rfl
  have h0 : c ≠ '0' := by
    rintro rfl
    exact hd rfl
  have hstep : step ⟨.member ms key :: st, .value⟩ c = none := by
    simp [step, hws, startValue, hobj, harr, hq, ht, hf, hn, hm, NumPhase.step, h0, hd]
  rw [run_cons, hstep]
  rfl

/-- Up to the price of an item. -/
theorem run_itemName (js : List Json) (st : List Frame) {name : String} (h : PlainText name)
    (rest : List Char) :
    run step ⟨.elems js :: st, .objStart⟩ (itemHead ++ (name.toList ++ (itemMiddle ++ rest))) =
      run step ⟨.member [("name", .str name)] "cost" :: .elems js :: st, .value⟩ rest := by
  have hclose : step ⟨.member [] "name" :: .elems js :: st, .str none ⟨name.toList, none, .no⟩⟩ '"' =
      some ⟨.elems js :: st, .afterMember [("name", .str name)]⟩ := by
    simp [step, closeStr, complete, Str.flush]
  rw [run_append, run_itemHead, Option.bind_some, run_append, run_plain _ _ h, Option.bind_some,
    itemMiddle, List.cons_append, List.nil_append, run_cons_of_eq hclose]
  rfl

theorem run_entryTail (js : List Json) (st : List Frame) {e : Entry Decimal} (h : PlainText (label e))
    {p : Pair} (hp : readEntry e = some p) : run step ⟨.elems js :: st, .objStart⟩ (entryTail e) =
      some ⟨st, .afterElem (js ++ [pairElement p])⟩ := by
  cases e with
  | pair ref name price =>
      have hname : PlainText (Pair.mk ref name price).name := h
      have htext : entryTail (.pair ref name price) = pairTail ⟨ref, name, price⟩ := rfl
      obtain rfl : Pair.mk ref name price = p := Option.some.inj hp
      rw [htext, run_pairTail js st hname]
  | name s =>
      have hs : PlainText s := h
      rcases charAt_cases s 1 with hc | ⟨c, hc⟩
      · have hchars : "undefined".toList = ['u', 'n', 'd', 'e', 'f', 'i', 'n', 'e', 'd'] := rfl
        rw [readEntry, hc, hchars] at hp
        cases hp
      · rw [readEntry, hc, String.toList_ofList] at hp
        dsimp only at hp
        split_ifs at hp with hd
        obtain rfl := Option.some.inj hp
        rw [entryTail, Entry.at0, run_itemName js st (plainText_charAt hs 0), Entry.at1, hc,
          String.toList_ofList]
        simpa [pairElement, toRat_count, complete] using
          run_digit (.elems js :: st) [("name", .str (charAt s 0))] "cost" hd

theorem dead_entryTail (js : List Json) (st : List Frame) {e : Entry Decimal} (h : PlainText (label e))
    (hp : readEntry e = none) : Dead (run step ⟨.elems js :: st, .objStart⟩ (entryTail e)) := by
  cases e with
  | pair ref name price => cases hp
  | name s =>
      have hs : PlainText s := h
      rw [entryTail, Entry.at0, run_itemName js st (plainText_charAt hs 0), Entry.at1]
      rcases charAt_cases s 1 with hc | ⟨c, hc⟩
      · rw [hc]
        exact .inl rfl
      · have hq : c ≠ '"' := by
          have hplain := plainText_charAt hs 1
          rw [hc] at hplain
          exact (hplain c (by simp)).1
        rw [readEntry, hc, String.toList_ofList] at hp
        dsimp only at hp
        split_ifs at hp with hd
        rw [hc, String.toList_ofList]
        exact dead_other _ _ _ hd hq

theorem strictEq_self (e : Entry Decimal) : e.strictEq e = true := by
  cases e <;> simp [Entry.strictEq]

/-- All entries of a list that is not empty, up to its closing bracket. -/
theorem run_entries {last : Option (Entry Decimal)} {list : List (Entry Decimal)}
    (hp : ∀ e ∈ list, PlainText (label e)) (hl : list.getLast? = last) (hne : list ≠ [])
    {js : List Json} {st : List Frame} {s : State} (hs : step s '{' = some ⟨.elems js :: st, .objStart⟩)
    (rest : List Char) : run step s (entriesText last list ++ ']' :: rest) =
      (if Separated last list then list.mapM readEntry else none).bind fun ps =>
        run step (complete st (.arr (js ++ ps.map pairElement))) rest := by
  induction list generalizing js s with
  | nil => exact absurd rfl hne
  | cons e list ih =>
      have he := hp e List.mem_cons_self
      rw [entriesText, List.cons_append, run_cons_of_eq hs, List.append_assoc, List.append_assoc,
        run_append]
      cases hread : readEntry e with
      | none =>
          rw [(dead_entryTail js st he hread).rest last e list rest]
          simp [hread]
      | some p =>
          rw [run_entryTail js st he hread, Option.bind_some]
          cases list with
          | nil =>
              obtain rfl : some e = last := by simpa using hl
              have hsep : Separated (some e) [e] := by simp [Separated]
              have hclose : step ⟨st, .afterElem (js ++ [pairElement p])⟩ ']' =
                  some (complete st (.arr (js ++ [pairElement p]))) := rfl
              rw [if_pos hsep, comma, Option.any_some, strictEq_self, if_pos rfl, entriesText,
                List.nil_append, List.nil_append, run_cons_of_eq hclose]
              simp [hread]
          | cons e' list =>
              have hsep : Separated last (e :: e' :: list) ↔
                  last.any e.strictEq = false ∧ Separated last (e' :: list) := by
                simp [Separated]
              cases hc : last.any e.strictEq with
              | true =>
                  -- the comma is missing
                  rw [comma, hc, if_pos rfl, if_neg (by simp [hsep, hc])]
                  rfl
              | false =>
                  have hcomma : step ⟨st, .afterElem (js ++ [pairElement p])⟩ ',' =
                      some ⟨.elems (js ++ [pairElement p]) :: st, .value⟩ := rfl
                  have hnext : step ⟨.elems (js ++ [pairElement p]) :: st, .value⟩ '{' =
                      some ⟨.elems (js ++ [pairElement p]) :: st, .objStart⟩ := rfl
                  rw [comma, hc, if_neg Bool.false_ne_true, List.cons_append, List.nil_append,
                    run_cons_of_eq hcomma, ih (fun x hx => hp x (List.mem_cons_of_mem e hx))
                      (by simpa using hl) (List.cons_ne_nil _ _) hnext]
                  by_cases h : Separated last (e' :: list)
                  · rw [if_pos h, if_pos (hsep.mpr ⟨hc, h⟩), List.mapM_cons (a := e), hread]
                    cases (e' :: list).mapM readEntry <;> simp
                  · rw [if_neg h, if_neg fun hall => h (hsep.mp hall).2]
                    rfl

/-- The entries of a list, empty or not. -/
theorem run_entriesText {list : List (Entry Decimal)} (hp : ∀ e ∈ list, PlainText (label e))
    (st : List Frame) (rest : List Char) :
    run step ⟨st, .arrStart⟩ (entriesText list.getLast? list ++ ']' :: rest) =
      (readEntries list).bind fun ps => run step (complete st (.arr (ps.map pairElement))) rest := by
  by_cases hne : list = []
  · subst hne
    rfl
  · have hs : step ⟨st, .arrStart⟩ '{' = some ⟨.elems [] :: st, .objStart⟩ := rfl
    rw [run_entries hp rfl hne hs, readEntries]
    simp

/-! ### Reading an answer -/

/-- The text of a store after its opening brace. -/
def halfText (price : String) (list : List (Entry Decimal)) (unknown : ℕ) : List Char :=
  costHead ++ (price.toList ++ (itemsHead ++ (entriesText list.getLast? list ++ (unknownHead ++
    ((countText unknown).toList ++ ['}'])))))

theorem run_halfText (js : List Json) (st : List Frame) {d : Decimal} (hd : d.InHundredths)
    {list : List (Entry Decimal)} (hp : ∀ e ∈ list, PlainText (label e)) (unknown : ℕ)
    (rest : List Char) :
    run step ⟨.elems js :: st, .objStart⟩ (halfText d.toFixed2 list unknown ++ rest) =
      (readEntries list).bind fun ps =>
        run step ⟨st, .afterElem (js ++ [.obj (storeMembers d.toRat ps unknown)])⟩ rest := by
  have htext : unknownHead ++ ((countText unknown).toList ++ ['}']) ++ rest =
      ']' :: (unknownHead.tail ++ ((countText unknown).toList ++ ['}']) ++ rest) := rfl
  simp only [halfText, List.append_assoc] at htext ⊢
  rw [run_storeHead js st hd, htext, run_entriesText hp]
  refine congrArg (readEntries list).bind (funext fun ps => ?_)
  have hclose : step ⟨.member [("cost", .num d.toRat)] "items" :: .elems js :: st,
      .afterElem (ps.map pairElement)⟩ ']' = some (complete (.member [("cost", .num d.toRat)] "items" ::
        .elems js :: st) (.arr (ps.map pairElement))) := rfl
  have htail := run_storeTail js st hclose unknown
  calc run step (complete _ (.arr (ps.map pairElement)))
        (unknownHead.tail ++ ((countText unknown).toList ++ (['}'] ++ rest)))
      = run step ⟨.member [("cost", .num d.toRat)] "items" :: .elems js :: st,
          .afterElem (ps.map pairElement)⟩
          (unknownHead ++ ((countText unknown).toList ++ ['}']) ++ rest) := by
        rw [List.append_assoc, List.append_assoc, htext, run_cons_of_eq hclose]
    _ = _ := by rw [run_append, htail, Option.bind_some]

theorem convert_entries (g : Globals Decimal) (i : Info Decimal) :
    ∃ g' text, convertToJson g i = some (g', text) ∧
      text.toList = '[' :: '{' :: (halfText i.sPrice.toFixed2 i.sList i.wUnk ++ ',' :: '{' ::
        (halfText i.wPrice.toFixed2 i.wList i.wUnk ++ [']'])) := by
  let safeway := itemsToJson i.sList[i.sList.length - 1]? g
    ("" ++ "[\x7b" ++ "\"cost\" : " ++ i.sPrice.toFixed2 ++ "," ++ "\"items\" : [") i.sList
  let walmart := itemsToJson i.wList[i.wList.length - 1]? safeway.1
    (safeway.2 ++ "]," ++ "\"unknown\" : " ++ countText i.wUnk ++ "\x7d," ++ "\x7b" ++ "\"cost\" : " ++
      i.wPrice.toFixed2 ++ "," ++ "\"items\" : [") i.wList
  refine ⟨walmart.1, walmart.2 ++ "]," ++ "\"unknown\" : " ++ countText i.wUnk ++ "\x7d]", rfl, ?_⟩
  simp only [walmart, safeway, String.toList_append, itemsToJson_entries,
    ← List.getLast?_eq_getElem?]
  simp [halfText, costHead, itemsHead, unknownHead]

theorem readResponse_entries {i : Info Decimal} (hs : i.sPrice.InHundredths) (hw : i.wPrice.InHundredths)
    (hps : ∀ e ∈ i.sList, PlainText (label e)) (hpw : ∀ e ∈ i.wList, PlainText (label e))
    {text : String} (htext : text.toList = '[' :: '{' :: (halfText i.sPrice.toFixed2 i.sList i.wUnk ++
      ',' :: '{' :: (halfText i.wPrice.toFixed2 i.wList i.wUnk ++ [']']))) :
    readResponse text = (readEntries i.sList).bind fun ss => (readEntries i.wList).bind fun ws =>
      some ⟨i.sPrice.toRat, ss.map Pair.item, i.wPrice.toRat, ws.map Pair.item⟩ := by
  have hopen : step start '[' = some ⟨[], .arrStart⟩ := rfl
  have hfirst : step ⟨[], .arrStart⟩ '{' = some ⟨[.elems []], .objStart⟩ := rfl
  have hcomma (js : List Json) : step ⟨[], .afterElem js⟩ ',' = some ⟨[.elems js], .value⟩ := rfl
  have hsecond (js : List Json) : step ⟨[.elems js], .value⟩ '{' = some ⟨[.elems js], .objStart⟩ := rfl
  have hparse : Json.parse text = (readEntries i.sList).bind fun ss => (readEntries i.wList).bind fun ws =>
      some (.arr [.obj (storeMembers i.sPrice.toRat ss i.wUnk),
        .obj (storeMembers i.wPrice.toRat ws i.wUnk)]) := by
    rw [Json.parse, htext, run_cons_of_eq hopen, run_cons_of_eq hfirst, run_halfText [] [] hs hps]
    cases readEntries i.sList with
    | none => rfl
    | some ss =>
        simp only [Option.bind_some]
        rw [run_cons_of_eq (hcomma _), run_cons_of_eq (hsecond _), run_halfText _ [] hw hpw]
        cases readEntries i.wList with
        | none => rfl
        | some ws => rfl
  cases hss : readEntries i.sList with
  | none => simp [readResponse, hparse, hss]
  | some ss =>
      cases hws : readEntries i.wList with
      | none => simp [readResponse, hparse, hss, hws]
      | some ws => simp [readResponse, hparse, hss, hws, storeOf_storeMembers]

/-- **What the app reads from any answer** with totals in whole cents and names that need no
escape. -/
theorem readResponse_convert (g : Globals Decimal) (i : Info Decimal) (hs : i.sPrice.InHundredths)
    (hw : i.wPrice.InHundredths) (hps : ∀ e ∈ i.sList, PlainText (label e))
    (hpw : ∀ e ∈ i.wList, PlainText (label e)) :
    ∃ g' text, convertToJson g i = some (g', text) ∧
      readResponse text = (readEntries i.sList).bind fun ss => (readEntries i.wList).bind fun ws =>
        some ⟨i.sPrice.toRat, ss.map Pair.item, i.wPrice.toRat, ws.map Pair.item⟩ := by
  obtain ⟨g', text, hconv, htext⟩ := convert_entries g i
  exact ⟨g', text, hconv, readResponse_entries hs hw hps hpw htext⟩

/-- Pairs, and names alone whose second character is a digit: the app shows "V" for 8. -/
theorem readResponse_convert_juice :
    let juice : Info Decimal := ⟨⟨677, 2⟩, [.pair 1 "Milk" ⟨279, 2⟩, .name "V8 juice"], 0,
      ⟨707, 2⟩, [.name "V8 juice", .pair 2 "Tea" ⟨329, 2⟩], 0⟩
    ∃ g' text, convertToJson .init juice = some (g', text) ∧
      (readResponse text).map (fun r => (r.safewayList, r.walmartList)) =
        some ([⟨some "Milk", 279 / 100⟩, ⟨some "V", 8⟩], [⟨some "V", 8⟩, ⟨some "Tea", 329 / 100⟩]) := by
  intro juice
  obtain ⟨g', text, hconv, hread⟩ := readResponse_convert .init juice (by decide) (by decide)
    (by decide) (by decide)
  have hs : readEntries juice.sList = some [⟨1, "Milk", ⟨279, 2⟩⟩, ⟨0, "V", ⟨8, 0⟩⟩] := by rfl
  have hw : readEntries juice.wList = some [⟨0, "V", ⟨8, 0⟩⟩, ⟨2, "Tea", ⟨329, 2⟩⟩] := by rfl
  refine ⟨g', text, hconv, ?_⟩
  rw [hread, hs, hw]
  norm_num [Pair.item, Decimal.toRat]

end EasyGrocery.Wire
