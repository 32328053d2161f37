import EasyGrocery.Server.Coverage
import EasyGrocery.Server.Handlers
import EasyGrocery.Wire.AnswerText
import EasyGrocery.Wire.CompareRequest

/-! # A comparison from the app and back

The app encodes the stored list, the server decodes it and answers once its timers have fired,
and the app decodes the answer.  When the list can be encoded and the database answers in time, the
page shows what the items cost iff no item is found in both stores (`comparison_shown_iff`). -/

namespace EasyGrocery.Wire

open Guarded Server
open Prices (Item readResponse PriceCompareReturn encodeListAsJson)

/-! ### What every answer looks like -/

/-- A name that needs no escape, and a price in whole cents. -/
structure TempLegible (name : String) (price : Decimal) : Prop where
  plain : Json.PlainText name
  cents : price.InHundredths

/-- All rows the database brings are such. -/
def PlainRows (env : Env Decimal) : Prop :=
  ∀ text, ∀ row ∈ env.rows text, TempLegible row.ProductName row.ProductPrice

/-- The identity of an entry that is a pair. -/
def ref? : Entry Decimal → Option ℕ
  | .name _ => none
  | .pair ref _ _ => some ref

/-- The total and the list of a store, with pairs numbered below `next`. -/
structure StoreLegible (next : ℕ) (total : Decimal) (list : List (Entry Decimal)) : Prop where
  cents : total.InHundredths
  plain : ∀ e ∈ list, Json.PlainText (label e)
  fresh : (list.filterMap ref?).Nodup
  lt : ∀ ref ∈ list.filterMap ref?, ref < next

theorem refs_name (list : List (Entry Decimal)) (s : String) :
    (list ++ [Entry.name s]).filterMap ref? = list.filterMap ref? := by
  rw [List.filterMap_append]
  exact List.append_nil _

theorem refs_pair (list : List (Entry Decimal)) (ref : ℕ) (name : String) (price : Decimal) :
    (list ++ [Entry.pair ref name price]).filterMap ref? = list.filterMap ref? ++ [ref] := by
  rw [List.filterMap_append]
  rfl

namespace StoreLegible

variable {next : ℕ} {total : Decimal} {list : List (Entry Decimal)}

theorem mono (h : StoreLegible next total list) {next' : ℕ} (hle : next ≤ next') :
    StoreLegible next' total list :=
  ⟨h.cents, h.plain, h.fresh, fun ref hr => (h.lt ref hr).trans_le hle⟩

theorem forall_append {e : Entry Decimal} {p : Entry Decimal → Prop} (h : ∀ x ∈ list, p x) (he : p e) :
    ∀ x ∈ list ++ [e], p x := by
  intro x hx
  rcases List.mem_append.mp hx with hx | hx
  · exact h x hx
  · exact List.mem_singleton.mp hx ▸ he

theorem name (h : StoreLegible next total list) {s : String} {price : Decimal}
    (ht : TempLegible s price) : StoreLegible next (total + price) (list ++ [.name s]) where
  cents := Decimal.inHundredths_add h.cents ht.cents
  plain := forall_append h.plain ht.plain
  fresh := by
    rw [refs_name]
    exact h.fresh
  lt := by
    rw [refs_name]
    exact h.lt

theorem pair (h : StoreLegible next total list) {s : String} {price : Decimal}
    (ht : TempLegible s price) :
    StoreLegible (next + 1) (total + price) (list ++ [.pair next s price]) where
  cents := Decimal.inHundredths_add h.cents ht.cents
  plain := forall_append h.plain ht.plain
  fresh := by
    have hnew : next ∉ list.filterMap ref? := fun hmem => (h.lt next hmem).false
    rw [refs_pair]
    exact List.nodup_append'.mpr ⟨h.fresh, List.nodup_singleton next, by simpa using hnew⟩
  lt := by
    rw [refs_pair]
    intro ref hr
    rcases List.mem_append.mp hr with hr | hr
    · exact (h.lt ref hr).trans (Nat.lt_succ_self next)
    · rw [List.mem_singleton.mp hr]
      exact Nat.lt_succ_self next

end StoreLegible

def VarsLegible (v : ItemVars Decimal) : Prop :=
  TempLegible v.safewayTempName v.safewayTempPrice ∧ TempLegible v.walmartTempName v.walmartTempPrice

structure Legible (s : State Decimal) : Prop where
  vars : ∀ i, VarsLegible (s.vars i)
  safeway : StoreLegible s.nextRef s.safewayPrice s.safewayList
  walmart : StoreLegible s.nextRef s.walmartPrice s.walmartList

theorem legible_start (g : Globals Decimal) (list : List String) : Legible (.start g list) := by
  have hempty : StoreLegible 0 0 [] := ⟨by decide, by simp, List.nodup_nil, by simp⟩
  have hvars : TempLegible "" 0 := ⟨by decide, by decide⟩
  exact ⟨fun _ => ⟨hvars, hvars⟩, hempty, hempty⟩

theorem forall_update {α : Type} {vars : ℕ → α} {p : α → Prop} (h : ∀ i, p (vars i)) (i : ℕ) {v : α}
    (hv : p v) : ∀ j, p (Function.update vars i v j) := by
  intro j
  by_cases hj : j = i
  · rwa [hj, Function.update_self]
  · rw [Function.update_of_ne hj]
    exact h j

theorem legible_step {env : Env Decimal} (hdb : PlainRows env) {s s' : State Decimal} {e : Event}
    (h : Legible s) (hstep : step env s e = some s') : Legible s' := by
  obtain ⟨hvars, hsafeway, hwalmart⟩ := h
  have hrow {text : String} {row : Row Decimal} {rows : List (Row Decimal)}
      (hq : env.query text = .ok (row :: rows)) : TempLegible row.ProductName row.ProductPrice :=
    hdb text row (by simp [Env.rows_of_ok hq])
  have hsimilar {text target name : String} {rows : List (Row Decimal)} {price : Decimal}
      (hq : env.query text = .ok rows)
      (hm : mostSimilar env.toLowerCase target rows = .values name price) : TempLegible name price := by
    have hne : rows ≠ [] := by
      rintro rfl
      cases hm
    obtain ⟨row, hmem, hv⟩ := mostSimilar_mem env.toLowerCase target hne
    obtain ⟨rfl, rfl⟩ := MostSimilar.values.inj (hm.symm.trans hv)
    rw [← Env.rows_of_ok hq] at hmem
    exact hdb text row hmem
  have hnext := Nat.le_succ s.nextRef
  cases (effect_of_step hstep).1 with
  | failed _ _ => exact ⟨hvars, hsafeway, hwalmart⟩
  | empty _ _ => exact ⟨hvars, hsafeway, hwalmart⟩
  | safeway _ hq =>
      exact ⟨forall_update hvars _ ⟨hrow hq, (hvars _).2⟩, hsafeway, hwalmart⟩
  | walmart _ hq =>
      exact ⟨forall_update hvars _ ⟨(hvars _).1, hrow hq⟩, hsafeway, hwalmart⟩
  | similarWalmart _ _ hq hm => exact ⟨hvars, hsafeway.mono hnext, hwalmart.pair (hsimilar hq hm)⟩
  | similarSafeway _ _ hq hm => exact ⟨hvars, hsafeway.pair (hsimilar hq hm), hwalmart.mono hnext⟩
  | both _ _ _ => exact ⟨hvars, hsafeway.name (hvars _).1, hwalmart.name (hvars _).2⟩
  | onlySafeway _ _ _ => exact ⟨hvars, hsafeway.pair (hvars _).1, hwalmart.mono hnext⟩
  | onlyWalmart _ _ _ => exact ⟨hvars, hsafeway.mono hnext, hwalmart.pair (hvars _).2⟩
  | neither _ _ _ => exact ⟨hvars, hsafeway, hwalmart⟩
  | respond _ _ _ _ => exact ⟨hvars, hsafeway, hwalmart⟩

theorem legible_of_run {env : Env Decimal} (hdb : PlainRows env) {g : Globals Decimal}
    {list : List String} {es : List Event} {t : State Decimal}
    (h : run (step env) (.start g list) es = some t) : Legible t :=
  inv_of_run Legible (fun _ _ _ => legible_step hdb) (legible_start g list) h

/-! ### Reading a list of pairs -/

theorem exists_pairs {list : List (Entry Decimal)} (h : ∀ e ∈ list, ∃ p : Pair, p.entry = e) :
    ∃ ps : List Pair, ps.map Pair.entry = list := by
  induction list with
  | nil => exact ⟨[], rfl⟩
  | cons e list ih =>
      obtain ⟨p, hp⟩ := h e List.mem_cons_self
      obtain ⟨ps, hps⟩ := ih fun x hx => h x (List.mem_cons_of_mem e hx)
      exact ⟨p :: ps, by rw [List.map_cons, hp, hps]⟩

theorem separated_pairs {ps : List Pair} (h : Fresh ps) :
    Separated (ps.map Pair.entry).getLast? (ps.map Pair.entry) := by
  rcases List.eq_nil_or_concat ps with rfl | ⟨qs, z, rfl⟩
  · exact fun _ he => absurd he List.not_mem_nil
  · intro e he
    rw [List.concat_eq_append] at h he ⊢
    rw [List.map_append, List.map_singleton, List.dropLast_concat] at he
    obtain ⟨q, hq, rfl⟩ := List.mem_map.mp he
    have hne : q.ref ≠ z.ref := by
      intro hz
      rw [Fresh, List.map_append] at h
      exact (List.nodup_append'.mp h).2.2 (List.mem_map_of_mem hq) (by simp [hz])
    simp [Pair.entry, Entry.strictEq, hne]

theorem readEntries_pairs {ps : List Pair} (h : Fresh ps) : readEntries (ps.map Pair.entry) = some ps := by
  have hread (p : Pair) : readEntry p.entry = some p := rfl
  rw [readEntries, if_pos (separated_pairs h)]
  clear h
  induction ps with
  | nil => rfl
  | cons p ps ih => simp [hread, ih]

theorem mapM_of_readEntries {list : List (Entry Decimal)} {ps : List Pair}
    (h : readEntries list = some ps) : list.mapM readEntry = some ps := by
  unfold readEntries at h
  split_ifs at h
  exact h

theorem StoreLegible.readEntries {next : ℕ} {total : Decimal} {list : List (Entry Decimal)}
    (h : StoreLegible next total list) (hp : ∀ e ∈ list, ∃ p : Pair, p.entry = e) :
    ∃ ps, readEntries list = some ps ∧ ps.map Pair.entry = list := by
  obtain ⟨ps, rfl⟩ := exists_pairs hp
  have hrefs : (ps.map Pair.entry).filterMap ref? = ps.map Pair.ref := by
    rw [List.filterMap_map]
    exact congrFun List.filterMap_eq_map ps
  have hfresh := h.fresh
  rw [hrefs] at hfresh
  exact ⟨ps, readEntries_pairs hfresh, rfl⟩

/-- A name with a digit in second place has two characters, and the app gets the first one. -/
theorem length_of_digit {s : String} {c : Char} (hc : charAt s 1 = String.ofList [c])
    (hd : c.isDigit = true) : 1 < s.toList.length ∧ (charAt s 0).toList.length = 1 := by
  have hundef : "undefined" ≠ String.ofList [c] := by
    intro h
    have := congrArg (fun s => s.toList.length) h
    simp at this
  have hone : ∃ n, (utf16 s)[1]? = some n := by
    cases hn : (utf16 s)[1]? with
    | none => exact absurd (by simpa [charAt, hn] using hc) hundef
    | some n => exact ⟨n, rfl⟩
  obtain ⟨n, hn⟩ := hone
  have hlt := (List.getElem?_eq_some_iff.mp hn).1
  constructor
  · match hs : s.toList with
    | [] => simp [utf16, hs] at hlt
    | [a] =>
        -- the second unit is the other half of the only character
        have hunits : utf16 s = units a := by simp [utf16, hs]
        rw [hunits] at hn hlt
        have hbig : ¬ a.toNat < 0x10000 := by
          intro h
          simp [units, h] at hlt
        obtain rfl : 0xDC00 + (a.toNat - 0x10000) % 0x400 = n := by simpa [units, hbig] using hn
        have hlow : Json.isLow (0xDC00 + (a.toNat - 0x10000) % 0x400) = true := by
          simp only [Json.isLow, Bool.and_eq_true, decide_eq_true_eq]
          omega
        have hrepl : charAt s 1 = String.ofList [Json.replacement] := by
          simp [charAt, hunits, units, hbig, hlow]
        obtain rfl : Json.replacement = c := by simpa [hc] using hrepl.symm
        exact absurd hd (by decide)
    | a :: b :: l => simp
  · have hpos : 0 < (utf16 s).length := by omega
    simp [charAt, List.getElem?_eq_getElem hpos]

theorem length_readEntry {e : Entry Decimal} {p : Pair} (h : readEntry e = some p) :
    p.entry = e ∨ p.name.toList.length < (label e).toList.length := by
  cases e with
  | pair ref name price =>
      obtain rfl := Option.some.inj h
      exact .inl rfl
  | name s =>
      right
      rcases charAt_cases s 1 with hc | ⟨c, hc⟩
      · have hchars : "undefined".toList = ['u', 'n', 'd', 'e', 'f', 'i', 'n', 'e', 'd'] := rfl
        rw [readEntry, hc, hchars] at h
        cases h
      · rw [readEntry, hc, String.toList_ofList] at h
        dsimp only at h
        split_ifs at h with hd
        obtain rfl := Option.some.inj h
        obtain ⟨hlong, hone⟩ := length_of_digit hc hd
        exact hone.trans_lt hlong

/-- What is read has all the characters of the names only if every entry is a pair. -/
theorem length_readEntries {list : List (Entry Decimal)} {ps : List Pair}
    (h : list.mapM readEntry = some ps) :
    (ps.map fun p => p.name.toList.length).sum ≤ (list.map fun e => (label e).toList.length).sum ∧
      ((ps.map fun p => p.name.toList.length).sum = (list.map fun e => (label e).toList.length).sum →
        ps.map Pair.entry = list) := by
  induction list generalizing ps with
  | nil =>
      obtain rfl : ps = [] := by simpa using h.symm
      exact ⟨le_rfl, fun _ => rfl⟩
  | cons e list ih =>
      rw [List.mapM_cons] at h
      obtain ⟨p, hp, h⟩ := Option.bind_eq_some_iff.mp h
      obtain ⟨qs, hqs, h⟩ := Option.bind_eq_some_iff.mp h
      obtain rfl : p :: qs = ps := Option.some.inj h
      obtain ⟨hle, hall⟩ := ih hqs
      simp only [List.map_cons, List.sum_cons]
      rcases length_readEntry hp with rfl | hlt
      · have hlabel : label p.entry = p.name := rfl
        rw [hlabel]
        exact ⟨by omega, fun heq => by rw [hall (by omega)]⟩
      · exact ⟨by omega, fun heq => by omega⟩

/-! ### What the page should show -/

/-- What the compare page shows of one store: the total, and the lines in any order. -/
abbrev Shown := ℚ × Multiset Item

def line (name : String) (price : Decimal) : Shown := (price.toRat, {⟨some name, price.toRat⟩})

/-- The line of the most similar row, for an item the store does not sell. -/
def similarLine (env : Env Decimal) (target : String) (rows : List (Row Decimal)) : Shown :=
  match mostSimilar env.toLowerCase target rows with
  | .null => 0
  | .values name price => line name price

/-- What an item should add to both stores: the row of a store that sells it, and otherwise the
one most similar to the other store's. -/
def shown (env : Env Decimal) (item : String) : Shown × Shown :=
  match env.rows (sql1 item), env.rows (sql2 item) with
  | [], [] => 0
  | row :: _, [] =>
      (line row.ProductName row.ProductPrice, similarLine env row.ProductName (env.rows sql3))
  | [], row :: _ =>
      (similarLine env row.ProductName (env.rows (sql4 "")), line row.ProductName row.ProductPrice)
  | sRow :: _, wRow :: _ =>
      (line sRow.ProductName sRow.ProductPrice, line wRow.ProductName wRow.ProductPrice)

def page (r : PriceCompareReturn) : Shown × Shown :=
  ((r.safewayCost, (r.safewayList : Multiset Item)), (r.walmartCost, (r.walmartList : Multiset Item)))

/-- The item is in one store only, or in none. -/
def NotInBothStores (env : Env Decimal) (item : String) : Prop :=
  env.rows (sql1 item) = [] ∨ env.rows (sql2 item) = []

/-- A store's part as it is shown; a name alone for nothing. -/
def toShown : StoreTally Decimal →+ Shown where
  toFun t := (t.1.toRat, t.2.1.map fun v => ⟨some v.1, (v.2.getD 0).toRat⟩)
  map_zero' := by simp [Decimal.toRat_zero]
  map_add' t u := by simp [Decimal.toRat_add]

/-- The characters of all names. -/
def chars : Shown →+ ℕ where
  toFun x := (x.2.map fun i => (i.name.getD "").toList.length).sum
  map_zero' := rfl
  map_add' x y := by simp

/-- The names without a price. -/
def bares : StoreTally Decimal →+ ℕ where
  toFun t := t.2.1.countP fun v => v.2 = none
  map_zero' := rfl
  map_add' t u := by simp

theorem toShown_apply (t : StoreTally Decimal) :
    toShown t = (t.1.toRat, t.2.1.map fun v => ⟨some v.1, (v.2.getD 0).toRat⟩) := rfl

theorem toShown_pair (name : String) (price : Decimal) : toShown (.pair name price) = line name price := rfl

theorem toShown_unknown : toShown .unknown = 0 := by
  rw [toShown_apply]
  simp [StoreTally.unknown, Decimal.toRat_zero]

theorem toShown_substitute (env : Env Decimal) (target : String) (rows : List (Row Decimal)) :
    toShown (substitute env target rows) = similarLine env target rows := by
  unfold substitute similarLine
  cases mostSimilar env.toLowerCase target rows with
  | null => exact map_zero _
  | values name price => rfl

@[simp] theorem bares_bare (name : String) (price : Decimal) : bares (.bare name price) = 1 := rfl

@[simp] theorem bares_pair (name : String) (price : Decimal) : bares (.pair name price) = 0 := rfl

@[simp] theorem bares_unknown : bares .unknown = 0 := rfl

theorem bares_storeTally (price : Decimal) (list : List (Entry Decimal)) (unknown : ℕ) :
    bares (storeTally price list unknown) = (list.map Entry.value).countP fun v => v.2 = none := rfl

theorem bares_substitute (env : Env Decimal) (target : String) (rows : List (Row Decimal)) :
    bares (substitute env target rows) = 0 := by
  unfold substitute
  cases mostSimilar env.toLowerCase target rows with
  | null => rfl
  | values name price => rfl

theorem toShown_dueItem {env : Env Decimal} {item : String} (h : NotInBothStores env item) :
    toShown.prodMap toShown (dueItem env item) = shown env item := by
  unfold dueItem shown
  cases hs : env.rows (sql1 item) with
  | nil => cases hw : env.rows (sql2 item) with
    | nil => simp [toShown_unknown]
    | cons row rows => simp [toShown_pair, toShown_substitute]
  | cons row rows =>
      obtain hw : env.rows (sql2 item) = [] := h.resolve_left (by simp [hs])
      simp [hw, toShown_pair, toShown_substitute]

/-- The names are the same in any case. -/
theorem chars_dueItem (env : Env Decimal) (item : String) :
    chars (toShown (dueItem env item).1) = chars (shown env item).1 := by
  by_cases h : NotInBothStores env item
  · rw [← toShown_dueItem h]
    rfl
  · obtain ⟨hs, hw⟩ := not_or.mp h
    obtain ⟨sRow, sRows, hs⟩ := List.exists_cons_of_ne_nil hs
    obtain ⟨wRow, wRows, hw⟩ := List.exists_cons_of_ne_nil hw
    simp only [dueItem, shown, hs, hw]
    rfl

theorem bares_dueItem (env : Env Decimal) (item : String) :
    (bares (dueItem env item).1 = 0 ↔ NotInBothStores env item) ∧
      (bares (dueItem env item).2 = 0 ↔ NotInBothStores env item) := by
  unfold dueItem NotInBothStores
  cases hs : env.rows (sql1 item) with
  | nil => cases hw : env.rows (sql2 item) with
    | nil => simp
    | cons row rows => simp [bares_substitute]
  | cons row rows => cases hw : env.rows (sql2 item) with
    | nil => simp [bares_substitute]
    | cons row' rows' => simp

/-- A sum of counts vanishes with all of them. -/
theorem sum_dueItem_eq_zero_iff {env : Env Decimal} {f : Tally Decimal →+ ℕ}
    (hf : ∀ item, f (dueItem env item) = 0 ↔ NotInBothStores env item) (stored : List String) :
    f (stored.map (dueItem env)).sum = 0 ↔ ∀ item ∈ stored, NotInBothStores env item := by
  simp [map_list_sum, List.sum_eq_zero_iff, hf]

/-- For a list of pairs, the same on the page. -/
theorem toShown_pairs (price : Decimal) (ps : List Pair) (unknown : ℕ) :
    toShown (storeTally price (ps.map Pair.entry) unknown) =
      (price.toRat, (ps.map Pair.item : Multiset Item)) := by
  have hitem : (ps.map Pair.entry).map Entry.value =
      ps.map fun p => (p.name, some p.price) := by simp [Entry.value, Pair.entry]
  rw [toShown_apply, storeTally, hitem, Multiset.map_coe, List.map_map]
  rfl

theorem chars_toShown (price : Decimal) (list : List (Entry Decimal)) (unknown : ℕ) :
    chars (toShown (storeTally price list unknown)) =
      (list.map fun e => (label e).toList.length).sum := by
  have hname (e : Entry Decimal) : e.value.1 = label e := by cases e <;> rfl
  have happly (x : Shown) : chars x = (x.2.map fun i => (i.name.getD "").toList.length).sum := rfl
  rw [happly]
  simp [toShown_apply, storeTally, Function.comp_def, hname]

theorem pairs_of_bares {price : Decimal} {list : List (Entry Decimal)} {unknown : ℕ}
    (h : bares (storeTally price list unknown) = 0) : ∀ e ∈ list, ∃ p : Pair, p.entry = e := by
  intro e he
  cases e with
  | pair ref name price => exact ⟨⟨ref, name, price⟩, rfl⟩
  | name s =>
      rw [bares_storeTally] at h
      have hmem : (s, (none : Option Decimal)) ∈ list.map Entry.value := List.mem_map_of_mem he
      have hpos : 0 < (list.map Entry.value).countP fun v => v.2 = none :=
        List.countP_pos_iff.mpr ⟨_, hmem, by simp⟩
      exact absurd h hpos.ne'

theorem bares_of_pairs (price : Decimal) (ps : List Pair) (unknown : ℕ) :
    bares (storeTally price (ps.map Pair.entry) unknown) = 0 := by
  simp [bares_storeTally, Entry.value, Pair.entry, List.countP_eq_zero]

theorem chars_sum (env : Env Decimal) (stored : List String) :
    chars (stored.map (shown env)).sum.1 = chars (toShown (stored.map (dueItem env)).sum.1) := by
  change (chars.comp (.fst _ _)) (stored.map (shown env)).sum =
    ((chars.comp toShown).comp (.fst _ _)) (stored.map (dueItem env)).sum
  rw [map_list_sum, map_list_sum, List.map_map, List.map_map]
  exact congrArg List.sum (List.map_congr_left fun item _ => (chars_dueItem env item).symm)

/-! ### The comparison -/

/-- A comparison of the stored list: the server reads the app's request, its callbacks run until
the items' timers have fired, and the response timer sends `packet`. -/
structure Comparison (env : Env Decimal) (numText : ℚ → String) (stored : List String)
    (es : List Event) (t : State Decimal) (packet : String) : Prop where
  run : ∃ text body, encodeListAsJson (loadedPrices stored) = some text ∧
    Json.parse text = some (.arr body) ∧
    Guarded.run (step env) (onCompare numText body).state es = some t
  timers : t.timers = []
  sends : ∃ u, step env t .respond = some u ∧ u.sent = t.sent ++ [packet]

/-- The request is read as the stored list. -/
theorem onCompare_stored (numText : ℚ → String) {body : List Json} {stored : List String}
    (h : requestList body = some (stored.map fun name => some (.str name))) :
    onCompare (P := Decimal) numText body = ⟨.start .init stored, false⟩ := by
  have htexts : forEachItem numText (stored.map fun name => some (.str name)) = (stored, false) := by
    clear h
    induction stored with
    | nil => rfl
    | cons name names ih =>
        have htext : itemText numText (some (.str name)) = some name := by simp [itemText, textOf]
        rw [List.map_cons, forEachItem, htext]
        simp [ih]
  simp only [onCompare, h, htexts]

theorem Comparison.responds {env : Env Decimal} {numText : ℚ → String} {stored : List String}
    {es : List Event} {t : State Decimal} {packet : String} (h : Comparison env numText stored es t packet)
    (hs : Encodable stored) : Responds env .init stored es t := by
  obtain ⟨text, body, henc, hparse, hreq⟩ := requestIntact_of_encodable hs
  obtain ⟨text', body', henc', hparse', hrun⟩ := h.run
  obtain rfl : text = text' := Option.some.inj (henc.symm.trans henc')
  obtain rfl : body = body' := by
    have := hparse.symm.trans hparse'
    simpa using this
  obtain ⟨u, hstep, -⟩ := h.sends
  rw [onCompare_stored numText hreq] at hrun
  obtain ⟨heffect, hthrown⟩ := effect_of_step hstep
  cases heffect with
  | respond _ _ _ hr => exact ⟨hrun, h.timers, hr, hthrown⟩

theorem step_respond {env : Env Decimal} {t : State Decimal} (ht : t.thrown = none)
    (hr : t.responding = true) :
    step env t .respond = some { t with responding := false }.onResponse := by
  simp [step, ht, hr]

/-- Every run up to the response timer makes a comparison. -/
theorem exists_comparison {env : Env Decimal} {stored : List String} (hs : Encodable stored)
    (numText : ℚ → String) {es : List Event} {t : State Decimal} (h : Responds env .init stored es t) :
    ∃ packet, Comparison env numText stored es t packet := by
  obtain ⟨text, body, henc, hparse, hreq⟩ := requestIntact_of_encodable hs
  obtain ⟨g, packet, hconv, -⟩ := convert_entries t.globals t.info
  have hinfo : ({ t with responding := false } : State Decimal).info = t.info := rfl
  have hstep : step env t .respond =
      some { t with responding := false, globals := g, sent := t.sent ++ [packet] } := by
    rw [step_respond h.thrown h.responding, State.onResponse, hinfo, hconv]
  refine ⟨packet, ⟨text, body, henc, hparse, ?_⟩, h.timers, _, hstep, rfl⟩
  rw [onCompare_stored numText hreq]
  exact h.run

/-- The packet is the text of what the stores have when the response timer fires. -/
theorem Comparison.packet {env : Env Decimal} {numText : ℚ → String} {stored : List String}
    {es : List Event} {t : State Decimal} {packet : String}
    (h : Comparison env numText stored es t packet) :
    (convertToJson t.globals t.info).map Prod.snd = some packet := by
  obtain ⟨u, hstep, hsent⟩ := h.sends
  obtain ⟨heffect, hthrown⟩ := effect_of_step hstep
  have hr : t.responding = true := by
    cases heffect with
    | respond _ _ _ hr => exact hr
  have hu : u = { t with responding := false }.onResponse :=
    Option.some.inj (hstep.symm.trans (step_respond hthrown hr))
  rw [hu, State.onResponse] at hsent
  have hinfo : ({ t with responding := false } : State Decimal).info = t.info := rfl
  rw [hinfo] at hsent
  cases hconv : convertToJson t.globals t.info with
  | none => simp [hconv] at hsent
  | some a => simpa [hconv] using hsent

section shown

variable {env : Env Decimal} {numText : ℚ → String} {stored : List String} {es : List Event}
  {t : State Decimal} {packet : String}

theorem Comparison.read (hdb : PlainRows env) (hs : Encodable stored)
    (h : Comparison env numText stored es t packet) :
    readResponse packet = (readEntries t.safewayList).bind fun ss =>
      (readEntries t.walmartList).bind fun ws =>
        some ⟨t.safewayPrice.toRat, ss.map Pair.item, t.walmartPrice.toRat, ws.map Pair.item⟩ := by
  have hlegible := legible_of_run hdb (h.responds hs).run
  obtain ⟨g, text, hconv, htext⟩ := convert_entries t.globals t.info
  obtain rfl : text = packet := by simpa [hconv] using h.packet
  exact readResponse_entries (i := t.info) hlegible.safeway.cents hlegible.walmart.cents
    hlegible.safeway.plain hlegible.walmart.plain htext

/-- In time, both lists are lists of pairs iff no item is found in both stores. -/
theorem bares_iff (hs : Encodable stored) (h : Comparison env numText stored es t packet)
    (hin : InTime env .init stored es t) :
    (bares t.info.tally.1 = 0 ↔ ∀ item ∈ stored, NotInBothStores env item) ∧
      (bares t.info.tally.2 = 0 ↔ ∀ item ∈ stored, NotInBothStores env item) := by
  rw [(tally_eq_due_iff (h.responds hs)).mpr hin]
  exact ⟨sum_dueItem_eq_zero_iff (f := bares.comp (.fst _ _)) (fun item => (bares_dueItem env item).1) _,
    sum_dueItem_eq_zero_iff (f := bares.comp (.snd _ _)) (fun item => (bares_dueItem env item).2) _⟩

/-- An answer that can be read is right only if both lists are lists of pairs. -/
theorem bares_of_page (hdb : PlainRows env) (hs : Encodable stored)
    (h : Comparison env numText stored es t packet) (hin : InTime env .init stored es t)
    {r : PriceCompareReturn} (hr : readResponse packet = some r)
    (hpage : page r = (stored.map (shown env)).sum) : bares t.info.tally.1 = 0 := by
  rw [h.read hdb hs] at hr
  obtain ⟨ps, hps, hr⟩ := Option.bind_eq_some_iff.mp hr
  obtain ⟨qs, -, hr⟩ := Option.bind_eq_some_iff.mp hr
  obtain rfl := Option.some.inj hr
  -- the page has as many characters as the names of the entries
  have hchars : (ps.map fun p => p.name.toList.length).sum =
      (t.safewayList.map fun e => (label e).toList.length).sum := by
    have hitems : chars (t.safewayPrice.toRat, (ps.map Pair.item : Multiset Item)) =
        (ps.map fun p => p.name.toList.length).sum := by
      rw [← toShown_pairs t.safewayPrice ps t.safewayUnknown, chars_toShown, List.map_map]
      rfl
    have hshown := congrArg (fun x => chars x.1) hpage
    rw [chars_sum, ← (tally_eq_due_iff (h.responds hs)).mpr hin] at hshown
    rw [← hitems, ← chars_toShown t.safewayPrice t.safewayList t.safewayUnknown]
    exact hshown
  have hpairs := (length_readEntries (mapM_of_readEntries hps)).2 hchars
  change bares (storeTally t.safewayPrice t.safewayList t.safewayUnknown) = 0
  rw [← hpairs]
  exact bares_of_pairs _ ps _

/-- Lists of pairs are read, and show what the items cost. -/
theorem exists_page (hdb : PlainRows env) (hs : Encodable stored)
    (h : Comparison env numText stored es t packet) (hin : InTime env .init stored es t)
    (hnone : ∀ item ∈ stored, NotInBothStores env item) :
    ∃ r, readResponse packet = some r ∧ page r = (stored.map (shown env)).sum := by
  have hlegible := legible_of_run hdb (h.responds hs).run
  obtain ⟨hsafeway, hwalmart⟩ := bares_iff hs h hin
  obtain ⟨ps, hps, hs'⟩ := hlegible.safeway.readEntries (pairs_of_bares (hsafeway.mpr hnone))
  obtain ⟨qs, hqs, hw'⟩ := hlegible.walmart.readEntries (pairs_of_bares (hwalmart.mpr hnone))
  refine ⟨⟨t.safewayPrice.toRat, ps.map Pair.item, t.walmartPrice.toRat, qs.map Pair.item⟩,
    by simp [h.read hdb hs, hps, hqs], ?_⟩
  have hsum : (stored.map (shown env)).sum = toShown.prodMap toShown t.info.tally := by
    rw [(tally_eq_due_iff (h.responds hs)).mpr hin, map_list_sum, List.map_map]
    exact congrArg List.sum (List.map_congr_left fun item hi => (toShown_dueItem (hnone item hi)).symm)
  rw [hsum, page, ← toShown_pairs _ ps t.safewayUnknown, ← toShown_pairs _ qs t.walmartUnknown, hs', hw']
  rfl

/-- An answer that can be read is right iff no item is found in both stores. -/
theorem page_eq_iff (hdb : PlainRows env) (hs : Encodable stored)
    (h : Comparison env numText stored es t packet) (hin : InTime env .init stored es t)
    {r : PriceCompareReturn} (hr : readResponse packet = some r) :
    page r = (stored.map (shown env)).sum ↔ ∀ item ∈ stored, NotInBothStores env item := by
  constructor
  · intro hpage
    exact (bares_iff hs h hin).1.mp (bares_of_page hdb hs h hin hr hpage)
  · intro hnone
    obtain ⟨r', hr', hpage⟩ := exists_page hdb hs h hin hnone
    obtain rfl : r = r' := Option.some.inj (hr.symm.trans hr')
    exact hpage

/-- **What the page shows, exactly.**  For a list that is `Encodable`, compared in time over a database
with plain names and prices in whole cents, it is what the items cost iff no item is found in both
stores. -/
theorem comparison_shown_iff (hdb : PlainRows env) (hs : Encodable stored)
    (h : Comparison env numText stored es t packet) (hin : InTime env .init stored es t) :
    (∃ r, readResponse packet = some r ∧ page r = (stored.map (shown env)).sum) ↔
      ∀ item ∈ stored, NotInBothStores env item := by
  constructor
  · rintro ⟨r, hr, hpage⟩
    exact (page_eq_iff hdb hs h hin hr).mp hpage
  · exact exists_page hdb hs h hin

end shown

theorem encodable_cocoa : Encodable ["cocoa"] := ⟨by simp, by decide, by simp⟩

theorem plainRows_cocoa : PlainRows cocoaEnv := by
  intro text row hrow
  simp only [Env.rows, cocoaEnv] at hrow
  split_ifs at hrow
  · obtain rfl := List.mem_singleton.mp hrow
    exact ⟨by decide, by decide⟩
  · cases hrow

/-- Cocoa, which only Walmart sells. -/
theorem comparison_shown_iff_cocoa : ∃ t packet,
    Comparison cocoaEnv (fun _ => "") ["cocoa"] cocoaRun t packet ∧
      ((∃ r, readResponse packet = some r ∧ page r = (["cocoa"].map (shown cocoaEnv)).sum) ↔
        ∀ item ∈ ["cocoa"], NotInBothStores cocoaEnv item) := by
  obtain ⟨t, ht, htimely, -⟩ := cocoa_timely
  obtain ⟨packet, h⟩ := exists_comparison encodable_cocoa (fun _ => "") ht
  exact ⟨t, packet, h, comparison_shown_iff plainRows_cocoa encodable_cocoa h htimely.inTime⟩

end EasyGrocery.Wire
