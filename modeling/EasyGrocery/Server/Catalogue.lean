import EasyGrocery.Lib.Lines
import EasyGrocery.Server.Prototype
import Mathlib.Data.List.DropRight

/-! # The scraped catalogue (`web-s2.py`, `web-s.py`, `compare.py`)

Each scraper writes a line for every product it finds, the name and the price with a comma and a
blank between them, and `compare.py` takes what stands before the first comma of a line for the
name.  The Walmart scraper writes blanks for the commas of a name, the Safeway scraper writes
them as they are.

`catalogue_iff`: the names come back iff no product has a line end in it and, in the Safeway
file, no name has a comma.  The files are those of a system where a newline is written as it
is. -/

namespace EasyGrocery.Catalogue

open Lines
open Server (isSpace)

/-! ### The scrapers -/

/-- `s.strip()` -/
def strip (s : String) : String := String.ofList ((s.toList.dropWhile isSpace).rdropWhile isSpace)

/-- `s[n:]` -/
def sliceFrom (n : ℕ) (s : String) : String := String.ofList (s.toList.drop n)

/-- `s.replace(",", " ")` -/
def commaToBlank (s : String) : String :=
  String.ofList (s.toList.map fun c => if c = ',' then ' ' else c)

/-- What `find` gets of an entry of the product grid: the text of the link, or its `title` on the
Walmart page, and the text of the price; `none` where the page has none. -/
structure GridItem where
  title : Option String
  price : Option String

/-- The product loop of the Safeway scraper.  What is missing raises an exception, which ends only
the entry. -/
def safewayLoop (f : String) : List GridItem → String
  | [] => f
  | b :: bs => match b.title, b.price with
      | some title, some price =>
          let name := strip title
          let price := strip price
          let price := sliceFrom 10 price
          safewayLoop (f ++ (name ++ ", " ++ price ++ "\n")) bs
      | _, _ => safewayLoop f bs

/-- `writeCurPage`, and whether it returned: an entry without a title raises an exception. -/
def writeCurPage (f : String) : List GridItem → String × Bool
  | [] => (f, true)
  | b :: bs => match b.title with
      | none => (f, false)
      | some title =>
          let name := commaToBlank title
          match b.price with
          | none => writeCurPage f bs
          | some price =>
              let price := strip price
              writeCurPage (f ++ (name ++ ", " ++ price ++ "\n")) bs

/-- The loop of `doPage`, which ends at an exception or after the last page. -/
def doPage (f : String) : List (List GridItem) → String
  | [] => f
  | page :: pages => match writeCurPage f page with
      | (f, true) => doPage f pages
      | (f, false) => f

/-- A run of a scraper, with the pages it comes to see: of each aisle, or in each call of
`doPage`. -/
inductive Scrape where
  | safeway (aisles : List (List GridItem))
  | walmart (visits : List (List (List GridItem)))

/-- The file a run leaves. -/
def Scrape.output : Scrape → String
  | safeway aisles => aisles.foldl safewayLoop ""
  | walmart visits => visits.foldl doPage ""

/-! ### The reader -/

/-- The loop of `compare.py` over a file. -/
def readNames (file : String) : List String :=
  (readLines file.toList).map fun line =>
    let fields := line.splitOn ','
    String.ofList (fields.headD [])

/-! ### The products of a run -/

inductive Store where
  | safeway
  | walmart

/-- A product as the page has it. -/
structure Product where
  title : String
  price : String

def GridItem.product? (b : GridItem) : Option Product := do
  let title ← b.title
  let price ← b.price
  some ⟨title, price⟩

namespace Store

/-- The name of a product, with the Walmart scraper's own replacement of commas. -/
def name : Store → Product → String
  | safeway, p => strip p.title
  | walmart, p => commaToBlank p.title

def price : Store → Product → String
  | safeway, p => sliceFrom 10 (strip p.price)
  | walmart, p => strip p.price

/-- The line of a product, without its newline. -/
def record (store : Store) (p : Product) : List Char :=
  (store.name p).toList ++ ',' :: ' ' :: (store.price p).toList

/-- The products that the format is good for. -/
def Plain : Store → Product → Prop
  | safeway, p => (∀ c ∈ (strip p.title).toList, c ≠ ',' ∧ isBreak c = false) ∧
      ∀ c ∈ (strip p.price).toList.drop 10, isBreak c = false
  | walmart, p => (∀ c ∈ p.title.toList, isBreak c = false) ∧
      ∀ c ∈ (strip p.price).toList, isBreak c = false

end Store

namespace Scrape

def store : Scrape → Store
  | safeway _ => .safeway
  | walmart _ => .walmart

/-- The entries that a page of `doPage` gets through. -/
def seen (page : List GridItem) : List GridItem := page.takeWhile fun b => b.title.isSome

/-- The entries of the pages of a call of `doPage`. -/
def seenPages : List (List GridItem) → List GridItem
  | [] => []
  | page :: pages =>
      if page.all fun b => b.title.isSome then page ++ seenPages pages else seen page

/-- The products a run writes, in order. -/
def products : Scrape → List Product
  | safeway aisles => aisles.flatMap fun grid => grid.filterMap GridItem.product?
  | walmart visits => visits.flatMap fun pages => (seenPages pages).filterMap GridItem.product?

end Scrape

/-- Every sequence of products is what some run writes. -/
theorem exists_scrape (store : Store) (ps : List Product) :
    ∃ run : Scrape, run.store = store ∧ run.products = ps := by
  let grid : List GridItem := ps.map fun p => ⟨some p.title, some p.price⟩
  have hgrid : grid.filterMap GridItem.product? = ps := by
    rw [List.filterMap_map]
    exact List.filterMap_some
  cases store with
  | safeway => exact ⟨.safeway [grid], rfl, by rw [Scrape.products, List.flatMap_singleton, hgrid]⟩
  | walmart =>
      have hseen : Scrape.seenPages [grid] = grid := by simp [Scrape.seenPages, grid]
      exact ⟨.walmart [[grid]], rfl, by rw [Scrape.products, List.flatMap_singleton, hseen, hgrid]⟩

/-! ### What a run writes -/

theorem toList_line (f name price : String) :
    (f ++ (name ++ ", " ++ price ++ "\n")).toList =
      f.toList ++ ((name.toList ++ ',' :: ' ' :: price.toList) ++ ['\n']) := by
  simp

/-- The lines of the products among some entries. -/
def recordsOf (store : Store) (bs : List GridItem) : List (List Char) :=
  (bs.filterMap GridItem.product?).map store.record

theorem recordsOf_cons_none (store : Store) {b : GridItem} (h : b.product? = none)
    (bs : List GridItem) : recordsOf store (b :: bs) = recordsOf store bs := by
  rw [recordsOf, List.filterMap_cons_none h]
  rfl

theorem recordsOf_cons_some (store : Store) {b : GridItem} {p : Product} (h : b.product? = some p)
    (bs : List GridItem) : recordsOf store (b :: bs) = store.record p :: recordsOf store bs := by
  unfold recordsOf
  rw [List.filterMap_cons_some h]
  rfl

theorem safewayLoop_toList (f : String) (bs : List GridItem) :
    (safewayLoop f bs).toList = f.toList ++ records '\n' (recordsOf .safeway bs) := by
  induction bs generalizing f with
  | nil => simp [safewayLoop, recordsOf]
  | cons b bs ih =>
      obtain ⟨title, price⟩ := b
      cases title with
      | none => rw [safewayLoop, ih, recordsOf_cons_none _ rfl]
      | some title => cases price with
        | none => rw [safewayLoop, ih, recordsOf_cons_none _ rfl]
        | some price =>
            rw [safewayLoop, ih, toList_line, recordsOf_cons_some _ rfl, records_cons]
            simp [Store.record, Store.name, Store.price]

theorem writeCurPage_toList (f : String) (page : List GridItem) : (writeCurPage f page).1.toList =
    f.toList ++ records '\n' (recordsOf .walmart (Scrape.seen page)) := by
  induction page generalizing f with
  | nil => simp [writeCurPage, Scrape.seen, recordsOf]
  | cons b bs ih =>
      obtain ⟨title, price⟩ := b
      cases title with
      | none => simp [writeCurPage, Scrape.seen, recordsOf]
      | some title =>
          have hseen (b : GridItem) (hb : b.title = some title) :
              Scrape.seen (b :: bs) = b :: Scrape.seen bs :=
            List.takeWhile_cons_of_pos (by simp [hb])
          rw [hseen _ rfl]
          cases price with
          | none => rw [writeCurPage, ih, recordsOf_cons_none _ rfl]
          | some price =>
              rw [writeCurPage, ih, toList_line, recordsOf_cons_some _ rfl, records_cons]
              simp [Store.record, Store.name, Store.price]

theorem writeCurPage_snd (f : String) (page : List GridItem) :
    (writeCurPage f page).2 = page.all fun b => b.title.isSome := by
  induction page generalizing f with
  | nil => rfl
  | cons b bs ih =>
      obtain ⟨title, price⟩ := b
      cases title with
      | none => rfl
      | some title => cases price with
        | none => simp [writeCurPage, ih]
        | some price => simp [writeCurPage, ih]

theorem recordsOf_append (store : Store) (bs cs : List GridItem) :
    recordsOf store (bs ++ cs) = recordsOf store bs ++ recordsOf store cs := by
  rw [recordsOf, List.filterMap_append, List.map_append]
  rfl

theorem doPage_toList (f : String) (pages : List (List GridItem)) : (doPage f pages).toList =
    f.toList ++ records '\n' (recordsOf .walmart (Scrape.seenPages pages)) := by
  induction pages generalizing f with
  | nil => simp [doPage, Scrape.seenPages, recordsOf]
  | cons page pages ih =>
      have htext := writeCurPage_toList f page
      have hreturned := writeCurPage_snd f page
      rw [doPage, Scrape.seenPages, ← hreturned]
      cases hpage : writeCurPage f page with
      | mk g returned =>
          rw [hpage] at htext hreturned
          cases returned with
          | false => exact htext
          | true =>
              have hall : ∀ b ∈ page, b.title.isSome = true := by simpa using hreturned.symm
              have hseen : Scrape.seen page = page := List.takeWhile_eq_self_iff.mpr hall
              rw [hseen] at htext
              dsimp only at htext ⊢
              rw [ih, htext, if_pos rfl, recordsOf_append, records_append, List.append_assoc]

/-- A file that is written part by part. -/
theorem foldl_toList {α : Type} {write : String → α → String} {out : α → List (List Char)}
    (h : ∀ f a, (write f a).toList = f.toList ++ records '\n' (out a)) (l : List α) (f : String) :
    (l.foldl write f).toList = f.toList ++ records '\n' (l.flatMap out) := by
  induction l generalizing f with
  | nil => simp
  | cons a l ih => rw [List.foldl_cons, ih, h, List.flatMap_cons, records_append, List.append_assoc]

/-- **The file** is the products' lines, in order. -/
theorem output_toList (run : Scrape) :
    run.output.toList = records '\n' (run.products.map run.store.record) := by
  cases run with
  | safeway aisles =>
      rw [Scrape.output, foldl_toList safewayLoop_toList, Scrape.products, List.map_flatMap]
      rfl
  | walmart visits =>
      rw [Scrape.output, foldl_toList doPage_toList, Scrape.products, List.map_flatMap]
      rfl

/-! ### What is read back -/

theorem strip_getLast? {s : String} {c : Char} (h : (strip s).toList.getLast? = some c) :
    isSpace c = false := by
  unfold strip at h
  rw [String.toList_ofList] at h
  have hne : (s.toList.dropWhile isSpace).rdropWhile isSpace ≠ [] := by
    intro hnil
    rw [hnil] at h
    cases h
  rw [List.getLast?_eq_some_getLast hne] at h
  rw [← Option.some.inj h, ← Bool.not_eq_true]
  exact List.rdropWhile_last_not _ _ hne

theorem price_getLast? (store : Store) (p : Product) {c : Char}
    (h : (store.price p).toList.getLast? = some c) : isSpace c = false := by
  cases store with
  | safeway =>
      unfold Store.price sliceFrom at h
      rw [String.toList_ofList, List.getLast?_drop] at h
      split_ifs at h
      exact strip_getLast? h
  | walmart => exact strip_getLast? h

/-- A line ends in the price or in the blank before it. -/
theorem record_getLast? (store : Store) (p : Product) : (store.record p).getLast? ≠ some '\r' := by
  unfold Store.record
  rw [List.getLast?_append_cons, List.getLast?_cons_cons]
  cases hprice : (store.price p).toList with
  | nil => decide
  | cons c price =>
      rw [List.getLast?_cons_cons, ← hprice]
      exact fun h => absurd (price_getLast? store p h) (by decide)

/-- The first field of a line is the name iff that has no comma. -/
theorem headD_splitOn (name rest : List Char) :
    ((name ++ ',' :: rest).splitOn ',').headD [] = name ↔ ',' ∉ name := by
  constructor
  · intro h hc
    obtain ⟨a, b, rfl, ha⟩ := List.eq_append_cons_of_mem hc
    rw [List.append_assoc, List.cons_append, List.splitOn_append_cons_self_of_not_mem ha] at h
    simp at h
  · intro h
    rw [List.splitOn_append_cons_self_of_not_mem h]
    rfl

theorem forall_record_iff (store : Store) (p : Product) :
    (∀ c ∈ store.record p, isBreak c = false) ↔
      (∀ c ∈ (store.name p).toList, isBreak c = false) ∧
        ∀ c ∈ (store.price p).toList, isBreak c = false := by
  have hcomma : isBreak ',' = false := by decide
  have hblank : isBreak ' ' = false := by decide
  simp only [Store.record, List.forall_mem_append, List.forall_mem_cons, hcomma, hblank, true_and]

theorem isBreak_commaToBlank (c : Char) : isBreak (if c = ',' then ' ' else c) = isBreak c := by
  split_ifs with h
  · rw [h]
    decide
  · rfl

theorem comma_notMem_commaToBlank (s : String) : ',' ∉ (commaToBlank s).toList := by
  unfold commaToBlank
  rw [String.toList_ofList, List.mem_map]
  rintro ⟨c, -, hc⟩
  split_ifs at hc with h
  · cases hc
  · exact h hc

/-- Plain: a line without line ends, whose first comma is the one after the name. -/
theorem plain_iff (store : Store) (p : Product) : store.Plain p ↔
    (∀ c ∈ store.record p, isBreak c = false) ∧ ',' ∉ (store.name p).toList := by
  rw [forall_record_iff]
  cases store with
  | safeway =>
      have hname : (∀ c ∈ (strip p.title).toList, c ≠ ',' ∧ isBreak c = false) ↔
          (∀ c ∈ (strip p.title).toList, isBreak c = false) ∧ ',' ∉ (strip p.title).toList :=
        ⟨fun h => ⟨fun c hc => (h c hc).2, fun hc => (h _ hc).1 rfl⟩,
          fun h c hc => ⟨fun he => h.2 (he ▸ hc), h.1 c hc⟩⟩
      rw [Store.Plain, hname, Store.name, Store.price, sliceFrom, String.toList_ofList,
        and_right_comm]
  | walmart =>
      have hname : (∀ c ∈ (commaToBlank p.title).toList, isBreak c = false) ↔
          ∀ c ∈ p.title.toList, isBreak c = false := by
        simp only [commaToBlank, String.toList_ofList, List.forall_mem_map, isBreak_commaToBlank]
      unfold Store.Plain
      rw [Store.name, Store.price, hname,
        and_iff_left (comma_notMem_commaToBlank p.title)]

/-- The name of one line. -/
theorem field_eq_name_iff (store : Store) (p : Product) :
    String.ofList (((store.record p ++ ['\n']).splitOn ',').headD []) = store.name p ↔
      ',' ∉ (store.name p).toList := by
  rw [← headD_splitOn _ (' ' :: ((store.price p).toList ++ ['\n'])), ← String.toList_inj,
    String.toList_ofList, Store.record, List.append_assoc]
  rfl

/-- The names of a file whose lines are the products'. -/
theorem readNames_eq_iff (run : Scrape)
    (h : ∀ p ∈ run.products, ∀ c ∈ run.store.record p, isBreak c = false) :
    readNames run.output = run.products.map run.store.name ↔
      ∀ p ∈ run.products, ',' ∉ (run.store.name p).toList := by
  have hlines : readLines run.output.toList =
      (run.products.map run.store.record).map (· ++ ['\n']) := by
    rw [output_toList, readLines_records (List.forall_mem_map.mpr h)]
  unfold readNames
  rw [hlines, List.map_map, List.map_map, List.map_inj_left]
  exact forall₂_congr fun p _ => field_eq_name_iff run.store p

/-- Where a name comes back for each product, no line has line ends of its own. -/
theorem forall_record_of_readNames {run : Scrape}
    (h : (readNames run.output).length = run.products.length) :
    ∀ p ∈ run.products, ∀ c ∈ run.store.record p, isBreak c = false := by
  have hlast : ∀ r ∈ run.products.map run.store.record, r.getLast? ≠ some '\r' :=
    List.forall_mem_map.mpr fun p _ => record_getLast? run.store p
  unfold readNames at h
  rw [List.length_map, output_toList, ← List.length_map run.store.record,
    length_readLines_iff hlast] at h
  exact List.forall_mem_map.mp h

/-- **The catalogue, exactly.**  The names read back are those of the products written, in order,
iff every product is plain. -/
theorem catalogue_iff (run : Scrape) : readNames run.output = run.products.map run.store.name ↔
    ∀ p ∈ run.products, run.store.Plain p := by
  constructor
  · intro h p hp
    have hrecords := forall_record_of_readNames (by rw [h, List.length_map])
    exact (plain_iff _ p).mpr ⟨hrecords p hp, (readNames_eq_iff run hrecords).mp h p hp⟩
  · intro h
    have hplain := fun p hp => (plain_iff _ p).mp (h p hp)
    exact (readNames_eq_iff run fun p hp => (hplain p hp).1).mpr fun p hp => (hplain p hp).2

/-- The Safeway scraper leaves the commas of a name in its line. -/
theorem not_catalogue : ¬ ∀ run : Scrape, readNames run.output = run.products.map run.store.name := by
  intro h
  let coke : GridItem := ⟨some "Diet Coke Soda Soft Drink, 12 fl oz, 12 Pack", some "Your Price$4.99"⟩
  have hread : readNames (Scrape.output (.safeway [[coke]])) = ["Diet Coke Soda Soft Drink"] := by
    decide +kernel
  have hnames : (Scrape.products (.safeway [[coke]])).map (Store.name .safeway) =
      ["Diet Coke Soda Soft Drink, 12 fl oz, 12 Pack"] := by decide +kernel
  exact absurd (hread.symm.trans ((h (.safeway [[coke]])).trans hnames)) (by decide)

end EasyGrocery.Catalogue
