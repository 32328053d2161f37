import EasyGrocery.Server.CompareInvariant
import Mathlib.Algebra.BigOperators.Group.List.Basic

/-! # Totals and the items behind them

Each total is meant to be the sum of the prices in its store's list, each pair a row of the
store's table.  An item found in both stores breaks this: its names are pushed without their
prices.

As long as the queries bring rows of the tables they name, which they do for item names that
stay inside their literals (`rowsFromTables_of_plain`), this is the only way: a run keeps both
totals backed iff no timer finds its item in both stores (`totalsBacked_iff`).  The order of the
callbacks does not matter. -/

namespace EasyGrocery.Server

open Guarded SqlText

variable {P : Type}

/-- The contents of the database. -/
structure Tables (P : Type) where
  safeway : List (Row P)
  walmart : List (Row P)

/-- A row of the table has this name and price. -/
def Has (table : List (Row P)) (name : String) (price : P) : Prop :=
  ∃ row ∈ table, row.ProductName = name ∧ row.ProductPrice = price

/-- The database answers a query of one of the handler's forms with rows of the table it names. -/
structure Answers (env : Env P) (tables : Tables P) : Prop where
  sql1 : ∀ text item, tokens text = some (sql1Tokens item) →
    ∀ row ∈ env.rows text, Has tables.safeway row.ProductName row.ProductPrice
  sql2 : ∀ text item, tokens text = some (sql2Tokens item) →
    ∀ row ∈ env.rows text, Has tables.walmart row.ProductName row.ProductPrice
  sql3 : ∀ text, tokens text = some sql3Tokens →
    ∀ row ∈ env.rows text, Has tables.walmart row.ProductName row.ProductPrice
  sql4 : ∀ text category, tokens text = some (sql4Tokens category) →
    ∀ row ∈ env.rows text, Has tables.safeway row.ProductName row.ProductPrice

/-- The queries of a request bring rows of the tables they name. -/
structure RowsFromTables (env : Env P) (tables : Tables P) (list : List String) : Prop where
  sql1 : ∀ item ∈ list, ∀ row ∈ env.rows (sql1 item),
    Has tables.safeway row.ProductName row.ProductPrice
  sql2 : ∀ item ∈ list, ∀ row ∈ env.rows (sql2 item),
    Has tables.walmart row.ProductName row.ProductPrice
  sql3 : ∀ row ∈ env.rows sql3, Has tables.walmart row.ProductName row.ProductPrice
  sql4 : ∀ row ∈ env.rows (sql4 ""), Has tables.safeway row.ProductName row.ProductPrice

/-- Item names that stay inside their literals leave the queries as they were meant. -/
theorem rowsFromTables_of_plain {env : Env P} {tables : Tables P} (h : Answers env tables)
    {list : List String} (hp : ∀ item ∈ list, plainLiteral item.toList = true) :
    RowsFromTables env tables list where
  sql1 item hi := h.sql1 _ item ((sql1_tokens_iff item).mpr (hp item hi))
  sql2 item hi := h.sql2 _ item ((sql2_tokens_iff item).mpr (hp item hi))
  sql3 := h.sql3 _ sql3_tokens
  sql4 := h.sql4 _ "" ((sql4_tokens_iff "").mpr rfl)

/-- The price in an entry; a name alone has none. -/
def Entry.price [Zero P] : Entry P → P
  | .name _ => 0
  | .pair _ _ price => price

/-- Every entry is a pair taken from the table, and the total is the sum of their prices. -/
structure Backed [AddCommMonoid P] (table : List (Row P)) (total : P) (list : List (Entry P)) :
    Prop where
  pairs : ∀ e ∈ list, ∃ ref name price, e = .pair ref name price ∧ Has table name price
  total : total = (list.map Entry.price).sum

/-- Both totals are backed. -/
structure TotalsBacked [AddCommMonoid P] (tables : Tables P) (s : State P) : Prop where
  safeway : Backed tables.safeway s.safewayPrice s.safewayList
  walmart : Backed tables.walmart s.walmartPrice s.walmartList

/-- The result of `findMostSimilar` is a row of the table the query read. -/
theorem has_mostSimilar {table : List (Row P)} {toLowerCase : String → String} {target : String}
    {rows : List (Row P)} {name : String} {price : P}
    (h : ∀ row ∈ rows, Has table row.ProductName row.ProductPrice)
    (hm : mostSimilar toLowerCase target rows = .values name price) : Has table name price := by
  have hne : rows ≠ [] := by
    rintro rfl
    cases hm
  obtain ⟨row, hrow, hv⟩ := mostSimilar_mem toLowerCase target hne
  obtain ⟨rfl, rfl⟩ := MostSimilar.values.inj (hm.symm.trans hv)
  exact h row hrow

section rows

variable {env : Env P} {tables : Tables P} {list : List String} {s : State P}

/-- A flag that is set when a timer fires stands for a row of the table. -/
theorem has_safewayTemp (hr : RowsFromTables env tables list) (h : Sound env list s) {i : ℕ}
    (hi : i ∈ s.timers) (hs : (s.vars i).inSafeway = true) :
    Has tables.safeway (s.vars i).safewayTempName (s.vars i).safewayTempPrice := by
  have hlt := h.lt i hi
  obtain ⟨row, rows, hrows, hn, hp⟩ := (h.vars i _ (List.getElem?_eq_getElem hlt)).inSafeway hs
  rw [hn, hp]
  exact hr.sql1 _ (List.getElem_mem hlt) row (by simp [hrows])

theorem has_walmartTemp (hr : RowsFromTables env tables list) (h : Sound env list s) {i : ℕ}
    (hi : i ∈ s.timers) (hw : (s.vars i).inWalmart = true) :
    Has tables.walmart (s.vars i).walmartTempName (s.vars i).walmartTempPrice := by
  have hlt := h.lt i hi
  obtain ⟨row, rows, hrows, hn, hp⟩ := (h.vars i _ (List.getElem?_eq_getElem hlt)).inWalmart hw
  rw [hn, hp]
  exact hr.sql2 _ (List.getElem_mem hlt) row (by simp [hrows])

end rows

/-- No timer finds its item in both stores. -/
def NotInBoth (s : State P) : Event → Prop
  | .timer i => ¬ ((s.vars i).inSafeway = true ∧ (s.vars i).inWalmart = true)
  | _ => True

section backed

variable [AddCommMonoid P]

theorem Backed.push {table : List (Row P)} {total : P} {list : List (Entry P)}
    (h : Backed table total list) {name : String} {price : P} (hr : Has table name price) (ref : ℕ) :
    Backed table (total + price) (list ++ [.pair ref name price]) where
  pairs := by
    intro e he
    rcases List.mem_append.mp he with he | he
    · exact h.pairs e he
    · exact ⟨ref, name, price, List.mem_singleton.mp he, hr⟩
  total := by simp [h.total, Entry.price]

theorem not_backed_name {table : List (Row P)} {total : P} {list : List (Entry P)} {name : String}
    (h : Entry.name name ∈ list) : ¬ Backed table total list := by
  intro hb
  obtain ⟨_, _, _, he, _⟩ := hb.pairs _ h
  cases he

theorem totalsBacked_start (tables : Tables P) (g : Globals P) (list : List String) :
    TotalsBacked tables (.start g list) :=
  ⟨⟨by simp [State.start], rfl⟩, ⟨by simp [State.start], rfl⟩⟩

theorem totalsBacked_step [Price P] {env : Env P} {tables : Tables P} {list : List String}
    (hr : RowsFromTables env tables list) {s s' : State P} {e : Event} (h : Sound env list s)
    (hb : TotalsBacked tables s) (hp : NotInBoth s e) (hstep : step env s e = some s') :
    TotalsBacked tables s' := by
  obtain ⟨hbs, hbw⟩ := hb
  obtain ⟨heff, -⟩ := effect_of_step hstep
  cases heff with
  | similarWalmart g hq hrows hm =>
      have hrow := hr.sql3
      rw [← (h.query _ (List.mem_of_getElem? hq)).1, Env.rows_of_ok hrows] at hrow
      exact ⟨hbs, hbw.push (has_mostSimilar hrow hm) _⟩
  | similarSafeway g hq hrows hm =>
      have hrow := hr.sql4
      rw [← (h.query _ (List.mem_of_getElem? hq)).1, Env.rows_of_ok hrows] at hrow
      exact ⟨hbs.push (has_mostSimilar hrow hm) _, hbw⟩
  | both ht hs hw => exact absurd ⟨hs, hw⟩ hp
  | onlySafeway ht hs hw => exact ⟨hbs.push (has_safewayTemp hr h ht hs) _, hbw⟩
  | onlyWalmart ht hs hw => exact ⟨hbs, hbw.push (has_walmartTemp hr h ht hw) _⟩
  | _ => exact ⟨hbs, hbw⟩

/-- A timer that finds its item in both stores pushes a name alone. -/
theorem not_backed_of_both [Price P] {env : Env P} {tables : Tables P} {s s' : State P} {e : Event}
    (hp : ¬ NotInBoth s e) (h : step env s e = some s') : ¬ TotalsBacked tables s' := by
  intro hb
  obtain ⟨heff, -⟩ := effect_of_step h
  cases heff with
  | both ht hs hw =>
      exact not_backed_name (List.mem_append_right _ (List.mem_singleton_self _)) hb.safeway
  | onlySafeway ht hs hw => exact hp fun hn => by rw [hw] at hn; cases hn.2
  | onlyWalmart ht hs hw => exact hp fun hn => by rw [hs] at hn; cases hn.1
  | neither ht hs hw => exact hp fun hn => by rw [hs] at hn; cases hn.1
  | _ => exact hp trivial

/-- **Backed totals, exactly.**  Whatever the order of the callbacks, both totals are backed in
every state of a run iff no timer of the run finds its item in both stores. -/
theorem totalsBacked_iff [Price P] {env : Env P} {tables : Tables P} {list : List String}
    (hr : RowsFromTables env tables list) (g : Globals P) (es : List Event) :
    EachState (step env) (TotalsBacked tables) (.start g list) es ↔
      EachStep (step env) NotInBoth (.start g list) es :=
  eachState_iff (fun s => Sound env list s ∧ TotalsBacked tables s)
    (fun _ _ _ hi hp h => ⟨sound_step hi.1 h, totalsBacked_step hr hi.1 hi.2 hp h⟩)
    (fun _ hi => hi.2) (fun _ _ _ _ hp h => not_backed_of_both hp h)
    ⟨sound_start env g list, totalsBacked_start tables g list⟩

end backed

/-! ### An item in both stores -/

def milk : Row Decimal := ⟨"milk", ⟨199, 2⟩, "Dairy"⟩

/-- Both stores sell milk, and nothing else. -/
def milkTables : Tables Decimal := ⟨[milk], [milk]⟩

/-- The database over these tables, for the queries of a request for milk. -/
def milkEnv : Env Decimal where
  toLowerCase := id
  query text := .ok (if text ∈ [sql1 "milk", sql2 "milk", sql3] then [milk] else [])

theorem rowsFromTables_milk : RowsFromTables milkEnv milkTables ["milk"] := by
  have hrow (text : String) (row : Row Decimal) (h : row ∈ milkEnv.rows text) : row = milk := by
    simp only [Env.rows, milkEnv] at h
    split_ifs at h
    · exact List.mem_singleton.mp h
    · cases h
  have hhas (table : List (Row Decimal)) (h : table = [milk]) (text : String) :
      ∀ row ∈ milkEnv.rows text, Has table row.ProductName row.ProductPrice := by
    intro row hr
    rw [hrow text row hr, h]
    exact ⟨milk, List.mem_singleton_self _, rfl, rfl⟩
  exact ⟨fun _ _ => hhas _ rfl _, fun _ _ => hhas _ rfl _, hhas _ rfl _, hhas _ rfl _⟩

theorem totalsBacked_iff_milk :
    EachState (step milkEnv) (TotalsBacked milkTables) (.start .init ["milk"]) [.query 0, .timer 0] ↔
      EachStep (step milkEnv) NotInBoth (.start .init ["milk"]) [.query 0, .timer 0] :=
  totalsBacked_iff rowsFromTables_milk .init _

/-- Backed totals, as a property of every run. -/
def AlwaysBacked : Prop :=
  ∀ (env : Env Decimal) (tables : Tables Decimal) (list : List String) (g : Globals Decimal)
    (es : List Event), RowsFromTables env tables list →
      EachState (step env) (TotalsBacked tables) (.start g list) es

/-- Milk is found in both stores: the lists get its name without the price. -/
theorem not_alwaysBacked : ¬ AlwaysBacked := by
  intro h
  let es : List Event := [.query 0, .query 0, .timer 0]
  have hrun : (run (step milkEnv) (.start .init ["milk"]) es).map
      (fun t => (t.safewayList, t.safewayPrice)) = some ([.name "milk"], ⟨199, 2⟩) := by
    decide +kernel
  obtain ⟨t, ht, hv⟩ := Option.map_eq_some_iff.mp hrun
  have hlist : Entry.name "milk" ∈ t.safewayList := by
    rw [(Prod.mk.inj hv).1]
    exact List.mem_singleton_self _
  have hall := h milkEnv milkTables ["milk"] .init es rowsFromTables_milk
  exact not_backed_name hlist (hall.last ht).safeway

end EasyGrocery.Server
