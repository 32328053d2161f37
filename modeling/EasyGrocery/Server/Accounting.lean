import EasyGrocery.Server.CompareInvariant
import Mathlib.Algebra.BigOperators.Group.List.Basic
import Mathlib.Algebra.Group.Prod
import Mathlib.Algebra.Order.BigOperators.Group.List
import Mathlib.Algebra.Order.Group.Multiset
import Mathlib.Tactic.Abel
import Mathlib.Tactic.Ring

/-! # What each item is due

`dueItem` is what one item of a request should add to the comparison, read off the answers of
the database alone.  A run is measured against it by its `balance`: what the lists, totals and
counts hold, with what the timers and second queries that are still to come are due.

A timer that fires after the rows of its item have come leaves the balance as it is
(`balance_of_inTime`).  One that fires too early spoils it for good: the potential `weight` never
falls, and rises there.  So the result is what the items are due exactly for the runs in time
(`tally_eq_due_iff`). -/

namespace EasyGrocery.Server

open Guarded

variable {P : Type}

/-! ### Tallies -/

/-- What an entry shows: its name, and its price if it has one. -/
def Entry.value : Entry P → String × Option P
  | .name s => (s, none)
  | .pair _ n price => (n, some price)

/-- The part of one store: the total, what is listed, in any order, and the unknown count. -/
abbrev StoreTally (P : Type) := P × Multiset (String × Option P) × ℕ

/-- The parts of Safeway and Walmart. -/
abbrev Tally (P : Type) := StoreTally P × StoreTally P

def storeTally (price : P) (list : List (Entry P)) (unknown : ℕ) : StoreTally P :=
  (price, (list.map Entry.value : List _), unknown)

def Info.tally (info : Info P) : Tally P :=
  (storeTally info.sPrice info.sList info.sUnk, storeTally info.wPrice info.wList info.wUnk)

section due

variable [AddCommMonoid P]

namespace StoreTally

/-- A name listed without its price. -/
def bare (name : String) (price : P) : StoreTally P := (price, {(name, none)}, 0)

def pair (name : String) (price : P) : StoreTally P := (price, {(name, some price)}, 0)

def unknown : StoreTally P := (0, 0, 1)

/-- The number of items accounted for. -/
def count : StoreTally P →+ ℕ where
  toFun t := t.2.1.card + t.2.2
  map_zero' := rfl
  map_add' t u := by simp only [Prod.snd_add, Prod.fst_add, Multiset.card_add]; omega

@[simp] theorem count_bare (name : String) (price : P) : count (bare name price) = 1 := rfl

@[simp] theorem count_pair (name : String) (price : P) : count (pair name price) = 1 := rfl

@[simp] theorem count_unknown : count (unknown : StoreTally P) = 1 := rfl

/-- Unknown items, less those listed without a price. -/
def weight : StoreTally P →+ ℤ where
  toFun t := t.2.2 - t.2.1.countP fun e => e.2 = none
  map_zero' := rfl
  map_add' t u := by simp only [Prod.snd_add, Prod.fst_add, Multiset.countP_add]; push_cast; ring

@[simp] theorem weight_bare (name : String) (price : P) : weight (bare name price) = -1 := rfl

@[simp] theorem weight_pair (name : String) (price : P) : weight (pair name price) = 0 := rfl

@[simp] theorem weight_unknown : weight (unknown : StoreTally P) = 1 := rfl

end StoreTally

theorem storeTally_name (total : P) (list : List (Entry P)) (unknown : ℕ) (name : String) (price : P) :
    storeTally (total + price) (list ++ [.name name]) unknown =
      storeTally total list unknown + .bare name price := by
  simp [storeTally, StoreTally.bare, Entry.value, ← Multiset.coe_add]

theorem storeTally_pair (total : P) (list : List (Entry P)) (unknown ref : ℕ) (name : String)
    (price : P) : storeTally (total + price) (list ++ [.pair ref name price]) unknown =
      storeTally total list unknown + .pair name price := by
  simp [storeTally, StoreTally.pair, Entry.value, ← Multiset.coe_add]

theorem storeTally_unknown (total : P) (list : List (Entry P)) (unknown : ℕ) :
    storeTally total list (unknown + 1) = storeTally total list unknown + .unknown := by
  simp [storeTally, StoreTally.unknown]

/-! ### What is due -/

variable (env : Env P)

/-- The most similar row, for an item that the store does not sell. -/
def substitute (target : String) (rows : List (Row P)) : StoreTally P :=
  match mostSimilar env.toLowerCase target rows with
  | .null => 0
  | .values name price => .pair name price

/-- What an item adds to the comparison. -/
def dueItem (item : String) : Tally P :=
  match env.rows (sql1 item), env.rows (sql2 item) with
  | [], [] => (.unknown, .unknown)
  | row :: _, [] =>
      (.pair row.ProductName row.ProductPrice, substitute env row.ProductName (env.rows sql3))
  | [], row :: _ =>
      -- the category of an item that Safeway does not sell is empty
      (substitute env row.ProductName (env.rows (sql4 "")), .pair row.ProductName row.ProductPrice)
  | sRow :: _, wRow :: _ =>
      (.bare sRow.ProductName sRow.ProductPrice, .bare wRow.ProductName wRow.ProductPrice)

/-- The same, by what the variables of the item hold when its timer fires. -/
def ItemVars.due (v : ItemVars P) : Tally P :=
  match v.inSafeway, v.inWalmart with
  | true, true =>
      (.bare v.safewayTempName v.safewayTempPrice, .bare v.walmartTempName v.walmartTempPrice)
  | true, false =>
      (.pair v.safewayTempName v.safewayTempPrice, substitute env v.safewayTempName (env.rows sql3))
  | false, true =>
      (substitute env v.walmartTempName (env.rows (sql4 "")),
        .pair v.walmartTempName v.walmartTempPrice)
  | false, false => (.unknown, .unknown)

/-- What the timer of the item at `i` is due. -/
def dueTimer (list : List String) (i : ℕ) : Tally P := list[i]?.elim 0 (dueItem env)

def firstName (rows : List (Row P)) : String := rows.head?.elim "" Row.ProductName

/-- What a query in flight is due: a second query brings a substitute. -/
def dueQuery (list : List String) (q : Query) : Tally P :=
  match q.kind with
  | .safeway => 0
  | .walmart => 0
  | .similarWalmart => (0, list[q.item]?.elim 0 fun item =>
      substitute env (firstName (env.rows (sql1 item))) (env.rows q.text))
  | .similarSafeway => (list[q.item]?.elim 0 fun item =>
      substitute env (firstName (env.rows (sql2 item))) (env.rows q.text), 0)

/-- What the comparison holds, with what is still to come. -/
def balance (list : List String) (s : State P) : Tally P :=
  s.info.tally + (s.timers.map (dueTimer env list)).sum + (s.queries.map (dueQuery env list)).sum

variable {env}

theorem substitute_nil (target : String) : substitute env target [] = 0 := rfl

theorem substitute_of_mostSimilar {target : String} {rows : List (Row P)} {name : String} {price : P}
    (h : mostSimilar env.toLowerCase target rows = .values name price) :
    substitute env target rows = .pair name price := by
  rw [substitute, h]

theorem count_substitute (target : String) (rows : List (Row P)) :
    (substitute env target rows).count = (!rows.isEmpty).toNat := by
  cases rows with
  | nil => rfl
  | cons row rows =>
      obtain ⟨r, -, hr⟩ := mostSimilar_mem env.toLowerCase target (List.cons_ne_nil row rows)
      rw [substitute_of_mostSimilar hr]
      rfl

theorem weight_substitute (target : String) (rows : List (Row P)) :
    (substitute env target rows).weight = 0 := by
  unfold substitute
  split
  · rfl
  · rfl

/-- The weight counts the stores that the item is found in. -/
theorem weight_due (v : ItemVars P) :
    (v.due env).1.weight = 1 - (v.inSafeway.toNat : ℤ) - v.inWalmart.toNat := by
  unfold ItemVars.due
  cases v.inSafeway <;> cases v.inWalmart <;> simp [weight_substitute]

theorem weight_dueItem (item : String) :
    (dueItem env item).1.weight =
      1 - ((!(env.rows (sql1 item)).isEmpty).toNat : ℤ) - (!(env.rows (sql2 item)).isEmpty).toNat := by
  unfold dueItem
  cases env.rows (sql1 item) <;> cases env.rows (sql2 item) <;> simp [weight_substitute]

theorem count_dueItem_safeway (item : String) :
    (dueItem env item).1.count = if env.rows (sql1 item) = [] ∧ env.rows (sql2 item) ≠ [] then
      (!(env.rows (sql4 "")).isEmpty).toNat else 1 := by
  unfold dueItem
  cases env.rows (sql1 item) <;> cases env.rows (sql2 item) <;> simp [count_substitute]

theorem count_dueItem_walmart (item : String) :
    (dueItem env item).2.count = if env.rows (sql1 item) ≠ [] ∧ env.rows (sql2 item) = [] then
      (!(env.rows sql3).isEmpty).toNat else 1 := by
  unfold dueItem
  cases env.rows (sql1 item) <;> cases env.rows (sql2 item) <;> simp [count_substitute]

theorem dueQuery_of_isFirst {list : List String} {q : Query} (h : q.kind.isFirst = true) :
    dueQuery env list q = 0 := by
  obtain ⟨kind, i, text⟩ := q
  cases kind with
  | safeway => rfl
  | walmart => rfl
  | similarWalmart => cases h
  | similarSafeway => cases h

theorem dueQuery_of_rows_nil {list : List String} {q : Query} (h : env.rows q.text = []) :
    dueQuery env list q = 0 := by
  obtain ⟨kind, i, text⟩ := q
  simp only at h
  cases kind <;> cases hi : list[i]? <;> simp [dueQuery, hi, h, substitute_nil]

theorem weight_dueQuery (list : List String) (q : Query) : (dueQuery env list q).1.weight = 0 := by
  obtain ⟨kind, i, text⟩ := q
  cases kind <;> cases hi : list[i]? <;> simp [dueQuery, hi, weight_substitute]

/-- A second query that will bring rows is due something. -/
theorem count_dueQuery {list : List String} {q : Query} (h : q.kind.isFirst = false)
    (hi : q.item < list.length) :
    (dueQuery env list q).1.count + (dueQuery env list q).2.count =
      (!(env.rows q.text).isEmpty).toNat := by
  obtain ⟨kind, i, text⟩ := q
  cases kind with
  | safeway => cases h
  | walmart => cases h
  | similarWalmart => simp [dueQuery, List.getElem?_eq_getElem hi, count_substitute]
  | similarSafeway => simp [dueQuery, List.getElem?_eq_getElem hi, count_substitute]

/-! ### Steps and the balance -/

theorem balance_start (g : Globals P) (list : List String) :
    balance env list (.start g list) = (list.map (dueItem env)).sum := by
  have htimers : (List.range list.length).map (dueTimer env list) = list.map (dueItem env) := by
    apply List.ext_getElem (by simp)
    intro i h₁ h₂
    simp only [List.length_map, List.length_range] at h₁
    simp [dueTimer, h₁]
  have hqueries : ((firstQueries 0 list).map (dueQuery env list)).sum = 0 := by
    apply List.sum_eq_zero
    intro d hd
    obtain ⟨q, hq, rfl⟩ := List.mem_map.mp hd
    obtain ⟨j, item, -, rfl | rfl⟩ := mem_firstQueries_iff.mp hq <;> rfl
  calc balance env list (.start g list)
      = 0 + ((List.range list.length).map (dueTimer env list)).sum +
          ((firstQueries 0 list).map (dueQuery env list)).sum := rfl
    _ = (list.map (dueItem env)).sum := by rw [htimers, hqueries, zero_add, add_zero]

variable {list : List String} {s s' : State P}

theorem balance_query (h : Sound env list s) {k : ℕ} {q : Query} (hq : s.queries[k]? = some q)
    (hk : s'.queries = s.queries.eraseIdx k) (ht : s'.timers = s.timers)
    (hd : s'.info.tally = s.info.tally + dueQuery env list q) :
    balance env list s' = balance env list s := by
  have hsum := List.sum_map_erase (dueQuery env list) (List.mem_of_getElem? hq)
  rw [balance, balance, hk, eraseIdx_eq_erase h.nodup hq, ht, hd, ← hsum]
  abel

theorem balance_timer {i : ℕ} (hi : i ∈ s.timers) {new : List Query} {d : Tally P}
    (hk : s'.queries = s.queries ++ new) (ht : s'.timers = s.timers.erase i)
    (hd : s'.info.tally + (new.map (dueQuery env list)).sum = s.info.tally + d) :
    ∃ rest, balance env list s = rest + dueTimer env list i ∧ balance env list s' = rest + d := by
  refine ⟨s.info.tally + ((s.timers.erase i).map (dueTimer env list)).sum +
    (s.queries.map (dueQuery env list)).sum, ?_, ?_⟩
  · rw [balance, ← List.sum_map_erase (dueTimer env list) hi]
    abel
  · rw [balance, hk, ht, List.map_append, List.sum_append]
    calc s'.info.tally + ((s.timers.erase i).map (dueTimer env list)).sum +
          ((s.queries.map (dueQuery env list)).sum + (new.map (dueQuery env list)).sum)
        = (s'.info.tally + (new.map (dueQuery env list)).sum) +
            ((s.timers.erase i).map (dueTimer env list)).sum +
            (s.queries.map (dueQuery env list)).sum := by abel
      _ = _ := by
          rw [hd]
          abel

/-- A timer replaces what its item is due by what its variables make of it. -/
theorem balance_of_timer [Price P] (h : Sound env list s) {i : ℕ}
    (hstep : step env s (.timer i) = some s') :
    i ∈ s.timers ∧ ∃ rest, balance env list s = rest + dueTimer env list i ∧
      balance env list s' = rest + (s.vars i).due env := by
  obtain ⟨heff, -⟩ := effect_of_step hstep
  cases heff with
  | both ht hs hw =>
      refine ⟨ht, balance_timer ht (List.append_nil _).symm rfl ?_⟩
      simp [State.info, Info.tally, storeTally_name, ItemVars.due, hs, hw]
  | onlySafeway ht hs hw =>
      refine ⟨ht, balance_timer ht rfl rfl ?_⟩
      have hv := h.vars i _ (List.getElem?_eq_getElem (h.lt i ht))
      obtain ⟨row, rows, hrows, hn, -⟩ := hv.inSafeway hs
      simp [State.info, Info.tally, storeTally_pair, ItemVars.due, hs, hw, dueQuery,
        List.getElem?_eq_getElem (h.lt i ht), hrows, firstName, hn]
  | onlyWalmart ht hs hw =>
      refine ⟨ht, balance_timer ht rfl rfl ?_⟩
      have hv := h.vars i _ (List.getElem?_eq_getElem (h.lt i ht))
      obtain ⟨row, rows, hrows, hn, -⟩ := hv.inWalmart hw
      simp [State.info, Info.tally, storeTally_pair, ItemVars.due, hs, hw, dueQuery,
        List.getElem?_eq_getElem (h.lt i ht), hrows, firstName, hn, hv.category hs]
  | neither ht hs hw =>
      refine ⟨ht, balance_timer ht (List.append_nil _).symm rfl ?_⟩
      simp [State.info, Info.tally, storeTally_unknown, ItemVars.due, hs, hw]

/-- No other callback changes the balance. -/
theorem balance_of_other [Price P] (h : Sound env list s) {e : Event} (he : ∀ i, e ≠ .timer i)
    (hstep : step env s e = some s') : balance env list s' = balance env list s := by
  obtain ⟨heff, -⟩ := effect_of_step hstep
  cases heff with
  | failed hq hr =>
      refine balance_query h hq rfl rfl ?_
      rw [dueQuery_of_rows_nil (Env.rows_of_error hr), add_zero]
      rfl
  | empty g hq hr =>
      refine balance_query h hq rfl rfl ?_
      rw [dueQuery_of_rows_nil (Env.rows_of_ok hr), add_zero]
      rfl
  | safeway hq hr =>
      refine balance_query h hq rfl rfl ?_
      rw [dueQuery_of_isFirst rfl, add_zero]
      rfl
  | walmart hq hr =>
      refine balance_query h hq rfl rfl ?_
      rw [dueQuery_of_isFirst rfl, add_zero]
      rfl
  | @similarWalmart k i text rows name price g hq hr hm =>
      refine balance_query h hq rfl rfl ?_
      obtain ⟨-, hlt, -, hs⟩ := h.query _ (List.mem_of_getElem? hq)
      simp only at hlt hs
      obtain ⟨row, _, hrows, hn, -⟩ := (h.vars i _ (List.getElem?_eq_getElem hlt)).inSafeway hs
      rw [hn] at hm
      simp [State.info, Info.tally, storeTally_pair, dueQuery, List.getElem?_eq_getElem hlt, hrows,
        firstName, Env.rows_of_ok hr, substitute_of_mostSimilar hm]
  | @similarSafeway k i text rows name price g hq hr hm =>
      refine balance_query h hq rfl rfl ?_
      obtain ⟨-, hlt, -, hw⟩ := h.query _ (List.mem_of_getElem? hq)
      simp only at hlt hw
      obtain ⟨row, _, hrows, hn, -⟩ := (h.vars i _ (List.getElem?_eq_getElem hlt)).inWalmart hw
      rw [hn] at hm
      simp [State.info, Info.tally, storeTally_pair, dueQuery, List.getElem?_eq_getElem hlt, hrows,
        firstName, Env.rows_of_ok hr, substitute_of_mostSimilar hm]
  | respond g sent thrown hr => rfl
  | _ => exact absurd rfl (he _)

/-! ### Runs in time -/

/-- An item's timer fires when the queries for its two stores that are still in flight will bring
no row. -/
def TimerInTime (env : Env P) (s : State P) : Event → Prop
  | .timer i => ∀ q ∈ s.queries, q.item = i → q.kind.isFirst = true → env.rows q.text = []
  | _ => True

/-- The second queries in flight will bring no row. -/
def NothingDue (env : Env P) (s : State P) : Prop :=
  ∀ q ∈ s.queries, q.kind.isFirst = false → env.rows q.text = []

/-- In time, the variables of the item are what the database says of it. -/
theorem due_eq_dueItem {queries : List Query} {i : ℕ} {item : String} {v : ItemVars P}
    (h : v.Sound env queries i item)
    (ht : ∀ q ∈ queries, q.item = i → q.kind.isFirst = true → env.rows q.text = []) :
    v.due env = dueItem env item := by
  have hs : v.inSafeway = false → env.rows (sql1 item) = [] := by
    intro hf
    by_contra hne
    exact hne (ht _ (h.safeway hf hne) rfl rfl)
  have hw : v.inWalmart = false → env.rows (sql2 item) = [] := by
    intro hf
    by_contra hne
    exact hne (ht _ (h.walmart hf hne) rfl rfl)
  unfold ItemVars.due dueItem
  cases hS : v.inSafeway with
  | true =>
      obtain ⟨sRow, sRows, hsr, hsn, hsp⟩ := h.inSafeway hS
      cases hW : v.inWalmart with
      | true =>
          obtain ⟨wRow, wRows, hwr, hwn, hwp⟩ := h.inWalmart hW
          simp only [hsr, hwr, hsn, hsp, hwn, hwp]
      | false => simp only [hsr, hw hW, hsn, hsp]
  | false =>
      cases hW : v.inWalmart with
      | true =>
          obtain ⟨wRow, wRows, hwr, hwn, hwp⟩ := h.inWalmart hW
          simp only [hs hS, hwr, hwn, hwp]
      | false => simp only [hs hS, hw hW]

theorem weight_le_due {queries : List Query} {i : ℕ} {item : String} {v : ItemVars P}
    (h : v.Sound env queries i item) : (dueItem env item).1.weight ≤ (v.due env).1.weight := by
  have hs := h.inSafeway_le
  have hw := h.inWalmart_le
  rw [weight_dueItem, weight_due]
  omega

/-- A row that comes too late leaves the item with fewer stores than it is due. -/
theorem weight_lt_due (h : Sound env list s) {q : Query} (hq : q ∈ s.queries)
    (hfirst : q.kind.isFirst = true) (hrows : env.rows q.text ≠ []) {item : String}
    (hi : list[q.item]? = some item) :
    (dueItem env item).1.weight < ((s.vars q.item).due env).1.weight := by
  have hs := (h.vars q.item item hi).inSafeway_le
  have hw := (h.vars q.item item hi).inWalmart_le
  have hone : (!(env.rows q.text).isEmpty).toNat = 1 := by
    cases hr : env.rows q.text with
    | nil => exact absurd hr hrows
    | cons row rows => rfl
  have hsound := h.query q hq
  rw [weight_dueItem, weight_due]
  obtain ⟨kind, i, text⟩ := q
  cases kind with
  | safeway =>
      obtain ⟨item', hi', rfl⟩ := h.eq_safeway hq
      obtain rfl := Option.some.inj (hi.symm.trans hi')
      have hflag : (s.vars i).inSafeway = false := hsound.2
      simp only [hflag, hone, Bool.toNat_false] at hs hw ⊢
      omega
  | walmart =>
      obtain ⟨item', hi', rfl⟩ := h.eq_walmart hq
      obtain rfl := Option.some.inj (hi.symm.trans hi')
      have hflag : (s.vars i).inWalmart = false := hsound.2
      simp only [hflag, hone, Bool.toNat_false] at hs hw ⊢
      omega
  | similarWalmart => cases hfirst
  | similarSafeway => cases hfirst

theorem dueTimer_eq {i : ℕ} {item : String} (hi : list[i]? = some item) :
    dueTimer env list i = dueItem env item := by
  rw [dueTimer, hi]
  rfl

/-! ### The end of a run -/

theorem balance_of_timers_nil {t : State P} (h : t.timers = []) :
    balance env list t = t.info.tally + (t.queries.map (dueQuery env list)).sum := by
  rw [balance, h]
  simp

theorem sum_dueQuery_of_nothingDue {t : State P} (h : NothingDue env t) :
    (t.queries.map (dueQuery env list)).sum = 0 := by
  apply List.sum_eq_zero
  intro d hd
  obtain ⟨q, hq, rfl⟩ := List.mem_map.mp hd
  cases hk : q.kind.isFirst with
  | true => exact dueQuery_of_isFirst hk
  | false => exact dueQuery_of_rows_nil (h q hq hk)

theorem weight_sum_dueQuery (qs : List Query) : (qs.map (dueQuery env list)).sum.1.weight = 0 := by
  induction qs with
  | nil => rfl
  | cons q qs ih =>
      rw [List.map_cons, List.sum_cons, Prod.fst_add, map_add, weight_dueQuery, ih, add_zero]

/-- Queries that would still change the result are noticed in its number of entries. -/
theorem nothingDue_of_tally {t : State P} (h : Sound env list t)
    (ht : t.info.tally + (t.queries.map (dueQuery env list)).sum = t.info.tally) : NothingDue env t := by
  let entries : Tally P →+ ℕ := StoreTally.count.coprod StoreTally.count
  have hsum : ((t.queries.map (dueQuery env list)).map entries).sum = 0 := by
    have := congrArg entries ht
    rw [map_add, map_list_sum] at this
    omega
  intro q hq hk
  have hlt : q.item < list.length := by
    have hs := h.query q hq
    obtain ⟨kind, i, text⟩ := q
    cases kind with
    | safeway => cases hk
    | walmart => cases hk
    | similarWalmart => exact hs.2.1
    | similarSafeway => exact hs.2.1
  have hzero : entries (dueQuery env list q) = 0 :=
    List.sum_eq_zero_iff.mp hsum _ (List.mem_map_of_mem (List.mem_map_of_mem hq))
  rw [AddMonoidHom.coprod_apply, count_dueQuery hk hlt] at hzero
  cases hr : env.rows q.text with
  | nil => rfl
  | cons row rows =>
      rw [hr] at hzero
      cases hzero

section run

variable [Price P]

/-- **In time, the balance stays.** -/
theorem balance_of_inTime {e : Event} (h : Sound env list s) (ht : TimerInTime env s e)
    (hstep : step env s e = some s') : balance env list s' = balance env list s := by
  cases e with
  | query k => exact balance_of_other h (by simp) hstep
  | respond => exact balance_of_other h (by simp) hstep
  | timer i =>
      obtain ⟨hi, rest, hb, hb'⟩ := balance_of_timer h hstep
      have hitem := List.getElem?_eq_getElem (h.lt i hi)
      rw [hb, hb', dueTimer_eq hitem, due_eq_dueItem (h.vars i _ hitem) ht]

theorem weight_le_of_step {e : Event} (h : Sound env list s) (hstep : step env s e = some s') :
    (balance env list s).1.weight ≤ (balance env list s').1.weight := by
  cases e with
  | query k => rw [balance_of_other h (by simp) hstep]
  | respond => rw [balance_of_other h (by simp) hstep]
  | timer i =>
      obtain ⟨hi, rest, hb, hb'⟩ := balance_of_timer h hstep
      have hitem := List.getElem?_eq_getElem (h.lt i hi)
      rw [hb, hb', dueTimer_eq hitem, Prod.fst_add, Prod.fst_add, map_add, map_add]
      exact Int.add_le_add_left (weight_le_due (h.vars i _ hitem)) _

/-- **Too early, it is spoilt.** -/
theorem weight_lt_of_step {e : Event} (h : Sound env list s) (ht : ¬ TimerInTime env s e)
    (hstep : step env s e = some s') :
    (balance env list s).1.weight < (balance env list s').1.weight := by
  cases e with
  | query k => exact absurd trivial ht
  | respond => exact absurd trivial ht
  | timer i =>
      obtain ⟨hi, rest, hb, hb'⟩ := balance_of_timer h hstep
      have hitem := List.getElem?_eq_getElem (h.lt i hi)
      simp only [TimerInTime, not_forall] at ht
      obtain ⟨q, hq, rfl, hfirst, hrows⟩ := ht
      rw [hb, hb', dueTimer_eq hitem, Prod.fst_add, Prod.fst_add, map_add, map_add]
      exact Int.add_lt_add_left (weight_lt_due h hq hfirst hrows hitem) _

/-! ### The result of a run -/

/-- The response timer fires in `t`, after the run `es` and the timers of all items. -/
structure Responds (env : Env P) (g : Globals P) (list : List String) (es : List Event)
    (t : State P) : Prop where
  run : Guarded.run (step env) (.start g list) es = some t
  timers : t.timers = []
  responding : t.responding = true
  thrown : t.thrown = none

/-- The timers of the items, and then the response timer, fire in time. -/
structure InTime (env : Env P) (g : Globals P) (list : List String) (es : List Event)
    (t : State P) : Prop where
  timers : EachStep (step env) (TimerInTime env) (.start g list) es
  response : NothingDue env t

theorem sound_of_run {g : Globals P} {es : List Event} {t : State P}
    (ht : run (step env) (.start g list) es = some t) : Sound env list t :=
  inv_of_run (Sound env list) (fun _ _ _ => sound_step) (sound_start env g list) ht

theorem balance_eq_due {g : Globals P} {es : List Event} {t : State P}
    (ht : run (step env) (.start g list) es = some t)
    (hin : EachStep (step env) (TimerInTime env) (.start g list) es) :
    balance env list t = (list.map (dueItem env)).sum := by
  rw [← balance_start g list]
  exact eq_of_run (Sound env list) (fun _ _ _ => sound_step) (fun _ _ _ => balance_of_inTime)
    (sound_start env g list) hin ht

/-- **The result, exactly.**  It is what the items are due iff all timers fire in time. -/
theorem tally_eq_due_iff {g : Globals P} {es : List Event} {t : State P}
    (h : Responds env g list es t) :
    t.info.tally = (list.map (dueItem env)).sum ↔ InTime env g list es t := by
  have hend : balance env list t = _ := balance_of_timers_nil h.timers
  constructor
  · intro hdue
    have hin : EachStep (step env) (TimerInTime env) (.start g list) es := by
      refine eachStep_of_potential (Sound env list) (f := fun s => (balance env list s).1.weight)
        (fun _ _ _ => sound_step) (fun _ _ _ => weight_le_of_step) (fun _ _ _ => weight_lt_of_step)
        (sound_start env g list) h.run ?_
      rw [hend, balance_start, hdue, Prod.fst_add, map_add, weight_sum_dueQuery, add_zero]
    have hb := balance_eq_due h.run hin
    rw [hend] at hb
    exact ⟨hin, nothingDue_of_tally (sound_of_run h.run) (hb.trans hdue.symm)⟩
  · rintro ⟨hin, hnothing⟩
    have hb := balance_eq_due h.run hin
    rwa [hend, sum_dueQuery_of_nothingDue hnothing, add_zero] at hb

end run

end due

end EasyGrocery.Server
