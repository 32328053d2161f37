import EasyGrocery.Server.Additive
import Mathlib.Algebra.BigOperators.Group.Finset.Piecewise

/-! # All results a comparison can have

A row that comes too late changes the result (`sameResult_iff`); here is how far it can.  Each
item has its outcomes (`Outcome`): found in both stores, in one with or without a substitute in
the other, or in none, as its rows come in time or not.  Whatever the order and the delays of the
callbacks, what the comparison holds is one outcome for each item whose timer has fired
(`exists_shares`), and when no query fails every choice of outcomes is the result of some run
(`result_iff_outcomes`). -/

namespace EasyGrocery.Server

open Guarded

variable {P : Type} [AddCommMonoid P]

/-- What an item may add to a comparison. -/
inductive Outcome (env : Env P) (item : String) : Tally P → Prop
  | neither : Outcome env item (.unknown, .unknown)
  | onlySafeway {row : Row P} {rows : List (Row P)} : env.rows (sql1 item) = row :: rows →
      Outcome env item (.pair row.ProductName row.ProductPrice, 0)
  | withWalmart {row : Row P} {rows : List (Row P)} : env.rows (sql1 item) = row :: rows →
      Outcome env item (.pair row.ProductName row.ProductPrice,
        substitute env row.ProductName (env.rows sql3))
  | onlyWalmart {row : Row P} {rows : List (Row P)} : env.rows (sql2 item) = row :: rows →
      Outcome env item (0, .pair row.ProductName row.ProductPrice)
  | withSafeway {row : Row P} {rows : List (Row P)} : env.rows (sql2 item) = row :: rows →
      Outcome env item (substitute env row.ProductName (env.rows (sql4 "")),
        .pair row.ProductName row.ProductPrice)
  | both {sRow wRow : Row P} {sRows wRows : List (Row P)} : env.rows (sql1 item) = sRow :: sRows →
      env.rows (sql2 item) = wRow :: wRows →
      Outcome env item (.bare sRow.ProductName sRow.ProductPrice,
        .bare wRow.ProductName wRow.ProductPrice)

/-! ### Every run adds outcomes up -/

/-- An item with a second query in flight has been found in one store, and has no substitute. -/
def Waiting (env : Env P) (list : List String) (c : ℕ → Tally P) (q : Query) : Prop :=
  match q.kind with
  | .similarWalmart => ∃ item row rows, list[q.item]? = some item ∧
      env.rows (sql1 item) = row :: rows ∧ c q.item = (.pair row.ProductName row.ProductPrice, 0)
  | .similarSafeway => ∃ item row rows, list[q.item]? = some item ∧
      env.rows (sql2 item) = row :: rows ∧ c q.item = (0, .pair row.ProductName row.ProductPrice)
  | _ => True

/-- The comparison holds `c i` for the item at `i`: an outcome if its timer has fired. -/
structure Shares (env : Env P) (list : List String) (s : State P) (c : ℕ → Tally P) : Prop where
  pending : ∀ i ∈ s.timers, c i = 0
  outcome : ∀ i item, list[i]? = some item → i ∉ s.timers → Outcome env item (c i)
  waiting : ∀ q ∈ s.queries, Waiting env list c q
  total : s.info.tally = ∑ i ∈ Finset.range list.length, c i

theorem sum_update {n i : ℕ} (hi : i < n) (c : ℕ → Tally P) (d : Tally P) :
    ∑ j ∈ Finset.range n, Function.update c i (c i + d) j = ∑ j ∈ Finset.range n, c j + d := by
  have hmem := Finset.mem_range.mpr hi
  rw [Finset.sum_update_of_mem hmem, ← Finset.add_sum_erase _ c hmem,
    Finset.sdiff_singleton_eq_erase]
  abel

variable {env : Env P} {list : List String} {s s' : State P} {c : ℕ → Tally P}

theorem Waiting.of_isFirst {q : Query} (h : q.kind.isFirst = true) : Waiting env list c q := by
  obtain ⟨kind, i, text⟩ := q
  cases kind with
  | safeway => trivial
  | walmart => trivial
  | similarWalmart => cases h
  | similarSafeway => cases h

theorem Waiting.congr {c' : ℕ → Tally P} {q : Query} (h : Waiting env list c q)
    (hc : c' q.item = c q.item) : Waiting env list c' q := by
  obtain ⟨kind, i, text⟩ := q
  cases kind with
  | safeway => trivial
  | walmart => trivial
  | similarWalmart =>
      obtain ⟨item, row, rows, hi, hr, hq⟩ := h
      exact ⟨item, row, rows, hi, hr, hc.trans hq⟩
  | similarSafeway =>
      obtain ⟨item, row, rows, hi, hr, hq⟩ := h
      exact ⟨item, row, rows, hi, hr, hc.trans hq⟩

/-- Two second queries for one item are the same. -/
theorem eq_of_waiting (h : Sound env list s) {q q' : Query} (hq : q ∈ s.queries)
    (hq' : q' ∈ s.queries) (hk : q.kind.isFirst = false) (hk' : q'.kind.isFirst = false)
    (hw : Waiting env list c q) (hw' : Waiting env list c q') (hi : q'.item = q.item) : q' = q := by
  have hs := h.query q hq
  have hs' := h.query q' hq'
  obtain ⟨kind, i, text⟩ := q
  obtain ⟨kind', i', text'⟩ := q'
  obtain rfl : i' = i := hi
  -- the two kinds leave different shares
  have hne (row row' : Row P) : ((.pair row.ProductName row.ProductPrice, 0) : Tally P) ≠
      (0, .pair row'.ProductName row'.ProductPrice) := by
    intro he
    have hcount := congrArg (fun d : Tally P => d.1.count) he
    simp at hcount
  cases kind with
  | safeway => cases hk
  | walmart => cases hk
  | similarWalmart => cases kind' with
    | safeway => cases hk'
    | walmart => cases hk'
    | similarWalmart => rw [show text' = text from hs'.1.trans hs.1.symm]
    | similarSafeway =>
        obtain ⟨_, row, _, _, _, hc⟩ := hw
        obtain ⟨_, row', _, _, _, hc'⟩ := hw'
        exact absurd (hc.symm.trans hc') (hne row row')
  | similarSafeway => cases kind' with
    | safeway => cases hk'
    | walmart => cases hk'
    | similarWalmart =>
        obtain ⟨_, row, _, _, _, hc⟩ := hw
        obtain ⟨_, row', _, _, _, hc'⟩ := hw'
        exact absurd (hc'.symm.trans hc) (hne row' row)
    | similarSafeway => rw [show text' = text from hs'.1.trans hs.1.symm]

theorem Shares.of_query (h : Shares env list s c) (ht : s'.timers = s.timers)
    (hq : ∀ q ∈ s'.queries, q ∈ s.queries) (hd : s'.info.tally = s.info.tally) :
    Shares env list s' c where
  pending := ht ▸ h.pending
  outcome := ht ▸ h.outcome
  waiting q hm := h.waiting q (hq q hm)
  total := hd.trans h.total

/-- A substitute comes: the item's share grows. -/
theorem Shares.of_substitute (hs : Sound env list s) (h : Shares env list s c) {k : ℕ} {q : Query}
    (hq : s.queries[k]? = some q) (hfirst : q.kind.isFirst = false) {d : Tally P}
    (ht : s'.timers = s.timers) (hk : s'.queries = s.queries.eraseIdx k)
    (hd : s'.info.tally = s.info.tally + d) {item : String} (hi : list[q.item]? = some item)
    (hout : Outcome env item (c q.item + d)) :
    Shares env list s' (Function.update c q.item (c q.item + d)) := by
  have hmem := List.mem_of_getElem? hq
  have hntimer : q.item ∉ s.timers := by
    have hsound := hs.query q hmem
    obtain ⟨kind, i, text⟩ := q
    cases kind with
    | safeway => cases hfirst
    | walmart => cases hfirst
    | similarWalmart => exact hsound.2.2.1
    | similarSafeway => exact hsound.2.2.1
  refine ⟨fun j hj => ?_, fun j item' hj hjt => ?_, fun q' hq' => ?_, ?_⟩
  · rw [ht] at hj
    rw [Function.update_of_ne fun he : j = q.item => hntimer (he ▸ hj)]
    exact h.pending j hj
  · rw [ht] at hjt
    rw [Function.update_apply]
    split_ifs with hji
    · subst hji
      obtain rfl := Option.some.inj (hi.symm.trans hj)
      exact hout
    · exact h.outcome j item' hj hjt
  · rw [hk] at hq'
    obtain ⟨hne, hq'⟩ := (mem_eraseIdx_iff hs.nodup hq).mp hq'
    cases hf : q'.kind.isFirst with
    | true => exact .of_isFirst hf
    | false =>
        refine (h.waiting q' hq').congr (Function.update_of_ne (fun hitem => hne ?_) _ _)
        exact eq_of_waiting hs hmem hq' hfirst hf (h.waiting q hmem) (h.waiting q' hq') hitem
  · obtain ⟨hlt, -⟩ := List.getElem?_eq_some_iff.mp hi
    rw [sum_update hlt, hd, h.total]

/-- A timer fires: the item gets its share. -/
theorem Shares.of_timer (hs : Sound env list s) (h : Shares env list s c) {i : ℕ}
    (hi : i ∈ s.timers) {new : List Query} {d : Tally P} (ht : s'.timers = s.timers.erase i)
    (hk : s'.queries = s.queries ++ new) (hd : s'.info.tally = s.info.tally + d) {item : String}
    (hitem : list[i]? = some item) (hout : Outcome env item d)
    (hnew : ∀ q ∈ new, Waiting env list (Function.update c i d) q) :
    Shares env list s' (Function.update c i d) := by
  refine ⟨fun j hj => ?_, fun j item' hj hjt => ?_, fun q hq => ?_, ?_⟩
  · rw [ht] at hj
    obtain ⟨hji, hj⟩ := (List.Nodup.mem_erase_iff hs.timers).mp hj
    rw [Function.update_of_ne hji]
    exact h.pending j hj
  · rw [Function.update_apply]
    split_ifs with hji
    · subst hji
      obtain rfl := Option.some.inj (hitem.symm.trans hj)
      exact hout
    · rw [ht, List.Nodup.mem_erase_iff hs.timers] at hjt
      exact h.outcome j item' hj fun hjt' => hjt ⟨hji, hjt'⟩
  · rw [hk] at hq
    rcases List.mem_append.mp hq with hq | hq
    · cases hf : q.kind.isFirst with
      | true => exact .of_isFirst hf
      | false =>
          -- the timer of an item with a second query has fired before
          refine (h.waiting q hq).congr (Function.update_of_ne (fun hqi => ?_) _ _)
          have hsound := hs.query q hq
          obtain ⟨kind, j, text⟩ := q
          obtain rfl : j = i := hqi
          cases kind with
          | safeway => cases hf
          | walmart => cases hf
          | similarWalmart => exact hsound.2.2.1 hi
          | similarSafeway => exact hsound.2.2.1 hi
    · exact hnew q hq
  · obtain ⟨hlt, -⟩ := List.getElem?_eq_some_iff.mp hitem
    have hsum := sum_update hlt c d
    rw [h.pending i hi, zero_add] at hsum
    rw [hsum, hd, h.total]

/-- **Shares.**  Every callback keeps the comparison a sum of outcomes. -/
theorem shares_step [Price P] {e : Event} (hs : Sound env list s) (h : Shares env list s c)
    (hstep : step env s e = some s') : ∃ c', Shares env list s' c' := by
  obtain ⟨heff, -⟩ := effect_of_step hstep
  have herase {k : ℕ} : ∀ q ∈ s.queries.eraseIdx k, q ∈ s.queries :=
    fun _ hq => List.mem_of_mem_eraseIdx hq
  cases heff with
  | failed hq hr => exact ⟨c, h.of_query rfl herase rfl⟩
  | empty g hq hr => exact ⟨c, h.of_query rfl herase rfl⟩
  | safeway hq hr => exact ⟨c, h.of_query rfl herase rfl⟩
  | walmart hq hr => exact ⟨c, h.of_query rfl herase rfl⟩
  | respond g sent thrown hr => exact ⟨c, h.of_query rfl (fun _ hq => hq) rfl⟩
  | @similarWalmart k i text rows name price g hq hr hm =>
      have hmem := List.mem_of_getElem? hq
      obtain ⟨htext, hlt, -, hflag⟩ := hs.query _ hmem
      obtain ⟨item, row, rows', hi, hrow, hc⟩ := h.waiting _ hmem
      obtain ⟨row₁, rows₁, hrow₁, hn, -⟩ := (hs.vars i item hi).inSafeway hflag
      obtain ⟨rfl, -⟩ := List.cons.inj (hrow.symm.trans hrow₁)
      have hsub : substitute env row.ProductName (env.rows sql3) = .pair name price := by
        rw [← htext, Env.rows_of_ok hr, ← hn]
        exact substitute_of_mostSimilar hm
      refine ⟨_, h.of_substitute hs hq rfl (d := (0, .pair name price)) rfl rfl ?_ hi ?_⟩
      · simp [State.info, Info.tally, storeTally_pair]
      · have hout : Outcome env item _ := .withWalmart hrow
        rw [hsub] at hout
        simpa [hc] using hout
  | @similarSafeway k i text rows name price g hq hr hm =>
      have hmem := List.mem_of_getElem? hq
      obtain ⟨htext, hlt, -, hflag⟩ := hs.query _ hmem
      obtain ⟨item, row, rows', hi, hrow, hc⟩ := h.waiting _ hmem
      obtain ⟨row₁, rows₁, hrow₁, hn, -⟩ := (hs.vars i item hi).inWalmart hflag
      obtain ⟨rfl, -⟩ := List.cons.inj (hrow.symm.trans hrow₁)
      have hsub : substitute env row.ProductName (env.rows (sql4 "")) = .pair name price := by
        rw [← htext, Env.rows_of_ok hr, ← hn]
        exact substitute_of_mostSimilar hm
      refine ⟨_, h.of_substitute hs hq rfl (d := (.pair name price, 0)) rfl rfl ?_ hi ?_⟩
      · simp [State.info, Info.tally, storeTally_pair]
      · have hout : Outcome env item _ := .withSafeway hrow
        rw [hsub] at hout
        simpa [hc] using hout
  | @both i ht hS hW =>
      have hi := List.getElem?_eq_getElem (hs.lt i ht)
      obtain ⟨sRow, sRows, hsr, hsn, hsp⟩ := (hs.vars i _ hi).inSafeway hS
      obtain ⟨wRow, wRows, hwr, hwn, hwp⟩ := (hs.vars i _ hi).inWalmart hW
      refine ⟨_, h.of_timer hs ht rfl (List.append_nil _).symm ?_ hi (.both hsr hwr) (by simp)⟩
      simp [State.info, Info.tally, storeTally_name, hsn, hsp, hwn, hwp]
  | @onlySafeway i ht hS hW =>
      have hi := List.getElem?_eq_getElem (hs.lt i ht)
      obtain ⟨row, rows, hr, hn, hp⟩ := (hs.vars i _ hi).inSafeway hS
      refine ⟨_, h.of_timer hs ht rfl rfl ?_ hi (.onlySafeway hr) ?_⟩
      · simp [State.info, Info.tally, storeTally_pair, hn, hp]
      · exact List.forall_mem_singleton.mpr ⟨_, row, rows, hi, hr, Function.update_self ..⟩
  | @onlyWalmart i ht hS hW =>
      have hi := List.getElem?_eq_getElem (hs.lt i ht)
      obtain ⟨row, rows, hr, hn, hp⟩ := (hs.vars i _ hi).inWalmart hW
      refine ⟨_, h.of_timer hs ht rfl rfl ?_ hi (.onlyWalmart hr) ?_⟩
      · simp [State.info, Info.tally, storeTally_pair, hn, hp]
      · exact List.forall_mem_singleton.mpr ⟨_, row, rows, hi, hr, Function.update_self ..⟩
  | @neither i ht hS hW =>
      have hi := List.getElem?_eq_getElem (hs.lt i ht)
      refine ⟨_, h.of_timer hs ht rfl (List.append_nil _).symm ?_ hi .neither (by simp)⟩
      simp [State.info, Info.tally, storeTally_unknown]

theorem shares_start (env : Env P) (g : Globals P) (list : List String) :
    Shares env list (.start g list) 0 where
  pending := fun _ _ => rfl
  outcome i item hi ht := by
    obtain ⟨hlt, -⟩ := List.getElem?_eq_some_iff.mp hi
    exact absurd (List.mem_range.mpr hlt) ht
  waiting q hq := by
    obtain ⟨j, item, -, rfl | rfl⟩ := mem_firstQueries_iff.mp hq <;> exact .of_isFirst rfl
  total := (Finset.sum_eq_zero fun _ _ => rfl).symm

theorem exists_shares [Price P] {g : Globals P} {es : List Event} {t : State P}
    (ht : run (step env) (.start g list) es = some t) : ∃ c, Shares env list t c :=
  (inv_of_run (fun s => Sound env list s ∧ ∃ c, Shares env list s c)
    (fun _ _ _ ⟨hs, _, h⟩ hstep => ⟨sound_step hs hstep, shares_step hs h hstep⟩)
    ⟨sound_start env g list, 0, shares_start env g list⟩ ht).2

/-! ### Every choice of outcomes has a run -/

omit [AddCommMonoid P] in
theorem query_of_rows {text : String} {row : Row P} {rows : List (Row P)}
    (h : env.rows text = row :: rows) : env.query text = .ok (row :: rows) := by
  unfold Env.rows at h
  split at h
  · next hq => rw [hq, h]
  · cases h

/-- The items at `T` have had none of their callbacks. -/
structure Untouched (env : Env P) (list : List String) (T : List ℕ) (s : State P) : Prop where
  sound : Sound env list s
  thrown : s.thrown = none
  vars : ∀ j ∈ T, s.vars j = .init
  queries : ∀ j ∈ T, ∀ item, list[j]? = some item →
    ⟨.safeway, j, sql1 item⟩ ∈ s.queries ∧ ⟨.walmart, j, sql2 item⟩ ∈ s.queries

/-- `s'` is `s` after callbacks of items that are not at `T`, and no timer. -/
structure Beside (env : Env P) (list : List String) (T : List ℕ) (s s' : State P) : Prop where
  untouched : Untouched env list T s'
  timers : s'.timers = s.timers
  responding : s'.responding = s.responding

variable {T : List ℕ}

theorem Untouched.subset {T' : List ℕ} (h : Untouched env list T s) (hT : T' ⊆ T) :
    Untouched env list T' s :=
  ⟨h.sound, h.thrown, fun j hj => h.vars j (hT hj), fun j hj => h.queries j (hT hj)⟩

section untouched

variable [Price P]

theorem step_query_eq (env : Env P) (ht : s.thrown = none) {k : ℕ} {q : Query} (hk : s.queries[k]? = some q) :
    step env s (.query k) =
      some ({ s with queries := s.queries.eraseIdx k }.onQuery env q (env.query q.text)) := by
  simp [step, ht, hk]

/-- The answer to a query of another item. -/
theorem Untouched.beside (h : Untouched env list T s) {k : ℕ} {q : Query}
    (hk : s.queries[k]? = some q) (hi : q.item ∉ T) (hstep : step env s (.query k) = some s')
    (hq : s'.queries = s.queries.eraseIdx k) (ht : s'.timers = s.timers)
    (hr : s'.responding = s.responding) (hthrown : s'.thrown = s.thrown)
    (hv : ∀ j ∈ T, s'.vars j = s.vars j) : Beside env list T s s' := by
  refine ⟨⟨sound_step h.sound hstep, hthrown.trans h.thrown,
    fun j hj => (hv j hj).trans (h.vars j hj), fun j hj item hitem => ?_⟩, ht, hr⟩
  obtain ⟨hs, hw⟩ := h.queries j hj item hitem
  have hne (kind : Kind) (text : String) : (⟨kind, j, text⟩ : Query) ≠ q := by
    rintro rfl
    exact hi hj
  rw [hq]
  exact ⟨(mem_eraseIdx_iff h.sound.nodup hk).mpr ⟨hne _ _, hs⟩,
    (mem_eraseIdx_iff h.sound.nodup hk).mpr ⟨hne _ _, hw⟩⟩

theorem exists_safeway (h : Untouched env list T s) {i : ℕ} (hi : i ∉ T) {item : String}
    (hm : ⟨.safeway, i, sql1 item⟩ ∈ s.queries) {row : Row P} {rows : List (Row P)}
    (hr : env.rows (sql1 item) = row :: rows) :
    ∃ k s', step env s (.query k) = some s' ∧ Beside env list T s s' ∧ s'.info = s.info ∧
      s'.vars i = { s.vars i with
        inSafeway := true
        safewayTempPrice := row.ProductPrice
        safewayTempName := row.ProductName
        safewayCategory := row.Category } ∧
      ∀ text, ⟨.walmart, i, text⟩ ∈ s.queries → ⟨.walmart, i, text⟩ ∈ s'.queries := by
  obtain ⟨k, hk⟩ := List.getElem?_of_mem hm
  have hstep := step_query_eq env h.thrown hk
  rw [query_of_rows hr] at hstep
  refine ⟨k, _, hstep, h.beside hk hi hstep rfl rfl rfl rfl fun j hj => ?_, rfl,
    Function.update_self .., fun text hw => (mem_eraseIdx_iff h.sound.nodup hk).mpr ⟨by simp, hw⟩⟩
  exact Function.update_of_ne (fun hji : j = i => hi (hji ▸ hj)) _ _

theorem exists_walmart (h : Untouched env list T s) {i : ℕ} (hi : i ∉ T) {item : String}
    (hm : ⟨.walmart, i, sql2 item⟩ ∈ s.queries) {row : Row P} {rows : List (Row P)}
    (hr : env.rows (sql2 item) = row :: rows) :
    ∃ k s', step env s (.query k) = some s' ∧ Beside env list T s s' ∧ s'.info = s.info ∧
      s'.vars i = { s.vars i with
        inWalmart := true
        walmartTempPrice := row.ProductPrice
        walmartTempName := row.ProductName } := by
  obtain ⟨k, hk⟩ := List.getElem?_of_mem hm
  have hstep := step_query_eq env h.thrown hk
  rw [query_of_rows hr] at hstep
  refine ⟨k, _, hstep, h.beside hk hi hstep rfl rfl rfl rfl fun j hj => ?_, rfl,
    Function.update_self ..⟩
  exact Function.update_of_ne (fun hji : j = i => hi (hji ▸ hj)) _ _

/-- What a timer adds by itself. -/
def ItemVars.now (v : ItemVars P) : Tally P :=
  match v.inSafeway, v.inWalmart with
  | true, true =>
      (.bare v.safewayTempName v.safewayTempPrice, .bare v.walmartTempName v.walmartTempPrice)
  | true, false => (.pair v.safewayTempName v.safewayTempPrice, 0)
  | false, true => (0, .pair v.walmartTempName v.walmartTempPrice)
  | false, false => (.unknown, .unknown)

/-- The second query it issues. -/
def ItemVars.asks (v : ItemVars P) (i : ℕ) : List Query :=
  match v.inSafeway, v.inWalmart with
  | true, false => [⟨.similarWalmart, i, sql3⟩]
  | false, true => [⟨.similarSafeway, i, sql4 v.safewayCategory⟩]
  | _, _ => []

theorem exists_timer {i : ℕ} (h : Untouched env list T s) (ht : s.timers = i :: T) :
    ∃ s', step env s (.timer i) = some s' ∧ Untouched env list T s' ∧ s'.timers = T ∧
      s'.responding = s.responding ∧ s'.vars = s.vars ∧
      s'.queries = s.queries ++ (s.vars i).asks i ∧
      s'.info.tally = s.info.tally + (s.vars i).now := by
  have hi : i ∈ s.timers := by rw [ht]; exact List.mem_cons_self
  have herase : s.timers.erase i = T := by rw [ht, List.erase_cons_head]
  have hstep : step env s (.timer i) = some ({ s with timers := s.timers.erase i }.onTimer i) := by
    simp [step, h.thrown, hi]
  refine ⟨_, hstep, ?_⟩
  have hsound := sound_step h.sound hstep
  generalize ({ s with timers := s.timers.erase i }.onTimer i) = s' at hstep hsound ⊢
  obtain ⟨heff, -⟩ := effect_of_step hstep
  have hmem (new : List Query) (j : ℕ) (hj : j ∈ T) (item : String) (hitem : list[j]? = some item) :
      ⟨.safeway, j, sql1 item⟩ ∈ s.queries ++ new ∧ ⟨.walmart, j, sql2 item⟩ ∈ s.queries ++ new :=
    ⟨List.mem_append_left _ (h.queries j hj item hitem).1,
      List.mem_append_left _ (h.queries j hj item hitem).2⟩
  cases heff with
  | both _ hS hW =>
      refine ⟨⟨hsound, h.thrown, h.vars, h.queries⟩, herase, rfl, rfl, ?_, ?_⟩
      · simp [ItemVars.asks, hS, hW]
      · simp [ItemVars.now, hS, hW, State.info, Info.tally, storeTally_name]
  | onlySafeway _ hS hW =>
      refine ⟨⟨hsound, h.thrown, h.vars, hmem _⟩, herase, rfl, rfl, ?_, ?_⟩
      · simp [ItemVars.asks, hS, hW]
      · simp [ItemVars.now, hS, hW, State.info, Info.tally, storeTally_pair]
  | onlyWalmart _ hS hW =>
      refine ⟨⟨hsound, h.thrown, h.vars, hmem _⟩, herase, rfl, rfl, ?_, ?_⟩
      · simp [ItemVars.asks, hS, hW]
      · simp [ItemVars.now, hS, hW, State.info, Info.tally, storeTally_pair]
  | neither _ hS hW =>
      refine ⟨⟨hsound, h.thrown, h.vars, h.queries⟩, herase, rfl, rfl, ?_, ?_⟩
      · simp [ItemVars.asks, hS, hW]
      · simp [ItemVars.now, hS, hW, State.info, Info.tally, storeTally_unknown]

theorem exists_similarWalmart (h : Untouched env list T s) {i : ℕ} (hi : i ∉ T) {text : String}
    (hm : ⟨.similarWalmart, i, text⟩ ∈ s.queries) {row : Row P} {rows : List (Row P)}
    (hr : env.rows text = row :: rows) :
    ∃ k s', step env s (.query k) = some s' ∧ Beside env list T s s' ∧
      s'.info.tally = s.info.tally + (0, substitute env (s.vars i).safewayTempName (row :: rows)) := by
  obtain ⟨k, hk⟩ := List.getElem?_of_mem hm
  have hstep := step_query_eq env h.thrown hk
  obtain ⟨r, -, hv⟩ := mostSimilar_mem env.toLowerCase (s.vars i).safewayTempName
    (List.cons_ne_nil row rows)
  obtain ⟨g, hg⟩ := State.onSimilarWalmart_eq env { s with queries := s.queries.eraseIdx k } i
    (row :: rows)
  simp only [hv] at hg
  rw [query_of_rows hr, State.onQuery] at hstep
  simp only [hg] at hstep
  refine ⟨k, _, hstep, h.beside hk hi hstep rfl rfl rfl rfl fun _ _ => rfl, ?_⟩
  rw [substitute_of_mostSimilar hv]
  simp [State.info, Info.tally, storeTally_pair]

theorem exists_similarSafeway (h : Untouched env list T s) {i : ℕ} (hi : i ∉ T) {text : String}
    (hm : ⟨.similarSafeway, i, text⟩ ∈ s.queries) {row : Row P} {rows : List (Row P)}
    (hr : env.rows text = row :: rows) :
    ∃ k s', step env s (.query k) = some s' ∧ Beside env list T s s' ∧
      s'.info.tally = s.info.tally + (substitute env (s.vars i).walmartTempName (row :: rows), 0) := by
  obtain ⟨k, hk⟩ := List.getElem?_of_mem hm
  have hstep := step_query_eq env h.thrown hk
  obtain ⟨r, -, hv⟩ := mostSimilar_mem env.toLowerCase (s.vars i).walmartTempName
    (List.cons_ne_nil row rows)
  obtain ⟨g, hg⟩ := State.onSimilarSafeway_eq env { s with queries := s.queries.eraseIdx k } i
    (row :: rows)
  simp only [hv] at hg
  rw [query_of_rows hr, State.onQuery] at hstep
  simp only [hg] at hstep
  refine ⟨k, _, hstep, h.beside hk hi hstep rfl rfl rfl rfl fun _ _ => rfl, ?_⟩
  rw [substitute_of_mostSimilar hv]
  simp [State.info, Info.tally, storeTally_pair]

/-- The callbacks of the first item in turn lead from `s` to `s'` and bring `d`. -/
structure Brings (env : Env P) (list : List String) (T : List ℕ) (s : State P) (es : List Event)
    (s' : State P) (d : Tally P) : Prop where
  run : Guarded.run (step env) s es = some s'
  untouched : Untouched env list T s'
  timers : s'.timers = T
  responding : s'.responding = s.responding
  tally : s'.info.tally = s.info.tally + d

theorem Brings.trans {es : List Event} {d d' : Tally P} {k : ℕ} {s'' : State P}
    (h : Brings env list T s es s' d) (hstep : step env s' (.query k) = some s'')
    (hb : Beside env list T s' s'') (hd : s''.info.tally = s'.info.tally + d') :
    Brings env list T s (es ++ [.query k]) s'' (d + d') where
  run := by
    rw [run_append, h.run, Option.bind_some, run_cons_of_eq hstep]
    rfl
  untouched := hb.untouched
  timers := hb.timers.trans h.timers
  responding := hb.responding.trans h.responding
  tally := by rw [hd, h.tally, add_assoc]

variable {i : ℕ} {item : String}

theorem exists_onlySafeway (h : Untouched env list (i :: T) s) (ht : s.timers = i :: T)
    (hi : list[i]? = some item) {row : Row P} {rows : List (Row P)}
    (hr : env.rows (sql1 item) = row :: rows) :
    ∃ es s', Brings env list T s es s' (.pair row.ProductName row.ProductPrice, 0) ∧
      ⟨.similarWalmart, i, sql3⟩ ∈ s'.queries ∧ (s'.vars i).safewayTempName = row.ProductName := by
  have hiT : i ∉ T := (List.nodup_cons.mp (ht ▸ h.sound.timers)).1
  have hT := h.subset (List.subset_cons_self i T)
  obtain ⟨k, s₁, hs₁, hb, hinfo, hv, -⟩ :=
    exists_safeway hT hiT (h.queries i List.mem_cons_self item hi).1 hr
  obtain ⟨s₂, hs₂, hu, htm, hresp, hv₂, hq, htally⟩ := exists_timer hb.untouched (hb.timers.trans ht)
  rw [h.vars i List.mem_cons_self] at hv
  rw [hv] at hq htally
  refine ⟨[.query k, .timer i], s₂, ⟨?_, hu, htm, hresp.trans hb.responding, ?_⟩, ?_, ?_⟩
  · rw [run_cons_of_eq hs₁, run_cons_of_eq hs₂]
    rfl
  · rw [htally, hinfo]
    rfl
  · rw [hq]
    exact List.mem_append_right _ (List.mem_singleton_self _)
  · rw [hv₂, hv]

theorem exists_onlyWalmart (h : Untouched env list (i :: T) s) (ht : s.timers = i :: T)
    (hi : list[i]? = some item) {row : Row P} {rows : List (Row P)}
    (hr : env.rows (sql2 item) = row :: rows) :
    ∃ es s', Brings env list T s es s' (0, .pair row.ProductName row.ProductPrice) ∧
      ⟨.similarSafeway, i, sql4 ""⟩ ∈ s'.queries ∧ (s'.vars i).walmartTempName = row.ProductName := by
  have hiT : i ∉ T := (List.nodup_cons.mp (ht ▸ h.sound.timers)).1
  have hT := h.subset (List.subset_cons_self i T)
  obtain ⟨k, s₁, hs₁, hb, hinfo, hv⟩ :=
    exists_walmart hT hiT (h.queries i List.mem_cons_self item hi).2 hr
  obtain ⟨s₂, hs₂, hu, htm, hresp, hv₂, hq, htally⟩ := exists_timer hb.untouched (hb.timers.trans ht)
  rw [h.vars i List.mem_cons_self] at hv
  rw [hv] at hq htally
  refine ⟨[.query k, .timer i], s₂, ⟨?_, hu, htm, hresp.trans hb.responding, ?_⟩, ?_, ?_⟩
  · rw [run_cons_of_eq hs₁, run_cons_of_eq hs₂]
    rfl
  · rw [htally, hinfo]
    rfl
  · rw [hq]
    exact List.mem_append_right _ (List.mem_singleton_self _)
  · rw [hv₂, hv]

/-- Every outcome of an item is reached by some order of its callbacks. -/
theorem exists_brings (h : Untouched env list (i :: T) s) (ht : s.timers = i :: T)
    (hi : list[i]? = some item) {d : Tally P} (hd : Outcome env item d) :
    ∃ es s', Brings env list T s es s' d := by
  have hiT : i ∉ T := (List.nodup_cons.mp (ht ▸ h.sound.timers)).1
  have hT := h.subset (List.subset_cons_self i T)
  cases hd with
  | neither =>
      obtain ⟨s', hs, hu, htm, hresp, -, -, htally⟩ := exists_timer hT ht
      rw [h.vars i List.mem_cons_self] at htally
      exact ⟨[.timer i], s', run_cons_of_eq hs [], hu, htm, hresp, htally⟩
  | onlySafeway hr =>
      obtain ⟨es, s', hb, -, -⟩ := exists_onlySafeway h ht hi hr
      exact ⟨es, s', hb⟩
  | onlyWalmart hr =>
      obtain ⟨es, s', hb, -, -⟩ := exists_onlyWalmart h ht hi hr
      exact ⟨es, s', hb⟩
  | withWalmart hr =>
      obtain ⟨es, s', hb, hmem, hn⟩ := exists_onlySafeway h ht hi hr
      cases hrows : env.rows sql3 with
      | nil => exact ⟨es, s', hb⟩
      | cons row' rows' =>
          obtain ⟨k, s'', hs, hbeside, htally⟩ := exists_similarWalmart hb.untouched hiT hmem hrows
          rw [hn] at htally
          exact ⟨_, s'', by simpa using hb.trans hs hbeside htally⟩
  | withSafeway hr =>
      obtain ⟨es, s', hb, hmem, hn⟩ := exists_onlyWalmart h ht hi hr
      cases hrows : env.rows (sql4 "") with
      | nil => exact ⟨es, s', hb⟩
      | cons row' rows' =>
          obtain ⟨k, s'', hs, hbeside, htally⟩ := exists_similarSafeway hb.untouched hiT hmem hrows
          rw [hn] at htally
          exact ⟨_, s'', by simpa using hb.trans hs hbeside htally⟩
  | both hsr hwr =>
      obtain ⟨hqs, hqw⟩ := h.queries i List.mem_cons_self item hi
      obtain ⟨k, s₁, hs₁, hb₁, hinfo₁, hv₁, hmem⟩ := exists_safeway hT hiT hqs hsr
      obtain ⟨k', s₂, hs₂, hb₂, hinfo₂, hv₂⟩ := exists_walmart hb₁.untouched hiT (hmem _ hqw) hwr
      obtain ⟨s₃, hs₃, hu, htm, hresp, -, -, htally⟩ :=
        exists_timer hb₂.untouched (hb₂.timers.trans (hb₁.timers.trans ht))
      rw [hv₁] at hv₂
      rw [hv₂, hinfo₂, hinfo₁] at htally
      refine ⟨[.query k, .query k', .timer i], s₃, ?_, hu, htm,
        hresp.trans (hb₂.responding.trans hb₁.responding), htally⟩
      rw [run_cons_of_eq hs₁, run_cons_of_eq hs₂, run_cons_of_eq hs₃]
      rfl

/-- One item after the other. -/
theorem exists_run_of_outcomes {c : ℕ → Tally P} (h : Untouched env list T s) (ht : s.timers = T)
    (hc : ∀ i item, list[i]? = some item → Outcome env item (c i)) :
    ∃ es t, Brings env list [] s es t (T.map c).sum := by
  induction T generalizing s with
  | nil => exact ⟨[], s, rfl, h, ht, rfl, by simp⟩
  | cons i T ih =>
      have hlt := h.sound.lt i (by rw [ht]; exact List.mem_cons_self)
      have hi := List.getElem?_eq_getElem hlt
      obtain ⟨es, s', hb⟩ := exists_brings h ht hi (hc i _ hi)
      obtain ⟨fs, t, hb'⟩ := ih hb.untouched hb.timers
      refine ⟨es ++ fs, t, ?_, hb'.untouched, hb'.timers, hb'.responding.trans hb.responding, ?_⟩
      · rw [run_append, hb.run]
        exact hb'.run
      · rw [hb'.tally, hb.tally, List.map_cons, List.sum_cons, add_assoc]

end untouched

/-- **All results.**  A comparison can end with exactly the sums of outcomes, one for each of its
items. -/
theorem result_iff_outcomes [Price P] (env : Env P) (g : Globals P) (list : List String)
    (x : Tally P) :
    (∃ es t, Responds env g list es t ∧ t.info.tally = x) ↔
      ∃ c : ℕ → Tally P, (∀ i item, list[i]? = some item → Outcome env item (c i)) ∧
        x = ∑ i ∈ Finset.range list.length, c i := by
  constructor
  · rintro ⟨es, t, h, rfl⟩
    obtain ⟨c, hc⟩ := exists_shares h.run
    exact ⟨c, fun i item hi => hc.outcome i item hi (by rw [h.timers]; exact List.not_mem_nil), hc.total⟩
  · rintro ⟨c, hc, rfl⟩
    have hstart : Untouched env list (List.range list.length) (.start g list) := by
      refine ⟨sound_start env g list, rfl, fun _ _ => rfl, fun j _ item hj => ?_⟩
      have hmem (q : Query) (h : q = ⟨.safeway, 0 + j, sql1 item⟩ ∨ q = ⟨.walmart, 0 + j, sql2 item⟩) :
          q ∈ (State.start g list).queries := mem_firstQueries_iff.mpr ⟨j, item, hj, h⟩
      rw [Nat.zero_add] at hmem
      exact ⟨hmem _ (.inl rfl), hmem _ (.inr rfl)⟩
    obtain ⟨es, t, hb⟩ := exists_run_of_outcomes hstart rfl hc
    refine ⟨es, t, ⟨hb.run, hb.timers, hb.responding, hb.untouched.thrown⟩, ?_⟩
    have hzero : (State.start g list).info.tally = 0 := rfl
    rw [hb.tally, hzero, zero_add]
    exact (Multiset.sum_coe _).symm

/-! ### No item counts twice -/

theorem count_outcome {item : String} {d : Tally P} (h : Outcome env item d) :
    d.1.count ≤ 1 ∧ d.2.count ≤ 1 := by
  cases h <;> simp [count_substitute, Bool.toNat_le]

/-- What no outcome has twice, the comparison has at most once for each item that has had its
timer. -/
theorem Shares.le (hs : Sound env list s) (h : Shares env list s c) (f : Tally P →+ ℕ)
    (hf : ∀ item d, Outcome env item d → f d ≤ 1) :
    f s.info.tally + s.timers.length ≤ list.length := by
  have hitem (i : ℕ) (hi : i ∈ Finset.range list.length) :
      f (c i) + (if i ∈ s.timers then 1 else 0) ≤ 1 := by
    split_ifs with ht
    · rw [h.pending i ht, map_zero]
    · have hlt := Finset.mem_range.mp hi
      exact hf _ _ (h.outcome i _ (List.getElem?_eq_getElem hlt) ht)
  have htimers : s.timers.toFinset ⊆ Finset.range list.length := fun i hi =>
    Finset.mem_range.mpr (hs.lt i (List.mem_toFinset.mp hi))
  have hlength : s.timers.length =
      ∑ i ∈ Finset.range list.length, if i ∈ s.timers then 1 else 0 := by
    rw [← List.toFinset_card_of_nodup hs.timers, ← Finset.inter_eq_right.mpr htimers,
      Finset.card_eq_sum_ones, ← Finset.filter_mem_eq_inter, Finset.sum_filter]
    simp
  calc f s.info.tally + s.timers.length
      = ∑ i ∈ Finset.range list.length, (f (c i) + if i ∈ s.timers then 1 else 0) := by
        rw [h.total, map_sum, hlength, Finset.sum_add_distrib]
    _ ≤ ∑ _i ∈ Finset.range list.length, 1 := Finset.sum_le_sum hitem
    _ = list.length := by simp

/-- **No item counts twice.**  Whatever the order and the delays of the callbacks, at every moment
a store has at most one entry or unknown item for each item whose timer has fired. -/
theorem counted_le [Price P] {g : Globals P} {es : List Event} {t : State P}
    (ht : run (step env) (.start g list) es = some t) :
    t.safewayList.length + t.safewayUnknown + t.timers.length ≤ list.length ∧
      t.walmartList.length + t.walmartUnknown + t.timers.length ≤ list.length := by
  obtain ⟨c, hc⟩ := exists_shares ht
  have hs := sound_of_run ht
  have hsafeway := hc.le hs (StoreTally.count.comp (AddMonoidHom.fst _ _))
    fun item d hd => (count_outcome hd).1
  have hwalmart := hc.le hs (StoreTally.count.comp (AddMonoidHom.snd _ _))
    fun item d hd => (count_outcome hd).2
  have hcount (price : P) (l : List (Entry P)) (unknown : ℕ) :
      StoreTally.count (storeTally price l unknown) = l.length + unknown := by
    change Multiset.card (storeTally price l unknown).2.1 + unknown = _
    rw [storeTally, Multiset.coe_card, List.length_map]
  exact ⟨(hcount _ _ _) ▸ hsafeway, (hcount _ _ _) ▸ hwalmart⟩

/-- Milk, whose row from one store comes too late. -/
theorem counted_le_milk : ∃ t : State Decimal,
    run (step milkEnv) (.start .init ["milk"]) [.query 0, .timer 0, .query 1] = some t ∧
      t.walmartList.length + t.walmartUnknown + t.timers.length ≤ 1 := by
  have hrun : (run (step milkEnv) (.start .init ["milk"]) [.query 0, .timer 0, .query 1]).isSome =
      true := by decide +kernel
  obtain ⟨t, ht⟩ := Option.isSome_iff_exists.mp hrun
  exact ⟨t, ht, (counted_le ht).2⟩

end EasyGrocery.Server
