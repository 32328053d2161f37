import EasyGrocery.Server.CompareSteps
import Mathlib.Data.Bool.Basic
import Mathlib.Data.List.Nodup

/-! # The invariant of the compare handler

`Sound` holds in every state of every run (`sound_step`): what the captured variables of an item
are, by what has been answered, and what the queries in flight ask.  Each first query is in
flight until its row has been noted, and a second query belongs to an item whose timer has
fired. -/

namespace EasyGrocery.Server

open Guarded

variable {P : Type}

/-- One of the two queries issued at the start. -/
def Kind.isFirst : Kind → Bool
  | .safeway => true
  | .walmart => true
  | _ => false

/-- What a query in flight asks, and for which item. -/
def Query.Sound (list : List String) (s : State P) (q : Query) : Prop :=
  match q.kind with
  | .safeway => list[q.item]?.map sql1 = some q.text ∧ (s.vars q.item).inSafeway = false
  | .walmart => list[q.item]?.map sql2 = some q.text ∧ (s.vars q.item).inWalmart = false
  | .similarWalmart => q.text = sql3 ∧ q.item < list.length ∧ q.item ∉ s.timers ∧
      (s.vars q.item).inSafeway = true
  | .similarSafeway => q.text = sql4 "" ∧ q.item < list.length ∧ q.item ∉ s.timers ∧
      (s.vars q.item).inWalmart = true

/-- The variables of the item at `i`: a flag that is set stands for a row that was brought; one
that is not, for an answer without rows or still to come. -/
structure ItemVars.Sound (env : Env P) (queries : List Query) (i : ℕ) (item : String)
    (v : ItemVars P) : Prop where
  inSafeway : v.inSafeway = true → ∃ row rows, env.rows (sql1 item) = row :: rows ∧
    v.safewayTempName = row.ProductName ∧ v.safewayTempPrice = row.ProductPrice
  inWalmart : v.inWalmart = true → ∃ row rows, env.rows (sql2 item) = row :: rows ∧
    v.walmartTempName = row.ProductName ∧ v.walmartTempPrice = row.ProductPrice
  category : v.inSafeway = false → v.safewayCategory = ""
  safeway : v.inSafeway = false → env.rows (sql1 item) ≠ [] → ⟨.safeway, i, sql1 item⟩ ∈ queries
  walmart : v.inWalmart = false → env.rows (sql2 item) ≠ [] → ⟨.walmart, i, sql2 item⟩ ∈ queries

structure Sound (env : Env P) (list : List String) (s : State P) : Prop where
  nodup : s.queries.Nodup
  timers : s.timers.Nodup
  lt : ∀ i ∈ s.timers, i < list.length
  query : ∀ q ∈ s.queries, q.Sound list s
  vars : ∀ i item, list[i]? = some item → (s.vars i).Sound env s.queries i item

/-! ### The start -/

theorem mem_firstQueries_iff {q : Query} {i : ℕ} {list : List String} :
    q ∈ firstQueries i list ↔ ∃ j item, list[j]? = some item ∧
      (q = ⟨.safeway, i + j, sql1 item⟩ ∨ q = ⟨.walmart, i + j, sql2 item⟩) := by
  induction list generalizing i with
  | nil => simp [firstQueries]
  | cons item list ih =>
      rw [firstQueries, List.mem_cons, List.mem_cons, ih]
      constructor
      · rintro (rfl | rfl | ⟨j, item', hj, hq⟩)
        · exact ⟨0, item, rfl, .inl rfl⟩
        · exact ⟨0, item, rfl, .inr rfl⟩
        · exact ⟨j + 1, item', hj, by rwa [Nat.add_right_comm, Nat.add_assoc] at hq⟩
      · rintro ⟨j, item', hj, hq⟩
        cases j with
        | zero =>
            obtain rfl : item = item' := by simpa using hj
            exact hq.elim .inl fun hq => .inr (.inl hq)
        | succ j =>
            exact .inr (.inr ⟨j, item', hj, by rwa [Nat.add_right_comm, Nat.add_assoc]⟩)

theorem le_item_of_mem_firstQueries {q : Query} {i : ℕ} {list : List String}
    (h : q ∈ firstQueries i list) : i ≤ q.item := by
  obtain ⟨j, item, -, rfl | rfl⟩ := mem_firstQueries_iff.mp h <;> exact Nat.le_add_right i j

theorem nodup_firstQueries (i : ℕ) (list : List String) : (firstQueries i list).Nodup := by
  induction list generalizing i with
  | nil => exact List.nodup_nil
  | cons item list ih =>
      have hnew (q : Query) (hq : q.item = i) : q ∉ firstQueries (i + 1) list := by
        intro h
        have := le_item_of_mem_firstQueries h
        omega
      rw [firstQueries, List.nodup_cons, List.nodup_cons]
      refine ⟨?_, hnew _ rfl, ih (i + 1)⟩
      rw [List.mem_cons, not_or]
      exact ⟨by simp, hnew _ rfl⟩

theorem sound_start [Zero P] (env : Env P) (g : Globals P) (list : List String) :
    Sound env list (.start g list) where
  nodup := nodup_firstQueries 0 list
  timers := List.nodup_range
  lt := fun i hi => List.mem_range.mp hi
  query := by
    intro q hq
    obtain ⟨j, item, hj, rfl | rfl⟩ := mem_firstQueries_iff.mp hq
    · rw [Nat.zero_add]
      exact ⟨by rw [hj]; rfl, rfl⟩
    · rw [Nat.zero_add]
      exact ⟨by rw [hj]; rfl, rfl⟩
  vars := by
    intro i item hi
    have hmem (q : Query) (h : q = ⟨.safeway, 0 + i, sql1 item⟩ ∨ q = ⟨.walmart, 0 + i, sql2 item⟩) :
        q ∈ (State.start g list).queries := mem_firstQueries_iff.mpr ⟨i, item, hi, h⟩
    rw [Nat.zero_add] at hmem
    exact ⟨nofun, nofun, fun _ => rfl, fun _ _ => hmem _ (.inl rfl), fun _ _ => hmem _ (.inr rfl)⟩

/-! ### Queries that have been answered -/

theorem eraseIdx_eq_erase {α : Type*} [DecidableEq α] {l : List α} (hl : l.Nodup) {k : ℕ} {a : α}
    (h : l[k]? = some a) : l.eraseIdx k = l.erase a := by
  obtain ⟨hk, rfl⟩ := List.getElem?_eq_some_iff.mp h
  exact (hl.erase_getElem k hk).symm

theorem mem_eraseIdx_iff {α : Type*} [DecidableEq α] {l : List α} (hl : l.Nodup) {k : ℕ} {a b : α}
    (h : l[k]? = some a) : b ∈ l.eraseIdx k ↔ b ≠ a ∧ b ∈ l := by
  rw [eraseIdx_eq_erase hl h, hl.mem_erase_iff]

/-- A query that leaves the queue may take its place in the invariant along, unless it is a first
query of this item that has just brought its row. -/
theorem ItemVars.Sound.erase {env : Env P} {queries : List Query} {i : ℕ} {item : String}
    {v : ItemVars P} (h : v.Sound env queries i item) (hnd : queries.Nodup) {k : ℕ} {q : Query}
    (hq : queries[k]? = some q)
    (hs : q = ⟨.safeway, i, sql1 item⟩ → env.rows (sql1 item) = [])
    (hw : q = ⟨.walmart, i, sql2 item⟩ → env.rows (sql2 item) = []) :
    v.Sound env (queries.eraseIdx k) i item where
  inSafeway := h.inSafeway
  inWalmart := h.inWalmart
  category := h.category
  safeway hf hr := (mem_eraseIdx_iff hnd hq).mpr ⟨fun he => hr (hs he.symm), h.safeway hf hr⟩
  walmart hf hr := (mem_eraseIdx_iff hnd hq).mpr ⟨fun he => hr (hw he.symm), h.walmart hf hr⟩

theorem ItemVars.Sound.append {env : Env P} {queries : List Query} {i : ℕ} {item : String}
    {v : ItemVars P} (h : v.Sound env queries i item) (q : Query) :
    v.Sound env (queries ++ [q]) i item where
  inSafeway := h.inSafeway
  inWalmart := h.inWalmart
  category := h.category
  safeway hf hr := List.mem_append_left [q] (h.safeway hf hr)
  walmart hf hr := List.mem_append_left [q] (h.walmart hf hr)

/-- A flag that is set stands for rows. -/
theorem ItemVars.Sound.inSafeway_le {queries : List Query} {i : ℕ} {item : String} {v : ItemVars P}
    (h : v.Sound env queries i item) :
    v.inSafeway.toNat ≤ (!(env.rows (sql1 item)).isEmpty).toNat := by
  cases hS : v.inSafeway with
  | false => exact Nat.zero_le _
  | true =>
      obtain ⟨row, rows, hr, -⟩ := h.inSafeway hS
      rw [hr]
      rfl

theorem ItemVars.Sound.inWalmart_le {queries : List Query} {i : ℕ} {item : String} {v : ItemVars P}
    (h : v.Sound env queries i item) :
    v.inWalmart.toNat ≤ (!(env.rows (sql2 item)).isEmpty).toNat := by
  cases hW : v.inWalmart with
  | false => exact Nat.zero_le _
  | true =>
      obtain ⟨row, rows, hr, -⟩ := h.inWalmart hW
      rw [hr]
      rfl

/-- Timers that fire leave the queries in flight as they are. -/
theorem Query.Sound.of_timers_subset {list : List String} {s s' : State P} {q : Query}
    (h : q.Sound list s) (hv : s'.vars = s.vars) (ht : s'.timers ⊆ s.timers) : q.Sound list s' := by
  obtain ⟨kind, i, text⟩ := q
  cases kind with
  | safeway => exact ⟨h.1, hv ▸ h.2⟩
  | walmart => exact ⟨h.1, hv ▸ h.2⟩
  | similarWalmart => exact ⟨h.1, h.2.1, fun hi => h.2.2.1 (ht hi), hv ▸ h.2.2.2⟩
  | similarSafeway => exact ⟨h.1, h.2.1, fun hi => h.2.2.1 (ht hi), hv ▸ h.2.2.2⟩

/-- So does a row for an item, unless the query is one that waits for a row of that item. -/
theorem Query.Sound.of_update {list : List String} {s s' : State P} {q : Query} (h : q.Sound list s)
    {i : ℕ} {v : ItemVars P} (hv : s'.vars = Function.update s.vars i v)
    (ht : s'.timers = s.timers) (hs : (s.vars i).inSafeway = true → v.inSafeway = true)
    (hw : (s.vars i).inWalmart = true → v.inWalmart = true)
    (hsafeway : q.kind = .safeway → q.item = i → v.inSafeway = false)
    (hwalmart : q.kind = .walmart → q.item = i → v.inWalmart = false) : q.Sound list s' := by
  obtain ⟨kind, j, text⟩ := q
  have hvj : s'.vars j = if j = i then v else s.vars j := by rw [hv, Function.update_apply]
  cases kind with
  | safeway =>
      refine ⟨h.1, ?_⟩
      rw [hvj]
      split_ifs with hj
      · exact hsafeway rfl hj
      · exact h.2
  | walmart =>
      refine ⟨h.1, ?_⟩
      rw [hvj]
      split_ifs with hj
      · exact hwalmart rfl hj
      · exact h.2
  | similarWalmart =>
      refine ⟨h.1, h.2.1, ht ▸ h.2.2.1, ?_⟩
      rw [hvj]
      split_ifs with hj
      · exact hs (hj ▸ h.2.2.2)
      · exact h.2.2.2
  | similarSafeway =>
      refine ⟨h.1, h.2.1, ht ▸ h.2.2.1, ?_⟩
      rw [hvj]
      split_ifs with hj
      · exact hw (hj ▸ h.2.2.2)
      · exact h.2.2.2

namespace Sound

variable {env : Env P} {list : List String} {s : State P}

/-- Without its position, by what it asks. -/
theorem eq_safeway (h : Sound env list s) {i : ℕ} {text : String}
    (hq : ⟨.safeway, i, text⟩ ∈ s.queries) : ∃ item, list[i]? = some item ∧ text = sql1 item := by
  obtain ⟨item, hi, ht⟩ := Option.map_eq_some_iff.mp (h.query _ hq).1
  exact ⟨item, hi, ht.symm⟩

theorem eq_walmart (h : Sound env list s) {i : ℕ} {text : String}
    (hq : ⟨.walmart, i, text⟩ ∈ s.queries) : ∃ item, list[i]? = some item ∧ text = sql2 item := by
  obtain ⟨item, hi, ht⟩ := Option.map_eq_some_iff.mp (h.query _ hq).1
  exact ⟨item, hi, ht.symm⟩

/-- A query whose answer changes no variable leaves the rest of the invariant in place. -/
theorem vars_eraseIdx (h : Sound env list s) {k : ℕ} {q : Query} (hq : s.queries[k]? = some q)
    (hr : q.kind.isFirst = true → env.rows q.text = []) :
    ∀ i item, list[i]? = some item → (s.vars i).Sound env (s.queries.eraseIdx k) i item := by
  intro i item hi
  apply (h.vars i item hi).erase h.nodup hq
  · rintro rfl
    exact hr rfl
  · rintro rfl
    exact hr rfl

theorem of_answer {s' : State P} (h : Sound env list s) {k : ℕ} {q : Query}
    (hq : s.queries[k]? = some q) (hr : q.kind.isFirst = true → env.rows q.text = [])
    (hk : s'.queries = s.queries.eraseIdx k) (hv : s'.vars = s.vars) (ht : s'.timers = s.timers) :
    Sound env list s' where
  nodup := hk ▸ h.nodup.eraseIdx k
  timers := ht ▸ h.timers
  lt := ht ▸ h.lt
  query := by
    intro q' hq'
    rw [hk] at hq'
    exact (h.query q' (List.mem_of_mem_eraseIdx hq')).of_timers_subset hv (ht ▸ List.Subset.refl _)
  vars := by
    rw [hk, hv]
    exact h.vars_eraseIdx hq hr

theorem of_row {s' : State P} (h : Sound env list s) {k : ℕ} {q : Query} {v : ItemVars P}
    (hq : s.queries[k]? = some q) (hk : s'.queries = s.queries.eraseIdx k)
    (hv : s'.vars = Function.update s.vars q.item v) (ht : s'.timers = s.timers)
    (hqueries : ∀ q' ∈ s.queries, q' ≠ q → q'.Sound list s')
    (hitem : ∀ item, list[q.item]? = some item →
      v.Sound env (s.queries.eraseIdx k) q.item item) : Sound env list s' where
  nodup := hk ▸ h.nodup.eraseIdx k
  timers := ht ▸ h.timers
  lt := ht ▸ h.lt
  query := by
    intro q' hq'
    rw [hk] at hq'
    obtain ⟨hne, hq'⟩ := (mem_eraseIdx_iff h.nodup hq).mp hq'
    exact hqueries q' hq' hne
  vars := by
    intro j item hj
    rw [hk, hv]
    by_cases hji : j = q.item
    · subst hji
      rw [Function.update_self]
      exact hitem item hj
    · rw [Function.update_of_ne hji]
      apply (h.vars j item hj).erase h.nodup hq
      · rintro rfl
        exact absurd rfl hji
      · rintro rfl
        exact absurd rfl hji

/-- A timer that has fired may have issued a second query for its item. -/
theorem of_timer {s' : State P} (h : Sound env list s) {i : ℕ} (new : Option Query)
    (hnew : ∀ q ∈ new, q.Sound list s' ∧ q.kind.isFirst = false ∧ q.item ∈ s.timers)
    (hq : s'.queries = s.queries ++ new.toList) (hv : s'.vars = s.vars)
    (ht : s'.timers = s.timers.erase i) : Sound env list s' := by
  have hold : ∀ q ∈ s.queries, q.Sound list s' := fun q hm =>
    (h.query q hm).of_timers_subset hv (ht ▸ List.erase_subset)
  refine ⟨?_, ht ▸ h.timers.erase i, ?_, ?_, ?_⟩
  · rw [hq]
    cases new with
    | none => simpa using h.nodup
    | some q =>
        obtain ⟨-, hk, hi⟩ := hnew q rfl
        refine List.nodup_append.mpr ⟨h.nodup, List.nodup_singleton q, ?_⟩
        rintro q' hq' _ hm rfl
        rw [List.mem_singleton.mp hm] at hq'
        -- a second query in flight has no timer any more
        have hs := h.query q hq'
        obtain ⟨kind, j, text⟩ := q
        cases kind with
        | safeway => cases hk
        | walmart => cases hk
        | similarWalmart => exact hs.2.2.1 hi
        | similarSafeway => exact hs.2.2.1 hi
  · rw [ht]
    exact fun j hj => h.lt j (List.mem_of_mem_erase hj)
  · intro q hm
    rw [hq] at hm
    rcases List.mem_append.mp hm with hm | hm
    · exact hold q hm
    · exact (hnew q (Option.mem_toList.mp hm)).1
  · intro j item hj
    rw [hq, hv]
    cases new with
    | none => simpa using h.vars j item hj
    | some q => exact (h.vars j item hj).append q

end Sound

/-- **The invariant.**  Every callback keeps it, in whatever order they come. -/
theorem sound_step [Add P] [Price P] {env : Env P} {list : List String} {s s' : State P} {e : Event}
    (h : Sound env list s) (hstep : step env s e = some s') : Sound env list s' := by
  obtain ⟨heff, -⟩ := effect_of_step hstep
  cases heff with
  | failed hq hr => exact h.of_answer hq (fun _ => Env.rows_of_error hr) rfl rfl rfl
  | empty g hq hr => exact h.of_answer hq (fun _ => Env.rows_of_ok hr) rfl rfl rfl
  | similarWalmart g hq hr hm => exact h.of_answer hq nofun rfl rfl rfl
  | similarSafeway g hq hr hm => exact h.of_answer hq nofun rfl rfl rfl
  | @safeway k i text row rows hq hr =>
      have hmem := List.mem_of_getElem? hq
      obtain ⟨item, hi, rfl⟩ := h.eq_safeway hmem
      refine h.of_row hq rfl rfl rfl ?_ ?_
      · intro q' hq' hne
        refine (h.query q' hq').of_update rfl rfl (fun _ => rfl) id ?_ ?_
        · -- no other query asks for this item
          rintro hkind rfl
          obtain ⟨kind, j, text⟩ := q'
          obtain rfl : kind = .safeway := hkind
          obtain ⟨item', hi', rfl⟩ := h.eq_safeway hq'
          rw [Option.some.inj (hi'.symm.trans hi)] at hne
          exact absurd rfl hne
        · rintro hkind rfl
          obtain ⟨kind, j, text⟩ := q'
          obtain rfl : kind = .walmart := hkind
          exact (h.query _ hq').2
      · intro item' hi'
        obtain rfl := Option.some.inj (hi.symm.trans hi')
        have hold := h.vars i item hi
        refine ⟨fun _ => ⟨row, rows, Env.rows_of_ok hr, rfl, rfl⟩, hold.inWalmart, nofun, nofun, ?_⟩
        intro hf hne
        exact (mem_eraseIdx_iff h.nodup hq).mpr ⟨nofun, hold.walmart hf hne⟩
  | @walmart k i text row rows hq hr =>
      have hmem := List.mem_of_getElem? hq
      obtain ⟨item, hi, rfl⟩ := h.eq_walmart hmem
      refine h.of_row hq rfl rfl rfl ?_ ?_
      · intro q' hq' hne
        refine (h.query q' hq').of_update rfl rfl id (fun _ => rfl) ?_ ?_
        · rintro hkind rfl
          obtain ⟨kind, j, text⟩ := q'
          obtain rfl : kind = .safeway := hkind
          exact (h.query _ hq').2
        · rintro hkind rfl
          obtain ⟨kind, j, text⟩ := q'
          obtain rfl : kind = .walmart := hkind
          obtain ⟨item', hi', rfl⟩ := h.eq_walmart hq'
          rw [Option.some.inj (hi'.symm.trans hi)] at hne
          exact absurd rfl hne
      · intro item' hi'
        obtain rfl := Option.some.inj (hi.symm.trans hi')
        have hold := h.vars i item hi
        refine ⟨hold.inSafeway, fun _ => ⟨row, rows, Env.rows_of_ok hr, rfl, rfl⟩, hold.category, ?_,
          nofun⟩
        intro hf hne
        exact (mem_eraseIdx_iff h.nodup hq).mpr ⟨nofun, hold.safeway hf hne⟩
  | both ht hs hw => exact h.of_timer none nofun (List.append_nil _).symm rfl rfl
  | neither ht hs hw => exact h.of_timer none nofun (List.append_nil _).symm rfl rfl
  | @onlySafeway i ht hs hw =>
      refine h.of_timer (some ⟨.similarWalmart, i, sql3⟩) ?_ rfl rfl rfl
      rintro q ⟨⟩
      exact ⟨⟨rfl, h.lt i ht, h.timers.not_mem_erase, hs⟩, rfl, ht⟩
  | @onlyWalmart i ht hs hw =>
      refine h.of_timer (some ⟨.similarSafeway, i, sql4 (s.vars i).safewayCategory⟩) ?_ rfl rfl rfl
      rintro q ⟨⟩
      have hcat := (h.vars i _ (List.getElem?_eq_getElem (h.lt i ht))).category hs
      exact ⟨⟨by rw [hcat], h.lt i ht, h.timers.not_mem_erase, hw⟩, rfl, ht⟩
  | respond g sent thrown hr => exact ⟨h.nodup, h.timers, h.lt, h.query, h.vars⟩

end EasyGrocery.Server
