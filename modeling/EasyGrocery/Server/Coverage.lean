import EasyGrocery.Server.Timing

/-! # Items accounted for

When every query is answered before its timer, each item is listed or counted as unknown in each
store, once, except where no substitute is found for it: it is then neither
(`noneDisappears_iff`).  The substitute for an item that Safeway does not sell is searched in the
empty category. -/

namespace EasyGrocery.Server

open Guarded

variable {P : Type}

/-- Each item is listed or counted as unknown, in each store. -/
structure NoneDisappears (list : List String) (info : Info P) : Prop where
  safeway : info.sList.length + info.sUnk = list.length
  walmart : info.wList.length + info.wUnk = list.length

/-- An item found in one store only has a substitute in the other: for Safeway that is any row
without a category, for Walmart any row at all. -/
structure SubstitutesFound (env : Env P) (list : List String) : Prop where
  safeway : ∀ item ∈ list, env.rows (sql1 item) = [] → env.rows (sql2 item) ≠ [] →
    env.rows (sql4 "") ≠ []
  walmart : ∀ item ∈ list, env.rows (sql1 item) ≠ [] → env.rows (sql2 item) = [] →
    env.rows sql3 ≠ []

/-- Items count once each, except those that need a substitute and find none. -/
theorem sum_count_eq_length_iff {count : String → ℕ} {needs : String → Prop} [DecidablePred needs]
    {rows : List (Row P)}
    (hcount : ∀ item, count item = if needs item then (!rows.isEmpty).toNat else 1)
    (list : List String) :
    (list.map count).sum = list.length ↔ ∀ item ∈ list, needs item → rows ≠ [] := by
  have hle (item : String) : count item ≤ 1 := by
    rw [hcount]
    split_ifs
    · exact Bool.toNat_le _
    · exact le_rfl
  have hone (item : String) : count item = 1 ↔ (needs item → rows ≠ []) := by
    rw [hcount]
    by_cases hn : needs item <;> cases rows <;> simp [hn]
  induction list with
  | nil => simp
  | cons item list ih =>
      have hrest : (list.map count).sum ≤ list.length := by
        simpa using List.sum_le_card_nsmul (list.map count) 1 (by simpa using fun a _ => hle a)
      have hitem := hle item
      rw [List.map_cons, List.sum_cons, List.length_cons, List.forall_mem_cons, ← hone]
      constructor
      · intro h
        exact ⟨by omega, ih.mp (by omega)⟩
      · rintro ⟨h₁, h₂⟩
        have hlen := ih.mpr h₂
        omega

theorem map_sum_dueItem [AddCommMonoid P] (env : Env P) (list : List String) (f : Tally P →+ ℕ) :
    f (list.map (dueItem env)).sum = (list.map fun item => f (dueItem env item)).sum := by
  rw [map_list_sum, List.map_map]
  rfl

section count

variable [AddCommMonoid P] {env : Env P} {list : List String} {info : Info P}

theorem count_storeTally (total : P) (entries : List (Entry P)) (unknown : ℕ) :
    (storeTally total entries unknown).count = entries.length + unknown :=
  congrArg (· + unknown) (List.length_map Entry.value)

theorem count_safeway_iff (h : info.tally = (list.map (dueItem env)).sum) :
    info.sList.length + info.sUnk = list.length ↔
      ∀ item ∈ list, env.rows (sql1 item) = [] → env.rows (sql2 item) ≠ [] →
        env.rows (sql4 "") ≠ [] := by
  have hsum : info.sList.length + info.sUnk = (list.map fun item => (dueItem env item).1.count).sum := by
    rw [← count_storeTally info.sPrice]
    exact (congrArg (fun d : Tally P => d.1.count) h).trans
      (map_sum_dueItem env list (StoreTally.count.comp (AddMonoidHom.fst _ _)))
  rw [hsum, sum_count_eq_length_iff count_dueItem_safeway]
  simp only [and_imp]

theorem count_walmart_iff (h : info.tally = (list.map (dueItem env)).sum) :
    info.wList.length + info.wUnk = list.length ↔
      ∀ item ∈ list, env.rows (sql1 item) ≠ [] → env.rows (sql2 item) = [] →
        env.rows sql3 ≠ [] := by
  have hsum : info.wList.length + info.wUnk = (list.map fun item => (dueItem env item).2.count).sum := by
    rw [← count_storeTally info.wPrice]
    exact (congrArg (fun d : Tally P => d.2.count) h).trans
      (map_sum_dueItem env list (StoreTally.count.comp (AddMonoidHom.snd _ _)))
  rw [hsum, sum_count_eq_length_iff count_dueItem_walmart]
  simp only [and_imp]

/-- **No item disappears, exactly when substitutes are found.**  For every run whose callbacks
come before their timers, in whatever order. -/
theorem noneDisappears_iff [Price P] {g : Globals P} {es : List Event} {t : State P}
    (h : Responds env g list es t) (ht : Timely env g list es t) :
    NoneDisappears list t.info ↔ SubstitutesFound env list := by
  have htally := (tally_eq_due_iff h).mpr ht.inTime
  constructor
  · intro hn
    exact ⟨(count_safeway_iff htally).mp hn.safeway, (count_walmart_iff htally).mp hn.walmart⟩
  · intro hf
    exact ⟨(count_safeway_iff htally).mpr hf.safeway, (count_walmart_iff htally).mpr hf.walmart⟩

end count

/-! ### An item that Safeway does not sell -/

def cocoa : Row Decimal := ⟨"cocoa", ⟨349, 2⟩, "Baking"⟩

/-- Walmart sells cocoa, Safeway does not; none of Safeway's rows has an empty category. -/
def cocoaEnv : Env Decimal where
  toLowerCase := id
  query text := .ok (if text ∈ [sql2 "cocoa", sql3] then [cocoa] else [])

/-- All callbacks, in order. -/
def cocoaRun : List Event := [.query 0, .query 0, .timer 0, .query 0]

theorem cocoa_timely : ∃ t, Responds cocoaEnv .init ["cocoa"] cocoaRun t ∧
    Timely cocoaEnv .init ["cocoa"] cocoaRun t ∧ t.info.sList.length + t.info.sUnk = 0 := by
  obtain ⟨t, ht, hv⟩ := exists_responds cocoaEnv ["cocoa"] cocoaRun
    (fun t => (t.queries, t.info.sList.length + t.info.sUnk)) ([], 0) (by decide +kernel)
  obtain ⟨hq, hn⟩ := Prod.mk.inj hv
  exact ⟨t, ht, ⟨by decide +kernel, hq⟩, hn⟩

theorem noneDisappears_iff_cocoa : ∃ t, Responds cocoaEnv .init ["cocoa"] cocoaRun t ∧
    (NoneDisappears ["cocoa"] t.info ↔ SubstitutesFound cocoaEnv ["cocoa"]) := by
  obtain ⟨t, ht, htimely, -⟩ := cocoa_timely
  exact ⟨t, ht, noneDisappears_iff ht htimely⟩

/-- Every item accounted for, as a property of every comparison. -/
def NoneEverDisappears : Prop :=
  ∀ (env : Env Decimal) (list : List String) (g : Globals Decimal) (es : List Event)
    (t : State Decimal), (∀ text, ∃ rows, env.query text = .ok rows) → Responds env g list es t →
      Timely env g list es t → NoneDisappears list t.info

/-- Cocoa has no entry for Safeway, and is not counted as unknown there. -/
theorem not_noneEverDisappears : ¬ NoneEverDisappears := by
  intro h
  obtain ⟨t, ht, htimely, hcount⟩ := cocoa_timely
  have hone := (h cocoaEnv ["cocoa"] .init cocoaRun t (fun _ => ⟨_, rfl⟩) ht htimely).safeway
  rw [hcount] at hone
  cases hone

end EasyGrocery.Server
