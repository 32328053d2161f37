import EasyGrocery.Server.Accounting
import EasyGrocery.Server.Totals

/-! # The comparison and its timers

The handler waits 500 ms for the queries of an item and 1000 ms before it responds, whatever the
database does.  A run has the result of a run in time iff it is in time itself
(`sameResult_iff`): a row that comes too late always shows. -/

namespace EasyGrocery.Server

open Guarded

variable {P : Type}

/-! ### Queries answered before their timers -/

/-- No query for the stores of an item is in flight when its timer fires. -/
def Answered (s : State P) : Event → Prop
  | .timer i => ∀ q ∈ s.queries, q.item = i → q.kind.isFirst = false
  | _ => True

instance (s : State P) : ∀ e, Decidable (Answered s e)
  | .timer i => inferInstanceAs (Decidable (∀ q ∈ s.queries, q.item = i → q.kind.isFirst = false))
  | .query _ => isTrue trivial
  | .respond => isTrue trivial

/-- Every callback of a query runs before the timer that reads its result. -/
structure Timely [AddCommMonoid P] [Price P] (env : Env P) (g : Globals P) (list : List String)
    (es : List Event) (t : State P) : Prop where
  first : EachStep (step env) Answered (.start g list) es
  second : t.queries = []

theorem Timely.inTime [AddCommMonoid P] [Price P] {env : Env P} {g : Globals P} {list : List String}
    {es : List Event} {t : State P} (h : Timely env g list es t) : InTime env g list es t where
  timers := by
    apply h.first.mono
    intro s e ha
    cases e with
    | query k => trivial
    | respond => trivial
    | timer i =>
        intro q hq hi hfirst
        rw [ha q hq hi] at hfirst
        cases hfirst
  response := by
    rw [NothingDue, h.second]
    nofun

/-- The result of a run, computed. -/
theorem exists_responds [AddCommMonoid P] [Price P] (env : Env P) (list : List String)
    (es : List Event) {α : Type*} (f : State P → α) (a : α)
    (h : (run (step env) (.start .init list) es).map
        (fun t => (t.timers, t.responding, t.thrown, f t)) = some ([], true, none, a)) :
    ∃ t, Responds env .init list es t ∧ f t = a := by
  obtain ⟨t, ht, hv⟩ := Option.map_eq_some_iff.mp h
  simp only [Prod.mk.injEq] at hv
  exact ⟨t, ⟨ht, hv.1, hv.2.1, hv.2.2.1⟩, hv.2.2.2⟩

/-! ### The same result -/

/-- The same totals and unknown counts, and the same items for each store, in any order. -/
structure SameResult (a b : Info P) : Prop where
  sPrice : a.sPrice = b.sPrice
  sItems : (a.sList.map Entry.value).Perm (b.sList.map Entry.value)
  sUnk : a.sUnk = b.sUnk
  wPrice : a.wPrice = b.wPrice
  wItems : (a.wList.map Entry.value).Perm (b.wList.map Entry.value)
  wUnk : a.wUnk = b.wUnk

theorem sameResult_iff_tally {a b : Info P} : SameResult a b ↔ a.tally = b.tally := by
  simp only [Info.tally, storeTally, Prod.mk.injEq, Multiset.coe_eq_coe]
  constructor
  · rintro ⟨h₁, h₂, h₃, h₄, h₅, h₆⟩
    exact ⟨⟨h₁, h₂, h₃⟩, h₄, h₅, h₆⟩
  · rintro ⟨⟨h₁, h₂, h₃⟩, h₄, h₅, h₆⟩
    exact ⟨h₁, h₂, h₃, h₄, h₅, h₆⟩

/-- **The result depends on the database's timing, exactly so.**  Against any run in time for the
same items, whatever the order of the callbacks. -/
theorem sameResult_iff [AddCommMonoid P] [Price P] {env : Env P} {list : List String}
    {g g' : Globals P} {es fs : List Event} {t u : State P} (ht : Responds env g list es t)
    (hu : Responds env g' list fs u) (hin : InTime env g' list fs u) :
    SameResult t.info u.info ↔ InTime env g list es t := by
  rw [sameResult_iff_tally, (tally_eq_due_iff hu).mpr hin]
  exact tally_eq_due_iff ht

/-! ### A slow database -/

theorem milk_late : ∃ t, Responds milkEnv .init ["milk"] [.timer 0] t ∧ t.info.sUnk = 1 :=
  exists_responds milkEnv ["milk"] [.timer 0] (fun t => t.info.sUnk) 1 (by decide +kernel)

theorem milk_inTime : ∃ t, Responds milkEnv .init ["milk"] [.query 0, .query 0, .timer 0] t ∧
    InTime milkEnv .init ["milk"] [.query 0, .query 0, .timer 0] t ∧ t.info.sUnk = 0 := by
  obtain ⟨t, ht, hv⟩ := exists_responds milkEnv ["milk"] [.query 0, .query 0, .timer 0]
    (fun t => (t.queries, t.info.sUnk)) ([], 0) (by decide +kernel)
  obtain ⟨hq, hn⟩ := Prod.mk.inj hv
  exact ⟨t, ht, Timely.inTime ⟨by decide +kernel, hq⟩, hn⟩

theorem sameResult_iff_milk :
    ∃ t u, Responds milkEnv .init ["milk"] [.timer 0] t ∧
      Responds milkEnv .init ["milk"] [.query 0, .query 0, .timer 0] u ∧
      (SameResult t.info u.info ↔ InTime milkEnv .init ["milk"] [.timer 0] t) := by
  obtain ⟨t, ht, -⟩ := milk_late
  obtain ⟨u, hu, hin, -⟩ := milk_inTime
  exact ⟨t, u, ht, hu, sameResult_iff ht hu hin⟩

/-- The queries complete in the order they were issued, and the timers of the items fire in
theirs. -/
structure InOrder (list : List String) (es : List Event) : Prop where
  queries : ∀ k, Event.query k ∈ es → k = 0
  timers : es.filterMap (fun e => match e with | .timer i => some i | _ => none) =
    List.range list.length

/-- The same result for every schedule that the timers and the connection allow. -/
def TimingFree : Prop :=
  ∀ (env : Env Decimal) (list : List String) (g g' : Globals Decimal) (es fs : List Event)
    (t u : State Decimal), (∀ text, ∃ rows, env.query text = .ok rows) →
      InOrder list es → InOrder list fs → Responds env g list es t → Responds env g' list fs u →
      SameResult t.info u.info

/-- Milk is unknown when its timer comes before the answers. -/
theorem not_timingFree : ¬ TimingFree := by
  intro h
  obtain ⟨t, ht, hone⟩ := milk_late
  obtain ⟨u, hu, -, hzero⟩ := milk_inTime
  have hsame := h milkEnv ["milk"] .init .init _ _ t u (fun _ => ⟨_, rfl⟩) ⟨by simp, rfl⟩
    ⟨by simp, rfl⟩ ht hu
  have hunk := hsame.sUnk
  rw [hone, hzero] at hunk
  cases hunk

end EasyGrocery.Server
