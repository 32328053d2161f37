import EasyGrocery.Server.Timing

/-! # Comparing is additive

In a run in which every query is answered before its timer, the comparison is what its items are
due, one by one.  So the comparison of two lists together is the combination of their
comparisons, and the order of the request does not matter (`comparison_additive`); every list has
such a run when no query fails (`exists_timely`). -/

namespace EasyGrocery.Server

open Guarded

variable {P : Type}

/-! ### Combining two comparisons -/

/-- `c` has the totals and counts of `a` and `b` added, and for each store the items of both. -/
structure Combines [Add P] (a b c : Info P) : Prop where
  sPrice : c.sPrice = a.sPrice + b.sPrice
  sItems : (c.sList.map Entry.value).Perm (a.sList.map Entry.value ++ b.sList.map Entry.value)
  sUnk : c.sUnk = a.sUnk + b.sUnk
  wPrice : c.wPrice = a.wPrice + b.wPrice
  wItems : (c.wList.map Entry.value).Perm (a.wList.map Entry.value ++ b.wList.map Entry.value)
  wUnk : c.wUnk = a.wUnk + b.wUnk

variable [AddCommMonoid P]

theorem combines_of_tally {a b c : Info P} (h : c.tally = a.tally + b.tally) : Combines a b c := by
  simp only [Info.tally, storeTally, Prod.mk_add_mk, Prod.mk.injEq, Multiset.coe_add,
    Multiset.coe_eq_coe] at h
  obtain ⟨⟨h₁, h₂, h₃⟩, h₄, h₅, h₆⟩ := h
  exact ⟨h₁, h₂, h₃, h₄, h₅, h₆⟩

variable [Price P]

/-- **Comparing is additive over the list.**  For timely runs, each in an order and from a state
of the process of its own: the comparison of both lists together combines theirs, and a
permuted request has the same result. -/
theorem comparison_additive {env : Env P} {l₁ l₂ : List String} {g₁ g₂ g : Globals P}
    {es₁ es₂ es : List Event} {t₁ t₂ t : State P}
    (h₁ : Responds env g₁ l₁ es₁ t₁) (ht₁ : Timely env g₁ l₁ es₁ t₁)
    (h₂ : Responds env g₂ l₂ es₂ t₂) (ht₂ : Timely env g₂ l₂ es₂ t₂)
    (h : Responds env g (l₁ ++ l₂) es t) (ht : Timely env g (l₁ ++ l₂) es t) :
    Combines t₁.info t₂.info t.info ∧
      ∀ (l : List String) (g' : Globals P) (fs : List Event) (u : State P),
        l.Perm (l₁ ++ l₂) → Responds env g' l fs u → Timely env g' l fs u →
          SameResult u.info t.info := by
  have htally := (tally_eq_due_iff h).mpr ht.inTime
  constructor
  · apply combines_of_tally
    rw [htally, (tally_eq_due_iff h₁).mpr ht₁.inTime, (tally_eq_due_iff h₂).mpr ht₂.inTime,
      List.map_append, List.sum_append]
  · intro l g' fs u hl hu htu
    rw [sameResult_iff_tally, htally, (tally_eq_due_iff hu).mpr htu.inTime]
    exact (hl.map _).sum_eq

/-! ### A timely run of every request -/

section exists_timely

variable {env : Env P}

/-- The state after a callback at the head of the queue, when no query fails. -/
theorem exists_step_query (hq : ∀ text, ∃ rows, env.query text = .ok rows) {s : State P}
    (ht : s.thrown = none) (hne : s.queries ≠ []) :
    ∃ s', step env s (.query 0) = some s' ∧ s'.queries = s.queries.tail ∧
      s'.timers = s.timers ∧ s'.responding = s.responding ∧ s'.thrown = none := by
  obtain ⟨q, qs, hqs⟩ := List.exists_cons_of_ne_nil hne
  have h0 : s.queries[0]? = some q := by rw [hqs]; rfl
  have hstep : step env s (.query 0) =
      some ({ s with queries := s.queries.eraseIdx 0 }.onQuery env q (env.query q.text)) := by
    simp [step, ht, h0]
  have htail : s.queries.eraseIdx 0 = s.queries.tail := List.eraseIdx_zero
  refine ⟨_, hstep, ?_⟩
  generalize ({ s with queries := s.queries.eraseIdx 0 }.onQuery env q (env.query q.text)) = s'
    at hstep ⊢
  obtain ⟨heff, -⟩ := effect_of_step hstep
  cases heff with
  | @failed k q err hk hr =>
      obtain ⟨rows, hrows⟩ := hq q.text
      rw [hrows] at hr
      cases hr
  | empty g hk hr => exact ⟨htail, rfl, rfl, ht⟩
  | safeway hk hr => exact ⟨htail, rfl, rfl, ht⟩
  | walmart hk hr => exact ⟨htail, rfl, rfl, ht⟩
  | similarWalmart g hk hr hm => exact ⟨htail, rfl, rfl, ht⟩
  | similarSafeway g hk hr hm => exact ⟨htail, rfl, rfl, ht⟩

/-- All queries in flight can be answered, in order. -/
theorem exists_drain (hq : ∀ text, ∃ rows, env.query text = .ok rows) {s : State P}
    (ht : s.thrown = none) :
    ∃ es t, run (step env) s es = some t ∧ EachStep (step env) Answered s es ∧ t.queries = [] ∧
      t.timers = s.timers ∧ t.responding = s.responding ∧ t.thrown = none := by
  induction hn : s.queries.length generalizing s with
  | zero => exact ⟨[], s, rfl, trivial, List.eq_nil_of_length_eq_zero hn, rfl, rfl, ht⟩
  | succ n ih =>
      have hne : s.queries ≠ [] := List.ne_nil_of_length_eq_add_one hn
      obtain ⟨s', hs, hqs, htm, hresp, ht'⟩ := exists_step_query hq ht hne
      obtain ⟨es, t, hrun, hans, hnil, htm', hresp', ht''⟩ :=
        ih ht' (by rw [hqs, List.length_tail, hn]; rfl)
      refine ⟨.query 0 :: es, t, (run_cons_of_eq hs es).trans hrun, ?_, hnil, htm'.trans htm,
        hresp'.trans hresp, ht''⟩
      intro s'' hs''
      obtain rfl := Option.some.inj (hs.symm.trans hs'')
      exact ⟨trivial, hans⟩

/-- With the first queries answered, the timers of all items can fire. -/
theorem exists_timers (env : Env P) {s : State P} (ht : s.thrown = none)
    (hfirst : ∀ q ∈ s.queries, q.kind.isFirst = false) :
    ∃ es t, run (step env) s es = some t ∧ EachStep (step env) Answered s es ∧ t.timers = [] ∧
      t.responding = s.responding ∧ t.thrown = none := by
  induction hn : s.timers generalizing s with
  | nil => exact ⟨[], s, rfl, trivial, hn, rfl, ht⟩
  | cons i timers ih =>
      have hi : i ∈ s.timers := by rw [hn]; exact List.mem_cons_self
      have hstep : step env s (.timer i) = some ({ s with timers := s.timers.erase i }.onTimer i) := by
        simp [step, ht, hi]
      have hs' : ∃ s', step env s (.timer i) = some s' ∧
          (∀ q ∈ s'.queries, q.kind.isFirst = false) ∧ s'.timers = timers ∧
          s'.responding = s.responding ∧ s'.thrown = none := by
        have herase : s.timers.erase i = timers := by rw [hn, List.erase_cons_head]
        refine ⟨_, hstep, ?_⟩
        generalize ({ s with timers := s.timers.erase i }.onTimer i) = s' at hstep ⊢
        obtain ⟨heff, -⟩ := effect_of_step hstep
        cases heff with
        | both _ hs hw => exact ⟨hfirst, herase, rfl, ht⟩
        | neither _ hs hw => exact ⟨hfirst, herase, rfl, ht⟩
        | onlySafeway _ hs hw =>
            refine ⟨List.forall_mem_append.mpr ⟨hfirst, ?_⟩, herase, rfl, ht⟩
            exact List.forall_mem_singleton.mpr rfl
        | onlyWalmart _ hs hw =>
            refine ⟨List.forall_mem_append.mpr ⟨hfirst, ?_⟩, herase, rfl, ht⟩
            exact List.forall_mem_singleton.mpr rfl
      obtain ⟨s', hs, hfirst', htm, hresp, ht'⟩ := hs'
      obtain ⟨es, t, hrun, hans, hnil, hresp', ht''⟩ := ih ht' hfirst' htm
      refine ⟨.timer i :: es, t, (run_cons_of_eq hs es).trans hrun, ?_, hnil, hresp'.trans hresp, ht''⟩
      intro s'' hs''
      obtain rfl := Option.some.inj (hs.symm.trans hs'')
      exact ⟨fun q hq _ => hfirst q hq, hans⟩

/-- **Every request has a timely run**, when no query fails: first all answers, then the timers,
then the answers to the second queries. -/
theorem exists_timely (hq : ∀ text, ∃ rows, env.query text = .ok rows) (g : Globals P)
    (list : List String) :
    ∃ es t, Responds env g list es t ∧ Timely env g list es t := by
  obtain ⟨es₁, t₁, hrun₁, hans₁, hnil₁, htm₁, hresp₁, ht₁⟩ :=
    exists_drain hq (s := State.start g list) rfl
  obtain ⟨es₂, t₂, hrun₂, hans₂, htm₂, hresp₂, ht₂⟩ :=
    exists_timers env ht₁ (by rw [hnil₁]; nofun)
  obtain ⟨es₃, t₃, hrun₃, hans₃, hnil₃, htm₃, hresp₃, ht₃⟩ := exists_drain hq ht₂
  have hrun : run (step env) (.start g list) (es₁ ++ (es₂ ++ es₃)) = some t₃ := by
    rw [run_append, hrun₁, Option.bind_some, run_append, hrun₂]
    exact hrun₃
  have hans : EachStep (step env) Answered (.start g list) (es₁ ++ (es₂ ++ es₃)) := by
    apply hans₁.append
    intro s hs
    obtain rfl := Option.some.inj (hrun₁.symm.trans hs)
    apply hans₂.append
    intro s hs
    obtain rfl := Option.some.inj (hrun₂.symm.trans hs)
    exact hans₃
  exact ⟨_, t₃, ⟨hrun, htm₃.trans htm₂, hresp₃.trans (hresp₂.trans hresp₁), ht₃⟩, hans, hnil₃⟩

end exists_timely

/-- Milk, which both stores sell, and eggs, which neither does. -/
theorem comparison_additive_milk :
    ∃ (es₁ es₂ es : List Event) (t₁ t₂ t : State Decimal),
      Responds milkEnv .init ["milk"] es₁ t₁ ∧ Responds milkEnv .init ["eggs"] es₂ t₂ ∧
      Responds milkEnv .init (["milk"] ++ ["eggs"]) es t ∧ Combines t₁.info t₂.info t.info ∧
      ∀ (l : List String) (g' : Globals Decimal) (fs : List Event) (u : State Decimal),
        l.Perm (["milk"] ++ ["eggs"]) → Responds milkEnv g' l fs u → Timely milkEnv g' l fs u →
          SameResult u.info t.info := by
  have hq : ∀ text, ∃ rows, milkEnv.query text = .ok rows := fun _ => ⟨_, rfl⟩
  obtain ⟨es₁, t₁, h₁, ht₁⟩ := exists_timely hq .init ["milk"]
  obtain ⟨es₂, t₂, h₂, ht₂⟩ := exists_timely hq .init ["eggs"]
  obtain ⟨es, t, h, ht⟩ := exists_timely hq .init (["milk"] ++ ["eggs"])
  exact ⟨es₁, es₂, es, t₁, t₂, t, h₁, h₂, h, comparison_additive h₁ ht₁ h₂ ht₂ h ht⟩

end EasyGrocery.Server
