import Mathlib.Algebra.Order.Monoid.Defs
import Mathlib.Data.List.Infix

/-! # Guarded step functions

A machine is a function `step : σ → ε → Option σ`: `step s e` is the state after the event
`e`, or `none` when `e` is not enabled in `s`.  A run is a list of events.

* `EachStep P` says that `P` holds of every state and event at which the run takes a step;
  it is how a condition *on a schedule* is written.
* `EachState Q` says that `Q` holds of every state the run passes through.
* `eachState_of_inv` is the invariant rule under such a condition, and `eachState_iff` its
  exact form: when every step that breaks the condition also breaks `Q`, the runs that keep
  `Q` throughout are precisely the runs that keep the condition.
* `eachState_of_last` turns a property that no step restores into one of every state before.
* `eq_of_run` and `eachStep_of_potential` are for damage that shows only at the end: a quantity
  that the condition keeps constant, and a potential that never falls and rises whenever the
  condition is missed, so that a run at whose end it has not risen met the condition throughout.
* `taken_le_of_run` bounds what the steps of a run take from a stock.
* `refines_iff` is the same for a refinement: `abs` maps states to an abstract state, `upd`
  is what an event means there. -/

namespace Guarded

variable {σ ε α : Type*} (step : σ → ε → Option σ)

/-- Run a list of events; `none` as soon as one of them is not enabled. -/
def run : σ → List ε → Option σ
  | s, [] => some s
  | s, e :: es => (step s e).bind fun s' => run s' es

/-- `P` holds of every state and event at which the run takes a step. -/
def EachStep (P : σ → ε → Prop) : σ → List ε → Prop
  | _, [] => True
  | s, e :: es => ∀ s', step s e = some s' → P s e ∧ EachStep P s' es

/-- `Q` holds of the start state and of every state the run passes through. -/
def EachState (Q : σ → Prop) : σ → List ε → Prop
  | s, [] => Q s
  | s, e :: es => Q s ∧ ∀ s', step s e = some s' → EachState Q s' es

variable {step}

/-- A condition on the steps of a run can be computed. -/
instance decidableEachStep {P : σ → ε → Prop} [∀ s e, Decidable (P s e)] :
    ∀ s es, Decidable (EachStep step P s es)
  | _, [] => isTrue trivial
  | s, e :: es => match h : step s e with
      | none => isTrue fun _ hs => absurd (h.symm.trans hs) nofun
      | some s' =>
          have := decidableEachStep (P := P) s' es
          decidable_of_iff (P s e ∧ EachStep step P s' es)
            ⟨fun hp _ hs => Option.some.inj (h.symm.trans hs) ▸ hp, fun hp => hp s' h⟩

@[simp] theorem run_nil (s : σ) : run step s [] = some s := rfl

theorem run_cons (s : σ) (e : ε) (es : List ε) :
    run step s (e :: es) = (step s e).bind fun s' => run step s' es := rfl

theorem run_cons_of_eq {s s' : σ} {e : ε} (h : step s e = some s') (es : List ε) :
    run step s (e :: es) = run step s' es := by
  rw [run_cons, h]; rfl

theorem run_append (s : σ) (es fs : List ε) :
    run step s (es ++ fs) = (run step s es).bind fun t => run step t fs := by
  induction es generalizing s with
  | nil => rfl
  | cons e es ih =>
      rw [List.cons_append, run_cons, run_cons]
      cases step s e with
      | none => rfl
      | some s' => exact ih s'

theorem run_cons_eq_some {s t : σ} {e : ε} {es : List ε} :
    run step s (e :: es) = some t ↔ ∃ s', step s e = some s' ∧ run step s' es = some t := by
  rw [run_cons, Option.bind_eq_some_iff]

/-! ### States along a run -/

theorem EachState.head {Q : σ → Prop} {s : σ} {es : List ε} (h : EachState step Q s es) : Q s := by
  cases es with
  | nil => exact h
  | cons e es => exact h.1

/-- The states of a run are the end states of its prefixes. -/
theorem eachState_iff_prefix {Q : σ → Prop} {s : σ} {es : List ε} :
    EachState step Q s es ↔ ∀ p t, p <+: es → run step s p = some t → Q t := by
  induction es generalizing s with
  | nil =>
      constructor
      · intro h p t hp ht
        rw [List.prefix_nil.mp hp] at ht
        obtain rfl := Option.some.inj ht
        exact h
      · intro h
        exact h [] s List.prefix_rfl rfl
  | cons e es ih =>
      constructor
      · rintro ⟨h₀, h⟩ p t hp ht
        cases p with
        | nil =>
            obtain rfl := Option.some.inj ht
            exact h₀
        | cons e' p =>
            obtain ⟨rfl, hp'⟩ := List.cons_prefix_cons.mp hp
            obtain ⟨s', hs, ht⟩ := run_cons_eq_some.mp ht
            exact ih.mp (h s' hs) p t hp' ht
      · intro h
        refine ⟨h [] s List.nil_prefix rfl, fun s' hs => ih.mpr fun p t hp ht => ?_⟩
        exact h (e :: p) t (List.cons_prefix_cons.mpr ⟨rfl, hp⟩) (run_cons_eq_some.mpr ⟨s', hs, ht⟩)

theorem EachState.last {Q : σ → Prop} {s t : σ} {es : List ε} (h : EachState step Q s es)
    (ht : run step s es = some t) : Q t :=
  eachState_iff_prefix.mp h es t List.prefix_rfl ht

theorem EachStep.mono {P P' : σ → ε → Prop} (h : ∀ s e, P s e → P' s e) :
    ∀ {s : σ} {es : List ε}, EachStep step P s es → EachStep step P' s es
  | _, [], _ => trivial
  | _, _ :: _, hp => fun s' hs => ⟨h _ _ (hp s' hs).1, EachStep.mono h (hp s' hs).2⟩

theorem EachStep.of_forall {P : σ → ε → Prop} (h : ∀ s e, P s e) :
    ∀ (s : σ) (es : List ε), EachStep step P s es
  | _, [] => trivial
  | _, _ :: es => fun s' _ => ⟨h _ _, EachStep.of_forall h s' es⟩

theorem EachStep.append {P : σ → ε → Prop} {s : σ} {es fs : List ε} (h : EachStep step P s es)
    (h' : ∀ t, run step s es = some t → EachStep step P t fs) : EachStep step P s (es ++ fs) := by
  induction es generalizing s with
  | nil => exact h' s rfl
  | cons e es ih =>
      intro s' hs
      exact ⟨(h s' hs).1, ih (h s' hs).2 fun t ht => h' t ((run_cons_of_eq hs es).trans ht)⟩

/-- The rest of a run meets the condition of the whole. -/
theorem EachStep.of_append {P : σ → ε → Prop} {s t : σ} {es fs : List ε}
    (h : EachStep step P s (es ++ fs)) (ht : run step s es = some t) : EachStep step P t fs := by
  induction es generalizing s with
  | nil => exact Option.some.inj ht ▸ h
  | cons e es ih =>
      obtain ⟨s', hs, ht⟩ := run_cons_eq_some.mp ht
      exact ih (h s' hs).2 ht

/-- A condition that every step from the invariant meets, whatever the event, holds of the
whole run. -/
theorem eachStep_of_inv (Inv : σ → Prop) {P P' : σ → ε → Prop}
    (hstep : ∀ s e s', Inv s → P s e → step s e = some s' → Inv s')
    (hP : ∀ s e s', Inv s → P s e → step s e = some s' → P' s e) :
    ∀ {s : σ} {es : List ε}, Inv s → EachStep step P s es → EachStep step P' s es
  | _, [], _, _ => trivial
  | _, _ :: _, hi, hp => fun s' hs =>
      ⟨hP _ _ s' hi (hp s' hs).1 hs,
        eachStep_of_inv Inv hstep hP (hstep _ _ s' hi (hp s' hs).1 hs) (hp s' hs).2⟩

/-- **Invariant rule.**  What holds at the start and is kept by every step meeting the
condition holds of every state of a run whose steps all meet it. -/
theorem eachState_of_inv (Inv : σ → Prop) {Q : σ → Prop} {P : σ → ε → Prop}
    (hstep : ∀ s e s', Inv s → P s e → step s e = some s' → Inv s') (hQ : ∀ s, Inv s → Q s) :
    ∀ {s : σ} {es : List ε}, Inv s → EachStep step P s es → EachState step Q s es
  | _, [], hi, _ => hQ _ hi
  | _, _ :: _, hi, hp => ⟨hQ _ hi, fun s' hs =>
      eachState_of_inv Inv hstep hQ (hstep _ _ s' hi (hp s' hs).1 hs) (hp s' hs).2⟩

/-- **Exact invariant rule.**  If moreover every step that misses the condition leaves `Q`,
then the runs that stay in `Q` are the runs whose steps all meet the condition. -/
theorem eachState_iff (Inv : σ → Prop) {Q : σ → Prop} {P : σ → ε → Prop}
    (hstep : ∀ s e s', Inv s → P s e → step s e = some s' → Inv s') (hQ : ∀ s, Inv s → Q s)
    (hbad : ∀ s e s', Inv s → ¬ P s e → step s e = some s' → ¬ Q s')
    {s : σ} {es : List ε} (hi : Inv s) : EachState step Q s es ↔ EachStep step P s es := by
  refine ⟨fun h => ?_, eachState_of_inv Inv hstep hQ hi⟩
  induction es generalizing s with
  | nil => trivial
  | cons e es ih =>
      intro s' hs
      have hP : P s e := by
        by_contra hn
        exact hbad s e s' hi hn hs (h.2 s' hs).head
      exact ⟨hP, ih (hstep s e s' hi hP hs) (h.2 s' hs)⟩

theorem inv_of_run (Inv : σ → Prop) (hstep : ∀ s e s', Inv s → step s e = some s' → Inv s')
    {s t : σ} {es : List ε} (hi : Inv s) (ht : run step s es = some t) : Inv t := by
  induction es generalizing s with
  | nil => exact Option.some.inj ht ▸ hi
  | cons e es ih =>
      obtain ⟨s', hs, ht⟩ := run_cons_eq_some.mp ht
      exact ih (hstep s e s' hi hs) ht

/-! ### Quantities along a run -/

theorem eq_of_run (Inv : σ → Prop) {P : σ → ε → Prop} {f : σ → α}
    (hinv : ∀ s e s', Inv s → step s e = some s' → Inv s')
    (hf : ∀ s e s', Inv s → P s e → step s e = some s' → f s' = f s)
    {s t : σ} {es : List ε} (hi : Inv s) (hp : EachStep step P s es) (ht : run step s es = some t) :
    f t = f s := by
  induction es generalizing s with
  | nil => rw [Option.some.inj ht]
  | cons e es ih =>
      obtain ⟨s', hs, ht⟩ := run_cons_eq_some.mp ht
      obtain ⟨hP, hp⟩ := hp s' hs
      rw [ih (hinv s e s' hi hs) hp ht, hf s e s' hi hP hs]

theorem le_of_run [Preorder α] (Inv : σ → Prop) {f : σ → α}
    (hinv : ∀ s e s', Inv s → step s e = some s' → Inv s')
    (hle : ∀ s e s', Inv s → step s e = some s' → f s ≤ f s')
    {s t : σ} {es : List ε} (hi : Inv s) (ht : run step s es = some t) : f s ≤ f t := by
  induction es generalizing s with
  | nil => rw [Option.some.inj ht]
  | cons e es ih =>
      obtain ⟨s', hs, ht⟩ := run_cons_eq_some.mp ht
      exact (hle s e s' hi hs).trans (ih (hinv s e s' hi hs) ht)

/-- **Resource rule.**  A stock that every step draws on bounds what a run takes from it. -/
theorem taken_le_of_run [AddCommMonoid α] [PartialOrder α] [IsOrderedAddMonoid α] (Inv : σ → Prop)
    {w : ε → α} {f : σ → α} (hinv : ∀ s e s', Inv s → step s e = some s' → Inv s')
    (hstep : ∀ s e s', Inv s → step s e = some s' → w e + f s' ≤ f s)
    {s t : σ} {es : List ε} (hi : Inv s) (ht : run step s es = some t) :
    (es.map w).sum + f t ≤ f s := by
  induction es generalizing s with
  | nil =>
      obtain rfl := Option.some.inj ht
      rw [List.map_nil, List.sum_nil, zero_add]
  | cons e es ih =>
      obtain ⟨s', hs, ht⟩ := run_cons_eq_some.mp ht
      calc ((e :: es).map w).sum + f t
          = w e + ((es.map w).sum + f t) := by rw [List.map_cons, List.sum_cons, add_assoc]
        _ ≤ w e + f s' := add_le_add le_rfl (ih (hinv s e s' hi hs) ht)
        _ ≤ f s := hstep s e s' hi hs

/-- **Potential rule.**  A potential that never falls and rises at every step that misses the
condition: if it has not risen by the end of a run, all steps of the run met the condition. -/
theorem eachStep_of_potential [Preorder α] (Inv : σ → Prop) {P : σ → ε → Prop} {f : σ → α}
    (hinv : ∀ s e s', Inv s → step s e = some s' → Inv s')
    (hle : ∀ s e s', Inv s → step s e = some s' → f s ≤ f s')
    (hlt : ∀ s e s', Inv s → ¬ P s e → step s e = some s' → f s < f s')
    {s t : σ} {es : List ε} (hi : Inv s) (ht : run step s es = some t) (hend : f t ≤ f s) :
    EachStep step P s es := by
  induction es generalizing s with
  | nil => trivial
  | cons e es ih =>
      intro s' hs
      obtain ⟨s'', hs'', ht⟩ := run_cons_eq_some.mp ht
      obtain rfl := Option.some.inj (hs.symm.trans hs'')
      have hi' := hinv s e s' hi hs
      refine ⟨?_, ih hi' ht (hend.trans (hle s e s' hi hs))⟩
      by_contra hn
      exact absurd hend ((hlt s e s' hi hn hs).trans_le (le_of_run Inv hinv hle hi' ht)).not_ge

/-! ### Refinement of an abstract update -/

/-- **Exact refinement rule.**  `abs` follows the abstract updates along every prefix of the
run iff every step meets `P`, when `P` says of one step that `abs` follows it. -/
theorem refines_iff (Inv : σ → Prop) {P : σ → ε → Prop} {abs : σ → α} {upd : α → ε → α}
    (hinv : ∀ s e s', Inv s → step s e = some s' → Inv s')
    (hP : ∀ s e s', Inv s → step s e = some s' → (P s e ↔ abs s' = upd (abs s) e))
    {s : σ} {es : List ε} (hi : Inv s) :
    (∀ p t, p <+: es → run step s p = some t → abs t = p.foldl upd (abs s)) ↔
      EachStep step P s es := by
  induction es generalizing s with
  | nil =>
      refine ⟨fun _ => trivial, fun _ p t hp ht => ?_⟩
      rw [List.prefix_nil.mp hp] at ht ⊢
      rw [← Option.some.inj ht]; rfl
  | cons e es ih =>
      constructor
      · intro h s' hs
        have hone : abs s' = upd (abs s) e :=
          h [e] s' (List.cons_prefix_cons.mpr ⟨rfl, List.nil_prefix⟩) (run_cons_of_eq hs [])
        refine ⟨(hP s e s' hi hs).mpr hone, (ih (hinv s e s' hi hs)).mp fun p t hp ht => ?_⟩
        rw [hone, ← List.foldl_cons]
        exact h (e :: p) t (List.cons_prefix_cons.mpr ⟨rfl, hp⟩) (run_cons_eq_some.mpr ⟨s', hs, ht⟩)
      · intro h p t hp ht
        cases p with
        | nil => rw [← Option.some.inj ht]; rfl
        | cons e' p =>
            obtain ⟨rfl, hp'⟩ := List.cons_prefix_cons.mp hp
            obtain ⟨s', hs, ht⟩ := run_cons_eq_some.mp ht
            have hone := (hP s e' s' hi hs).mp (h s' hs).1
            rw [List.foldl_cons, ← hone]
            exact (ih (hinv s e' s' hi hs)).mpr (h s' hs).2 p t hp' ht

end Guarded
