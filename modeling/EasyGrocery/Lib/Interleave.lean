import EasyGrocery.Lib.Transition
import Mathlib.Data.List.Forall2

/-! # Components that share a scratch memory

A pool of components, each with a state of its own, and a memory that all of them use.  A
component arrives, and from then on takes steps; arrivals and steps of any number of components
interleave.  A component that has stopped stops the whole pool.

A system is `Confined` when what its components keep never depends on what they find in the
memory.  Then a component of a pool ends as it does alone, from any memory, with its own events
in the same order (`alone`).  In any system, what arrivals have and own steps keep is had by all
components, also when it depends on whom a component is for (`forall₂_arrive`, `forall₂_step`) or
on what it was started by (`forall₂_arrivals`). -/

namespace Interleave

open Guarded

/-- Components with states in `σ`, started by an `α` and moved by an `ε`, over a memory in `γ`. -/
structure System (γ σ ε α : Type*) where
  arrive : γ → α → γ × σ
  step : γ → σ → ε → Option (γ × σ)
  stopped : σ → Bool

structure Pool (γ σ : Type*) where
  shared : γ
  components : List σ

/-- An arrival, or a step of the component that arrived as number `i`. -/
inductive Event (ε α : Type*) where
  | arrive (a : α)
  | step (i : ℕ) (e : ε)

variable {γ σ ε α : Type*}

namespace System

variable (sys : System γ σ ε α)

def poolStep (p : Pool γ σ) (e : Event ε α) : Option (Pool γ σ) :=
  if p.components.any sys.stopped then none
  else match e with
    | .arrive a => some ⟨(sys.arrive p.shared a).1, p.components ++ [(sys.arrive p.shared a).2]⟩
    | .step i e => p.components[i]?.bind fun s =>
        (sys.step p.shared s e).map fun r => ⟨r.1, p.components.set i r.2⟩

/-- What components keep does not depend on the memory. -/
structure Confined : Prop where
  arrive : ∀ g g' a, (sys.arrive g a).2 = (sys.arrive g' a).2
  step : ∀ g g' s e, (sys.step g s e).map Prod.snd = (sys.step g' s e).map Prod.snd

end System

/-- The events of component `i`, for a pool where it is the only one; `n` have arrived already. -/
def own (i : ℕ) : ℕ → List (Event ε α) → List (Event ε α)
  | _, [] => []
  | n, .arrive a :: es => if n = i then .arrive a :: own i (n + 1) es else own i (n + 1) es
  | n, .step j e :: es => if j = i then .step 0 e :: own i n es else own i n es

variable {sys : System γ σ ε α}

/-- The outcomes of a step of the pool. -/
theorem poolStep_eq_some {p p' : Pool γ σ} {e : Event ε α} (h : sys.poolStep p e = some p') :
    p.components.any sys.stopped = false ∧
      ((∃ a, e = .arrive a ∧ p'.components = p.components ++ [(sys.arrive p.shared a).2]) ∨
        ∃ i e' s r, e = .step i e' ∧ p.components[i]? = some s ∧
          sys.step p.shared s e' = some r ∧ p'.components = p.components.set i r.2) := by
  unfold System.poolStep at h
  split at h
  · cases h
  · next hs =>
    refine ⟨by simpa using hs, ?_⟩
    cases e with
    | arrive a =>
        obtain rfl := Option.some.inj h
        exact .inl ⟨a, rfl, rfl⟩
    | step i e =>
        obtain ⟨s, hi, h⟩ := Option.bind_eq_some_iff.mp h
        obtain ⟨r, hr, rfl⟩ := Option.map_eq_some_iff.mp h
        exact .inr ⟨i, e, s, r, rfl, hi, hr, rfl⟩

/-! ### Whom the components are for

A list beside the pool says for each component whom it is for; `R` relates the two. -/

section related

variable {ω : Type*} {R : ω → σ → Prop} {owners : List ω}

theorem forall₂_set {l : List σ} (h : List.Forall₂ R owners l) {i : ℕ} {s' : σ}
    (hs : ∀ o s, l[i]? = some s → R o s → R o s') : List.Forall₂ R owners (l.set i s') := by
  induction h generalizing i with
  | nil => exact .nil
  | cons hr h ih =>
      cases i with
      | zero => exact .cons (hs _ _ rfl hr) h
      | succ i => exact .cons hr (ih hs)

theorem rel_of_getElem? {l : List σ} (h : List.Forall₂ R owners l) {i : ℕ} {o : ω} {s : σ}
    (ho : owners[i]? = some o) (hs : l[i]? = some s) : R o s := by
  obtain ⟨hi, rfl⟩ := List.getElem?_eq_some_iff.mp ho
  obtain ⟨hi', rfl⟩ := List.getElem?_eq_some_iff.mp hs
  exact h.get hi hi'

/-- A component arrives for `o`. -/
theorem forall₂_arrive {p p' : Pool γ σ} (h : List.Forall₂ R owners p.components) {o : ω} {a : α}
    (hR : R o (sys.arrive p.shared a).2) (hstep : sys.poolStep p (.arrive a) = some p') :
    List.Forall₂ R (owners ++ [o]) p'.components := by
  rcases (poolStep_eq_some hstep).2 with ⟨a', ha, hc⟩ | ⟨_, _, _, _, ha, -⟩
  · cases ha
    rw [hc]
    exact List.rel_append h (.cons hR .nil)
  · cases ha

/-- A component takes a step. -/
theorem forall₂_step {p p' : Pool γ σ} (h : List.Forall₂ R owners p.components) {i : ℕ} {e : ε}
    (hR : ∀ o s r, p.components[i]? = some s → R o s → sys.step p.shared s e = some r → R o r.2)
    (hstep : sys.poolStep p (.step i e) = some p') : List.Forall₂ R owners p'.components := by
  rcases (poolStep_eq_some hstep).2 with ⟨_, ha, -⟩ | ⟨i', e', s, r, ha, hs, hr, hc⟩
  · cases ha
  · cases ha
    rw [hc]
    refine forall₂_set h fun o s' hs' hos => ?_
    obtain rfl : s = s' := Option.some.inj (hs.symm.trans hs')
    exact hR o s r hs hos hr

/-- What the components that arrive are started by, in their order. -/
def arrivals : List (Event ε α) → List α
  | [] => []
  | .arrive a :: es => a :: arrivals es
  | .step _ _ :: es => arrivals es

/-- **Component rule.**  What relates every arriving component to what it is started by, and is
kept by the steps that the component takes under the condition, relates the components of a pool
to the arrivals. -/
theorem forall₂_arrivals (started : List α) {R : α → σ → Prop} {P : Pool γ σ → Event ε α → Prop}
    (harrive : ∀ g a, R a (sys.arrive g a).2)
    (hstep : ∀ p i e a s r, P p (.step i e) → p.components[i]? = some s → R a s →
      sys.step p.shared s e = some r → R a r.2)
    {p t : Pool γ σ} {es : List (Event ε α)} (hp : List.Forall₂ R started p.components)
    (hP : EachStep sys.poolStep P p es) (ht : run sys.poolStep p es = some t) :
    List.Forall₂ R (started ++ arrivals es) t.components := by
  induction es generalizing p started with
  | nil =>
      obtain rfl := Option.some.inj ht
      rwa [arrivals, List.append_nil]
  | cons e es ih =>
      obtain ⟨p', hp', hrun⟩ := run_cons_eq_some.mp ht
      obtain ⟨hPe, hPs⟩ := hP p' hp'
      cases e with
      | arrive a =>
          have hall := ih _ (forall₂_arrive hp (harrive p.shared a) hp') hPs hrun
          rwa [List.append_assoc] at hall
      | step i e =>
          exact ih _ (forall₂_step hp (fun a s r hs hR hr => hstep p i e a s r hPe hs hR hr) hp') hPs hrun

end related

/-! ### A component alone -/

/-- A pool of components taken from one that runs on is not stopped. -/
theorem any_stopped_of_subset {l l' : List σ} (h : l.any sys.stopped = false) (hl : l' ⊆ l) :
    l'.any sys.stopped = false := by
  rw [List.any_eq_false] at h ⊢
  exact fun s hs => h s (hl hs)

theorem poolStep_arrive {q : Pool γ σ} (hs : q.components.any sys.stopped = false) (a : α) :
    sys.poolStep q (.arrive a) =
      some ⟨(sys.arrive q.shared a).1, q.components ++ [(sys.arrive q.shared a).2]⟩ := by
  simp [System.poolStep, hs]

/-- A component alone takes the step it takes in a pool. -/
theorem poolStep_single (hc : sys.Confined) {q : Pool γ σ} {g : γ} {s : σ} {e : ε} {r : γ × σ}
    (hq : q.components = [s]) (hs : sys.stopped s = false) (hr : sys.step g s e = some r) :
    ∃ q', sys.poolStep q (.step 0 e) = some q' ∧ q'.components = [r.2] := by
  have hsnd := hc.step q.shared g s e
  rw [hr, Option.map_some] at hsnd
  obtain ⟨r', hr', hrr⟩ := Option.map_eq_some_iff.mp hsnd
  refine ⟨⟨r'.1, [r.2]⟩, ?_, rfl⟩
  simp [System.poolStep, hq, hs, hr', hrr]

/-- Another arrival leaves the component at `i` as it is. -/
theorem getElem?_concat_of_ne {l : List σ} {i : ℕ} (h : l.length ≠ i) (s : σ) :
    (l ++ [s])[i]? = l[i]? := by
  rcases Nat.lt_or_gt_of_ne h with hlt | hgt
  · rw [List.getElem?_eq_none (by simp; omega), List.getElem?_eq_none (by omega)]
  · rw [List.getElem?_append_left hgt]

/-- One component of a pool, against a pool that holds nothing else. -/
theorem alone_of_components (hc : sys.Confined) {i : ℕ} {s : σ} {es : List (Event ε α)}
    {p t q : Pool γ σ} (h : run sys.poolStep p es = some t) (hi : t.components[i]? = some s)
    (hq : q.components = p.components[i]?.toList) :
    ∃ u, run sys.poolStep q (own i p.components.length es) = some u ∧ u.components = [s] := by
  induction es generalizing p q with
  | nil =>
      obtain rfl := Option.some.inj h
      exact ⟨q, rfl, by rw [hq, hi]; rfl⟩
  | cons e es ih =>
      obtain ⟨p', hstep, hrun⟩ := run_cons_eq_some.mp h
      obtain ⟨hrunning, hcases⟩ := poolStep_eq_some hstep
      have hqs : q.components.any sys.stopped = false :=
        any_stopped_of_subset hrunning fun x hx => by
          rw [hq, Option.mem_toList] at hx
          exact List.mem_of_getElem? hx
      rcases hcases with ⟨a, rfl, hp'⟩ | ⟨j, e', s', r, rfl, hj, hr, hp'⟩
      · have hlen : p'.components.length = p.components.length + 1 := by simp [hp']
        simp only [own]
        rw [← hlen]
        split_ifs with hn
        · -- the component itself arrives
          have hnone : p.components[i]? = none := by rw [← hn]; simp
          rw [hnone] at hq
          refine (ih (p := p') (q := ⟨_, _⟩) hrun ?_).imp fun u hu =>
            ⟨(run_cons_of_eq (poolStep_arrive hqs a) _).trans hu.1, hu.2⟩
          simp [hp', hq, ← hn, hc.arrive q.shared p.shared a]
        · apply ih hrun
          rw [hq, hp', getElem?_concat_of_ne hn]
      · have hlen : p'.components.length = p.components.length := by simp [hp']
        simp only [own]
        rw [← hlen]
        split_ifs with hji
        · subst hji
          rw [hj] at hq
          have hs' : sys.stopped s' = false := by simpa [hq] using hqs
          obtain ⟨q', hq', hcomp⟩ := poolStep_single hc hq hs' hr
          refine (ih (p := p') (q := q') hrun ?_).imp fun u hu =>
            ⟨(run_cons_of_eq hq' _).trans hu.1, hu.2⟩
          have hlt : j < p.components.length := (List.getElem?_eq_some_iff.mp hj).1
          rw [hcomp, hp', List.getElem?_set_self hlt]
          rfl
        · apply ih hrun
          rw [hq, hp', List.getElem?_set_ne hji]

/-- **A component of a confined system ends as it does alone**, from any memory, with its own
events in the same order. -/
theorem alone (hc : sys.Confined) {g : γ} {es : List (Event ε α)} {t : Pool γ σ}
    (h : run sys.poolStep ⟨g, []⟩ es = some t) {i : ℕ} {s : σ} (hi : t.components[i]? = some s)
    (g' : γ) :
    ∃ u, run sys.poolStep ⟨g', []⟩ (own i 0 es) = some u ∧ u.components = [s] :=
  alone_of_components hc h hi rfl

end Interleave
