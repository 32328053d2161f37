import EasyGrocery.Lib.Transition
import Mathlib.Logic.Function.Basic

/-! # Components that own parts of a memory

Components work over one memory.  Each belongs to an owner, and `view` is the part of the memory
that an owner has.  A system is `Apart` when its components work on their owners' parts alone:
what a step does depends on nothing else in the memory, and it leaves the parts of all others as
they are.  Then an owner's part and components end a run as they do when nobody else takes part
in it (`alone`). -/

namespace Owned

open Guarded

variable {κ γ σ ε ω ν : Type*}

/-- A memory in `γ`, and components with names in `κ` and states in `σ`. -/
structure World (κ γ σ : Type*) where
  memory : γ
  component : κ → σ

/-- A step of one component, given the steps of each over the memory. -/
def World.step [DecidableEq κ] (step : κ → γ → σ → ε → Option (γ × σ)) (w : World κ γ σ)
    (e : κ × ε) : Option (World κ γ σ) :=
  (step e.1 w.memory (w.component e.1) e.2).map fun r =>
    ⟨r.1, Function.update w.component e.1 r.2⟩

/-- The steps of a run that components of `u` take. -/
def own [DecidableEq ω] (owner : κ → ω) (u : ω) (es : List (κ × ε)) : List (κ × ε) :=
  es.filter fun e => owner e.1 = u

/-- Components that keep to their owners' parts, as long as their states meet `Inv` and their
steps `P`. -/
structure Apart (step : κ → γ → σ → ε → Option (γ × σ)) (owner : κ → ω) (view : ω → γ → ν)
    (Inv : κ → σ → Prop) (P : σ → ε → Prop) : Prop where
  inv : ∀ {k g s e r}, Inv k s → P s e → step k g s e = some r → Inv k r.2
  local_step : ∀ {k g s e r}, Inv k s → P s e → step k g s e = some r →
    ∀ g', view (owner k) g' = view (owner k) g →
      ∃ r', step k g' s e = some r' ∧ r'.2 = r.2 ∧ view (owner k) r'.1 = view (owner k) r.1
  frame : ∀ {k g s e r}, Inv k s → P s e → step k g s e = some r →
    ∀ u, u ≠ owner k → view u r.1 = view u g

variable [DecidableEq κ] {step : κ → γ → σ → ε → Option (γ × σ)}

theorem step_eq_some {w w' : World κ γ σ} {e : κ × ε} (h : World.step step w e = some w') :
    ∃ r, step e.1 w.memory (w.component e.1) e.2 = some r ∧ w'.memory = r.1 ∧
      w'.component = Function.update w.component e.1 r.2 := by
  obtain ⟨r, hr, rfl⟩ := Option.map_eq_some_iff.mp h
  exact ⟨r, hr, rfl, rfl⟩

/-- A component that did not take the step is as it was. -/
theorem component_of_ne {w w' : World κ γ σ} {e : κ × ε} (h : World.step step w e = some w')
    {k : κ} (hk : k ≠ e.1) : w'.component k = w.component k := by
  obtain ⟨r, -, -, hc⟩ := step_eq_some h
  rw [hc, Function.update_of_ne hk]

variable {owner : κ → ω} {view : ω → γ → ν} {Inv : κ → σ → Prop} {P : σ → ε → Prop}

/-- What the step of a component keeps of its own, all components keep. -/
theorem inv_step (Inv : κ → σ → Prop) {w w' : World κ γ σ} {e : κ × ε}
    (hi : ∀ k, Inv k (w.component k))
    (hstep : ∀ r, step e.1 w.memory (w.component e.1) e.2 = some r → Inv e.1 r.2)
    (h : World.step step w e = some w') : ∀ k, Inv k (w'.component k) := by
  obtain ⟨r, hr, -, hc⟩ := step_eq_some h
  intro k
  rw [hc, Function.update_apply]
  split_ifs with hk
  · rw [hk]
    exact hstep r hr
  · exact hi k

/-- The same owner's part and components. -/
structure SameFor (owner : κ → ω) (view : ω → γ → ν) (u : ω) (w w' : World κ γ σ) : Prop where
  memory : view u w'.memory = view u w.memory
  component : ∀ k, owner k = u → w'.component k = w.component k

/-- A step of an owner's component does the same wherever the owner's part is the same. -/
theorem Apart.sameFor_step (hs : Apart step owner view Inv P) {u : ω} {w v t : World κ γ σ}
    {e : κ × ε} (hi : Inv e.1 (w.component e.1)) (hp : P (w.component e.1) e.2)
    (h : World.step step w e = some t) (hu : owner e.1 = u) (hsame : SameFor owner view u w v) :
    ∃ t', World.step step v e = some t' ∧ SameFor owner view u t t' := by
  obtain ⟨r, hr, hm, hc⟩ := step_eq_some h
  obtain ⟨r', hr', hr2, hr1⟩ := hs.local_step hi hp hr v.memory (by rw [hu]; exact hsame.memory)
  rw [← hsame.component e.1 hu] at hr'
  refine ⟨⟨r'.1, Function.update v.component e.1 r'.2⟩, by rw [World.step, hr']; rfl, ?_, ?_⟩
  · rw [hm, ← hu]
    exact hr1
  · intro k hk
    show Function.update v.component e.1 r'.2 k = t.component k
    rw [hc, hr2, Function.update_apply, Function.update_apply, hsame.component k hk]

/-- **Alone.**  An owner's part and components end a run as they do in the run of the owner's
steps only, from any state that is the same for the owner. -/
theorem Apart.alone [DecidableEq ω] (hs : Apart step owner view Inv P) {u : ω} {w v t : World κ γ σ}
    {es : List (κ × ε)} (hi : ∀ k, Inv k (w.component k))
    (hp : EachStep (World.step step) (fun w e => P (w.component e.1) e.2) w es)
    (h : run (World.step step) w es = some t) (hv : SameFor owner view u w v) :
    ∃ t', run (World.step step) v (own owner u es) = some t' ∧ SameFor owner view u t t' := by
  induction es generalizing w v with
  | nil =>
      obtain rfl := Option.some.inj h
      exact ⟨v, rfl, hv⟩
  | cons e es ih =>
      obtain ⟨w', hstep, hrun⟩ := run_cons_eq_some.mp h
      obtain ⟨hpe, hpes⟩ := hp w' hstep
      have hi' := inv_step Inv hi (fun r hr => hs.inv (hi e.1) hpe hr) hstep
      by_cases hu : owner e.1 = u
      · obtain ⟨v', hv', hsame⟩ := hs.sameFor_step (hi e.1) hpe hstep hu hv
        rw [own, List.filter_cons_of_pos (by simpa using hu), run_cons_of_eq hv']
        exact ih hi' hpes hrun hsame
      · -- a step of somebody else: the owner's part is as it was
        rw [own, List.filter_cons_of_neg (by simpa using hu)]
        apply ih hi' hpes hrun
        obtain ⟨r, hr, hm, -⟩ := step_eq_some hstep
        refine ⟨?_, fun k hk => ?_⟩
        · rw [hm, hs.frame (hi e.1) hpe hr u (Ne.symm hu)]
          exact hv.memory
        · rw [component_of_ne hstep fun hke => hu (hke ▸ hk)]
          exact hv.component k hk

end Owned
