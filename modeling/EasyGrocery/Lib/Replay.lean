import EasyGrocery.Lib.Transition
import Mathlib.Data.Set.Insert

/-! # Values replayed from a history

Copies of a value that are updated one by one, each from whatever copy is at hand, drift apart:
an update is lost when the next one is made to an older copy.  What is left of every copy is a
replay (`Of`): some starting value with *some* of the updates that were ever made, in the order
in which they were made.

`inv_of_run_log` is the rule for invariants that mention the history. -/

namespace Replay

open Guarded

variable {α ε : Type*} {upd : α → ε → α} {bases : Set α} {log : List ε} {v : α}

/-- `v` is a value of `bases` with some of the updates of `log`, in their order. -/
def Of (upd : α → ε → α) (bases : Set α) (log : List ε) (v : α) : Prop :=
  ∃ b ∈ bases, ∃ made : List ε, made.Sublist log ∧ v = made.foldl upd b

theorem Of.base (h : v ∈ bases) (log : List ε) : Of upd bases log v :=
  ⟨v, h, [], List.nil_sublist log, rfl⟩

/-- More has happened since. -/
theorem Of.append (h : Of upd bases log v) (log' : List ε) : Of upd bases (log ++ log') v := by
  obtain ⟨b, hb, made, hmade, hv⟩ := h
  exact ⟨b, hb, made, hmade.trans (List.sublist_append_left log log'), hv⟩

/-- One more update, made to a replay. -/
theorem Of.update (h : Of upd bases log v) (e : ε) : Of upd bases (log ++ [e]) (upd v e) := by
  obtain ⟨b, hb, made, hmade, rfl⟩ := h
  refine ⟨b, hb, made ++ [e], hmade.append (List.Sublist.refl [e]), ?_⟩
  rw [List.foldl_append]
  rfl

/-- What every update keeps holds of a replay, when it holds of the bases. -/
theorem Of.induction {Q : α → Prop} (h : Of upd bases log v) (hb : ∀ b ∈ bases, Q b)
    (hstep : ∀ b, ∀ e ∈ log, Q b → Q (upd b e)) : Q v := by
  obtain ⟨b, hmem, made, hmade, rfl⟩ := h
  have hstep' : ∀ b, ∀ e ∈ made, Q b → Q (upd b e) := fun b e he => hstep b e (hmade.subset he)
  have hb := hb b hmem
  clear hmade hmem
  induction made generalizing b with
  | nil => exact hb
  | cons e made ih =>
      exact ih _ (fun b e' he' => hstep' b e' (List.mem_cons_of_mem e he'))
        (hstep' b e List.mem_cons_self hb)

/-! ### Invariants with a history -/

variable {σ β : Type*} {step : σ → ε → Option σ}

/-- **History rule.**  An invariant that mentions the history, kept by every step that meets the
condition when what the step notes is added to the history. -/
theorem inv_of_run_log (note : ε → List β) (Inv : List β → σ → Prop) {P : σ → ε → Prop}
    (hstep : ∀ log s e s', Inv log s → P s e → step s e = some s' → Inv (log ++ note e) s')
    {log : List β} {s t : σ} {es : List ε} (hi : Inv log s) (hp : EachStep step P s es)
    (ht : run step s es = some t) : Inv (log ++ es.flatMap note) t := by
  induction es generalizing log s with
  | nil =>
      obtain rfl := Option.some.inj ht
      simpa using hi
  | cons e es ih =>
      obtain ⟨s', hs, ht⟩ := run_cons_eq_some.mp ht
      obtain ⟨hP, hp⟩ := hp s' hs
      rw [List.flatMap_cons, ← List.append_assoc]
      exact ih (hstep log s e s' hi hP hs) hp ht

end Replay
