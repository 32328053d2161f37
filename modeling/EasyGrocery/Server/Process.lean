import EasyGrocery.Server.Concurrent
import EasyGrocery.Server.Timing

/-! # The process against the single comparison

`Compare` follows one comparison, with the database as a function of the query's text; `process`
serves any number of requests at once, and what the database answers comes with the callbacks.
When those answers are the database's, every comparison of the process is a run of the single
one, whatever other requests arrive and take their callbacks meanwhile (`process_refines`).  So
what holds of all runs of a comparison holds of every comparison of the process. -/

namespace EasyGrocery.Server

open Guarded Interleave

variable {P : Type}

/-- The answer that comes with a callback of `r` is the database's. -/
def CompareRequest.Asked (env : Env P) (r : CompareRequest P)
    (outcome : Except String (List (Row P))) : Event → Prop
  | .query k => ∀ q, r.state.queries[k]? = some q → outcome = env.query q.text
  | _ => True

section step

variable [Add P] [Price P] {env : Env P}

/-- With that answer, a callback does what it does over the database. -/
theorem step_answered {s : State P} {e : Event} {outcome : Except String (List (Row P))}
    (h : ∀ k q, e = .query k → s.queries[k]? = some q → outcome = env.query q.text) :
    step ⟨env.toLowerCase, fun _ => outcome⟩ s e = step env s e := by
  cases e with
  | timer i => rfl
  | respond => rfl
  | query k =>
      cases hq : s.queries[k]? with
      | none => simp [step, hq]
      | some q =>
          obtain rfl := h k q rfl hq
          simp only [step, hq]
          -- of the environment, a callback uses nothing else
          cases env.query q.text with
          | error err => rfl
          | ok rows => obtain ⟨kind, i, text⟩ := q; cases kind <;> rfl

/-- Nothing but the response timer sends anything, and it fires once. -/
theorem sent_of_step {s s' : State P} {e : Event} (h : step env s e = some s') :
    e = .respond ∧ s.responding = true ∨ s'.sent = s.sent ∧ s'.responding = s.responding := by
  obtain ⟨heffect, -⟩ := effect_of_step h
  cases heffect with
  | respond g sent thrown hr => exact .inl ⟨rfl, hr⟩
  | _ => exact .inr ⟨rfl, rfl⟩

/-- With that answer, a callback of a comparison in a process keeps what it keeps of the comparison
alone. -/
theorem snd_compareStep {r : CompareRequest P} {e : Event} {outcome : Except String (List (Row P))}
    (hdb : r.Asked env outcome e) {u : State P} (hu : r.state = u.local) (g : Globals P) :
    (r.step env.toLowerCase g outcome e).map Prod.snd =
      (step env u e).map fun u' => { r with state := u'.local } := by
  have hsame : { r.state with globals := g } = { u with globals := g } := by
    rw [hu]
    rfl
  have hanswered : ∀ k q, e = .query k → { u with globals := g }.queries[k]? = some q →
      outcome = env.query q.text := by
    rintro k q rfl hq
    exact hdb q (by rw [hu]; exact hq)
  have hlocal := step_local u g u.globals env e
  calc (r.step env.toLowerCase g outcome e).map Prod.snd
      = ((step env { u with globals := g } e).map State.local).map fun s => { r with state := s } := by
        rw [CompareRequest.step, hsame, step_answered hanswered, Option.map_map, Option.map_map]
        rfl
    _ = (step env u e).map fun u' => { r with state := u'.local } := by
        rw [hlocal, Option.map_map]
        rfl

/-- A callback of a comparison in a process is one of the comparison alone. -/
theorem compareStep_alone {g g' : Globals P} {r r' : CompareRequest P} {e : Event}
    {outcome : Except String (List (Row P))} (hdb : r.Asked env outcome e)
    (h : r.step env.toLowerCase g outcome e = some (g', r')) {u : State P} (hu : r.state = u.local) :
    ∃ u', step env u e = some u' ∧ r'.state = u'.local ∧ r'.failed = r.failed := by
  have hsnd := snd_compareStep hdb hu g
  rw [h, Option.map_some] at hsnd
  obtain ⟨u', hu', rfl⟩ := Option.map_eq_some_iff.mp hsnd.symm
  exact ⟨u', hu', rfl, rfl⟩

end step

theorem onCompare_local [Zero P] (numText : ℚ → String) (body : List Json) :
    (onCompare (P := P) numText body).state.local = (onCompare numText body).state := by
  unfold onCompare
  split
  · rfl
  · split <;> rfl

/-- The answers that come with the callbacks are the database's. -/
def FromDatabase (env : Env P) (p : Pool (Globals P) (Request P)) :
    Interleave.Event (Callback P) Call → Prop
  | .arrive _ => True
  | .step i c => ∀ r outcome e, p.components[i]? = some (.compare r) → c.event = some (outcome, e) →
      r.Asked env outcome e

section process

variable [Zero P] [Add P] [Price P] {env : Env P} {numText : ℚ → String}

/-- What a call has led to: a search, or a comparison that is where a run of the call's own over the
database leads. -/
def Traced (env : Env P) (numText : ℚ → String) (call : Call) : Request P → Prop
  | .item _ => ∃ query, call = .item query
  | .compare r => ∃ body es u, call = .compare body ∧
      run (step env) (onCompare numText body).state es = some u ∧
      r.state = u.local ∧ r.failed = (onCompare (P := P) numText body).failed

theorem traced_arrive (g : Globals P) (call : Call) :
    Traced env numText call (Request.arrive numText g call).2 := by
  cases call with
  | item query => exact ⟨query, rfl⟩
  | compare body => exact ⟨body, [], _, rfl, rfl, (onCompare_local numText body).symm, rfl⟩

theorem traced_step {g : Globals P} {call : Call} {r : Request P} {c : Callback P} {x : Globals P × Request P}
    (hdb : ∀ r' outcome e, r = .compare r' → c.event = some (outcome, e) → r'.Asked env outcome e)
    (h : Traced env numText call r) (hstep : Request.step env.toLowerCase g r c = some x) :
    Traced env numText call x.2 := by
  cases r with
  | item r =>
      cases c with
      | result outcome =>
          simp only [Request.step, Option.ite_none_right_eq_some, Option.some.injEq] at hstep
          obtain ⟨-, rfl⟩ := hstep
          exact h
      | _ => cases hstep
  | compare r =>
      obtain ⟨body, es, u, hcall, hrun, hstate, hfailed⟩ := h
      simp only [Request.step] at hstep
      obtain ⟨⟨outcome, e⟩, hevent, hstep⟩ := Option.bind_eq_some_iff.mp hstep
      obtain ⟨⟨g', r'⟩, hr', rfl⟩ := Option.map_eq_some_iff.mp hstep
      obtain ⟨u', hu', hstate', hfailed'⟩ :=
          compareStep_alone (hdb r outcome e rfl hevent) hr' hstate
      refine ⟨body, es ++ [e], u', hcall, ?_, hstate', hfailed'.trans hfailed⟩
      rw [run_append, hrun, Option.bind_some, run_cons_of_eq hu', run_nil]

/-- **The process refines the comparison.**  Whatever requests arrive, and in whatever order all
of them take their callbacks, there is one request for each that has arrived, in that order, and
every comparison has the state, and the responses, of a run over the database from what the handler
makes of its own body. -/
theorem process_refines (env : Env P) (numText : ℚ → String) {g : Globals P}
    {es : List (Interleave.Event (Callback P) Call)} {t : Pool (Globals P) (Request P)}
    (hdb : EachStep (process env.toLowerCase numText).poolStep (FromDatabase env) ⟨g, []⟩ es)
    (ht : run (process env.toLowerCase numText).poolStep ⟨g, []⟩ es = some t) :
    List.Forall₂ (Traced env numText) (arrivals es) t.components := by
  refine forall₂_arrivals [] traced_arrive ?_ .nil hdb ht
  intro p i c call r x hasked hi htraced hstep
  exact traced_step (fun r' outcome e hr => hasked r' outcome e (hr ▸ hi)) htraced hstep

end process

section decidable

variable {env : Env Decimal}

instance (r : CompareRequest Decimal) (outcome : Except String (List (Row Decimal))) :
    ∀ e, Decidable (r.Asked env outcome e)
  | .query k => decidable_of_iff (∀ q ∈ r.state.queries[k]?, outcome = env.query q.text) Iff.rfl
  | .timer _ => isTrue trivial
  | .respond => isTrue trivial

instance (p : Pool (Globals Decimal) (Request Decimal)) : ∀ e, Decidable (FromDatabase env p e)
  | .arrive _ => isTrue trivial
  | .step i c => match hr : p.components[i]?, he : c.event with
      | some (.compare r), some (outcome, e) =>
          decidable_of_iff (r.Asked env outcome e) (by simp [FromDatabase, hr, he])
      | some (.compare r), none => isTrue (by simp [FromDatabase, he])
      | some (.item r), _ => isTrue (by simp [FromDatabase, hr])
      | none, _ => isTrue (by simp [FromDatabase, hr])

end decidable

/-- The database answers every query with milk. -/
def milkOnly : Env Decimal := ⟨id, fun _ => .ok [milk]⟩

/-- A search and two comparisons, taking turns. -/
theorem process_refines_milk :
    let calls : List Call := [.item (some "milk"), .compare [.obj [("itemname", .str "milk")]],
      .compare [.obj [("itemname", .str "tea")], .obj [("itemname", .str "milk")]]]
    let es : List (Interleave.Event (Callback Decimal) Call) :=
      calls.map .arrive ++ [.step 1 (.query 1 (.ok [milk])), .step 2 (.query 3 (.ok [milk])),
        .step 0 (.result (.ok ["whole milk"])), .step 1 (.query 0 (.ok [milk])), .step 2 (.timer 1),
        .step 1 (.timer 0), .step 2 (.query 0 (.ok [milk])), .step 2 (.timer 0), .step 1 .respond,
        .step 2 .respond]
    ∃ t, run (process id fun _ => "").poolStep ⟨.init, []⟩ es = some t ∧
      t.components.map (Request.responses 1) = [1, 1, 1] ∧
      List.Forall₂ (Traced milkOnly fun _ => "") calls t.components := by
  intro calls es
  have hrun : (run (process id fun _ => "").poolStep ⟨.init, []⟩ es).map
      (fun t => t.components.map (Request.responses 1)) = some [1, 1, 1] := by decide +kernel
  obtain ⟨t, ht, hone⟩ := Option.map_eq_some_iff.mp hrun
  have hdb : EachStep (process id fun _ => "").poolStep (FromDatabase milkOnly) ⟨.init, []⟩ es := by
    decide +kernel
  exact ⟨t, ht, hone, process_refines milkOnly _ hdb ht⟩

end EasyGrocery.Server
