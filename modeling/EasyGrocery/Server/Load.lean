import EasyGrocery.Lib.Deadline
import EasyGrocery.Server.Capacity
import EasyGrocery.Server.Process

/-! # How much the connection carries

All requests of the process put their queries to one connection, which answers one after the
other, each in at most `d` milliseconds.  Every request has its own timers, set when its handler
returned.

`load_iff`: as long as no more than `n` items are being compared at a time, a search counting for
half an item, every comparison responds with what its items are due iff `2 * n * d < 500`.  So the
requests of others count as much as one's own items. -/

namespace EasyGrocery.Server

open Deadline (OnTime)
open Guarded
open Interleave (Pool)

variable {P : Type}

/-! ### The process at its moments -/

/-- A request, and the moment when its handler returned. -/
structure Served (P : Type) where
  call : Call
  arrived : ℕ
  request : Request P

namespace Request

/-- The queries in flight. -/
def inFlight : Request P → ℕ
  | .item r => r.query.toList.length
  | .compare r => r.state.queries.length

/-- The items whose timer has not fired. -/
def timers : Request P → List ℕ
  | .item _ => []
  | .compare r => r.state.timers

/-- The response timer has not fired. -/
def responding : Request P → Bool
  | .item _ => false
  | .compare r => r.state.responding

instance : DecidablePred (Pending (P := P))
  | .item r => inferInstanceAs (Decidable (r.query ≠ none))
  | .compare r => inferInstanceAs
      (Decidable (r.state.queries ≠ [] ∨ r.state.timers ≠ [] ∨ r.state.responding = true))

end Request

/-- The items of a call whose queries are issued. -/
def Call.texts (numText : ℚ → String) : Call → List String
  | .item _ => []
  | .compare body => match requestList body with
      | none => []
      | some list => (forEachItem numText list).1

/-- The queries that a call can have in flight at a time: one for a search, two for each item. -/
def Call.weight (numText : ℚ → String) : Call → ℕ
  | .item _ => 1
  | .compare body => 2 * ((Call.compare body).texts numText).length

/-- `process`, with the moments at which requests arrive. -/
def timedProcess [Zero P] [Add P] [Price P] (toLowerCase : String → String) (numText : ℚ → String) :
    Interleave.System (Globals P) (Served P) (Callback P) (ℕ × Call) where
  arrive g a := ((Request.arrive numText g a.2).1, ⟨a.2, a.1, (Request.arrive numText g a.2).2⟩)
  step g s c := (s.request.step toLowerCase g c).map fun r => (r.1, { s with request := r.2 })
  stopped s := s.request.thrown.isSome

/-- The process at a moment, with the requests whose queries are in flight, in the order in which
these were issued, and the latest moment for the answer to the first of them. -/
structure TimedProcess (P : Type) where
  pool : Pool (Globals P) (Served P)
  queue : List ℕ
  now : ℕ
  due : ℕ

/-- The arrival of a request, or a callback of one. -/
abbrev ProcessEvent (P : Type) := Interleave.Event (Callback P) Call

namespace TimedProcess

def start (g : Globals P) : TimedProcess P := ⟨⟨g, []⟩, [], 0, 0⟩

/-- `f` of the request `c`, and 0 if there is none. -/
def valueAt (f : Served P → ℕ) (components : List (Served P)) (c : ℕ) : ℕ := (components[c]?.map f).getD 0

/-- The queries in flight of the request `c`. -/
def inFlightAt : List (Served P) → ℕ → ℕ := valueAt fun s => s.request.inFlight

/-- Whether an event is an answer of the connection. -/
def isAnswer : ProcessEvent P → Bool
  | .step _ (.query _ _) => true
  | .step _ (.result _) => true
  | _ => false

/-- The request that an event is about. -/
def subject (x : TimedProcess P) : ProcessEvent P → ℕ
  | .arrive _ => x.pool.components.length
  | .step c _ => c

/-- The moments of an event: queries are answered in the order issued, and timers fire when they
are set to. -/
def OwnTime (x : TimedProcess P) (time : ℕ) : ProcessEvent P → Prop
  | .arrive _ => True
  | .step c (.result _) => x.queue.head? = some c
  | .step c (.query k _) => k = 0 ∧ x.queue.head? = some c
  | .step c (.timer _) => x.pool.components[c]?.map (fun s => s.arrived + 500) = some time
  | .step c .respond => x.pool.components[c]?.map (fun s => s.arrived + 1000) = some time

/-- An event can come at `time`: nothing else had to come before. -/
structure Allows (x : TimedProcess P) (time : ℕ) (e : ProcessEvent P) : Prop where
  now : x.now ≤ time
  due : x.queue ≠ [] → time ≤ x.due
  timers : ∀ s ∈ x.pool.components, s.request.timers ≠ [] → time ≤ s.arrived + 500
  response : ∀ s ∈ x.pool.components, s.request.responding = true → time ≤ s.arrived + 1000
  own : x.OwnTime time e

instance (x : TimedProcess P) (time : ℕ) : ∀ e, Decidable (x.OwnTime time e)
  | .arrive _ => isTrue trivial
  | .step c (.result _) => inferInstanceAs (Decidable (x.queue.head? = some c))
  | .step c (.query k _) => inferInstanceAs (Decidable (k = 0 ∧ x.queue.head? = some c))
  | .step c (.timer _) => inferInstanceAs
      (Decidable (x.pool.components[c]?.map (fun s => s.arrived + 500) = some time))
  | .step c .respond => inferInstanceAs
      (Decidable (x.pool.components[c]?.map (fun s => s.arrived + 1000) = some time))

instance (x : TimedProcess P) (time : ℕ) (e : ProcessEvent P) : Decidable (x.Allows time e) :=
  decidable_of_iff (x.now ≤ time ∧ (x.queue ≠ [] → time ≤ x.due) ∧
      (∀ s ∈ x.pool.components, s.request.timers ≠ [] → time ≤ s.arrived + 500) ∧
      (∀ s ∈ x.pool.components, s.request.responding = true → time ≤ s.arrived + 1000) ∧
      x.OwnTime time e)
    ⟨fun h => ⟨h.1, h.2.1, h.2.2.1, h.2.2.2.1, h.2.2.2.2⟩,
      fun h => ⟨h.now, h.due, h.timers, h.response, h.own⟩⟩

/-- The queue after an event that leaves `components`: an answer takes the first query from it,
and new queries come to its end. -/
def nextQueue (x : TimedProcess P) (components : List (Served P)) (e : ProcessEvent P) : List ℕ :=
  if isAnswer e then x.queue.tail
  else x.queue ++ List.replicate
    (inFlightAt components (x.subject e) - inFlightAt x.pool.components (x.subject e)) (x.subject e)

/-- The latest moment for the next answer, after an event at `time`. -/
def nextDue (d : ℕ) (x : TimedProcess P) (time : ℕ) (e : ProcessEvent P) : ℕ :=
  if isAnswer e ∨ x.queue = [] then time + d else x.due

/-- An event of the timed process. -/
def stamp (time : ℕ) : ProcessEvent P → Interleave.Event (Callback P) (ℕ × Call)
  | .arrive call => .arrive (time, call)
  | .step c e => .step c e

def step [Zero P] [Add P] [Price P] (toLowerCase : String → String) (numText : ℚ → String) (d : ℕ)
    (x : TimedProcess P) (e : ℕ × ProcessEvent P) : Option (TimedProcess P) :=
  if x.Allows e.1 e.2 then
    ((timedProcess toLowerCase numText).poolStep x.pool (stamp e.1 e.2)).map fun pool =>
      ⟨pool, x.nextQueue pool.components e.2, e.1, x.nextDue d e.1 e.2⟩
  else none

/-- The weight of the requests that have callbacks to come. -/
def load (numText : ℚ → String) (x : TimedProcess P) : ℕ :=
  (x.pool.components.map fun s => if s.request.Pending then s.call.weight numText else 0).sum

/-- The answers that come with callbacks of comparisons are the database's, and with no arrival
the load gets above `limit`. -/
def Light (env : Env P) (numText : ℚ → String) (limit : ℕ) (x : TimedProcess P) :
    ℕ × ProcessEvent P → Prop
  | (_, .arrive call) => x.load numText + call.weight numText ≤ limit
  | (_, .step c e) => ∀ s r outcome ev, x.pool.components[c]? = some s → s.request = .compare r →
      e.event = some (outcome, ev) → r.Asked env outcome ev

/-! ### What a step can do -/

section effect

variable [Zero P] [Add P] [Price P] {toLowerCase : String → String} {numText : ℚ → String} {d time : ℕ}
  {x y : TimedProcess P}

/-- An arrival, or a callback of the request `c`. -/
theorem step_eq_some {e : ProcessEvent P} (h : step toLowerCase numText d x (time, e) = some y) :
    x.Allows time e ∧ y.queue = x.nextQueue y.pool.components e ∧ y.now = time ∧ y.due = x.nextDue d time e ∧
      x.pool.components.any (timedProcess toLowerCase numText).stopped = false ∧
      ((∃ call, e = .arrive call ∧ y.pool.components =
          x.pool.components ++ [⟨call, time, (Request.arrive numText x.pool.shared call).2⟩]) ∨
        ∃ c cb s r, e = .step c cb ∧ x.pool.components[c]? = some s ∧
          s.request.step toLowerCase x.pool.shared cb = some r ∧
          y.pool.components = x.pool.components.set c { s with request := r.2 }) := by
  unfold step at h
  split at h
  · next ha =>
    obtain ⟨pool, hpool, rfl⟩ := Option.map_eq_some_iff.mp h
    obtain ⟨hrunning, hcases⟩ := Interleave.poolStep_eq_some hpool
    refine ⟨ha, rfl, rfl, rfl, hrunning, ?_⟩
    cases e with
    | arrive call =>
        rcases hcases with ⟨a, hcall, hc⟩ | ⟨_, _, _, _, hcall, -⟩
        · cases hcall
          exact .inl ⟨call, rfl, hc⟩
        · cases hcall
    | step c cb =>
        rcases hcases with ⟨_, hcall, -⟩ | ⟨_, _, s, z, hcall, hs, hz, hc⟩
        · cases hcall
        · cases hcall
          obtain ⟨r, hr, rfl⟩ := Option.map_eq_some_iff.mp hz
          exact .inr ⟨c, cb, s, r, rfl, hs, hr, hc⟩
  · cases h

end effect

end TimedProcess

/-! ### A callback and the timers of its request -/

section callback

variable [Add P] [Price P] {toLowerCase : String → String} {g : Globals P}

theorem step_item {q : ItemRequest} {cb : Callback P} {z : Globals P × Request P}
    (h : (Request.item q).step toLowerCase g cb = some z) :
    ∃ outcome, cb = .result outcome ∧ q.query.isSome = true ∧ z = (g, .item (q.onResult outcome)) := by
  cases cb with
  | result outcome =>
      obtain ⟨⟨hquery, -⟩, hz⟩ := Option.ite_none_right_eq_some.mp h
      exact ⟨outcome, rfl, hquery, (Option.some.inj hz).symm⟩
  | _ => cases h

theorem step_compare {r : CompareRequest P} {cb : Callback P} {z : Globals P × Request P}
    (h : (Request.compare r).step toLowerCase g cb = some z) :
    ∃ outcome e g' r', cb.event = some (outcome, e) ∧ r.step toLowerCase g outcome e = some (g', r') ∧
      z = (g', .compare r') := by
  obtain ⟨⟨outcome, e⟩, he, h⟩ := Option.bind_eq_some_iff.mp h
  obtain ⟨⟨g', r'⟩, hr, rfl⟩ := Option.map_eq_some_iff.mp h
  exact ⟨outcome, e, g', r', he, hr, rfl⟩

theorem queue_of_compareStep {r r' : CompareRequest P} {outcome : Except String (List (Row P))} {e : Event}
    {g' : Globals P} (h : r.step toLowerCase g outcome e = some (g', r')) :
    match e with
    | .query k => k < r.state.queries.length ∧ r'.state.queries = r.state.queries.eraseIdx k ∧
        r'.state.timers = r.state.timers ∧ r'.state.responding = r.state.responding
    | .timer i => i ∈ r.state.timers ∧ r'.state.timers = r.state.timers.erase i ∧
        r'.state.responding = r.state.responding ∧
        ∃ new : Option Query, r'.state.queries = r.state.queries ++ new.toList ∧
          ∀ q ∈ new, q.kind.isFirst = false
    | .respond => r.state.responding = true ∧ r'.state.queries = r.state.queries ∧
        r'.state.timers = r.state.timers ∧ r'.state.responding = false := by
  obtain ⟨s, hs, heq⟩ := Option.map_eq_some_iff.mp h
  obtain ⟨-, rfl⟩ := Prod.mk.inj heq
  have hq := queue_of_step hs
  cases e <;> exact hq

/-- An answer of the connection takes a query away. -/
theorem step_answer {r : Request P} {c : ℕ} {cb : Callback P} {z : Globals P × Request P}
    (ha : TimedProcess.isAnswer (.step c cb) = true) (h : r.step toLowerCase g cb = some z) :
    z.2.inFlight + 1 = r.inFlight ∧ z.2.timers = r.timers ∧ z.2.responding = r.responding ∧
      ∀ r', z.2 = .compare r' → ∃ r₀, r = .compare r₀ ∧ r'.state.queries ⊆ r₀.state.queries := by
  cases r with
  | item q =>
      obtain ⟨outcome, rfl, hquery, rfl⟩ := step_item h
      obtain ⟨sql, hsql⟩ := Option.isSome_iff_exists.mp hquery
      cases outcome <;> simp [Request.inFlight, Request.timers, Request.responding, ItemRequest.onResult, hsql]
  | compare r =>
      obtain ⟨outcome, e, g', r', he, hr, rfl⟩ := step_compare h
      have hq := queue_of_compareStep hr
      cases cb with
      | query k o =>
          cases he
          obtain ⟨hk, hqs, ht, hresp⟩ := hq
          refine ⟨?_, ht, hresp, ?_⟩
          · change r'.state.queries.length + 1 = r.state.queries.length
            rw [hqs, List.length_eraseIdx_of_lt hk]
            omega
          · rintro _ ⟨⟩
            refine ⟨r, rfl, ?_⟩
            rw [hqs]
            exact List.eraseIdx_subset
      | result o => cases he
      | timer i => cases ha
      | respond => cases ha

theorem step_timer {r : Request P} {i : ℕ} {z : Globals P × Request P}
    (h : r.step toLowerCase g (.timer i) = some z) :
    z.2.timers.length + 1 = r.timers.length ∧ z.2.responding = r.responding ∧
      r.inFlight ≤ z.2.inFlight ∧ z.2.inFlight ≤ r.inFlight + 1 ∧
      ∀ r', z.2 = .compare r' → ∃ r₀, r = .compare r₀ ∧
        ∀ q ∈ r'.state.queries, q ∈ r₀.state.queries ∨ q.kind.isFirst = false := by
  cases r with
  | item q =>
      obtain ⟨outcome, hcb, -⟩ := step_item h
      cases hcb
  | compare r =>
      obtain ⟨outcome, e, g', r', he, hr, rfl⟩ := step_compare h
      cases he
      obtain ⟨hi, ht, hresp, new, hqs, hnew⟩ := queue_of_compareStep hr
      have hpos := List.length_pos_of_mem hi
      have hnewlen : new.toList.length ≤ 1 := by cases new <;> simp
      have hlen : r'.state.queries.length = r.state.queries.length + new.toList.length := by
        rw [hqs, List.length_append]
      refine ⟨?_, hresp, ?_, ?_, ?_⟩
      · change r'.state.timers.length + 1 = r.state.timers.length
        rw [ht, List.length_erase_of_mem hi]
        omega
      · change r.state.queries.length ≤ r'.state.queries.length
        omega
      · change r'.state.queries.length ≤ r.state.queries.length + 1
        omega
      · rintro _ ⟨⟩
        refine ⟨r, rfl, fun q hq => ?_⟩
        rw [hqs] at hq
        exact (List.mem_append.mp hq).imp_right fun hq => hnew q (Option.mem_toList.mp hq)

theorem pending_of_step {r : Request P} {cb : Callback P} {z : Globals P × Request P}
    (h : r.step toLowerCase g cb = some z) : r.Pending := by
  cases r with
  | item q =>
      obtain ⟨outcome, -, hquery, -⟩ := step_item h
      exact Option.isSome_iff_ne_none.mp hquery
  | compare r =>
      obtain ⟨outcome, e, g', r', -, hr, -⟩ := step_compare h
      have hq := queue_of_compareStep hr
      cases e with
      | query k => exact .inl (List.ne_nil_of_length_pos (Nat.zero_lt_of_lt hq.1))
      | timer i => exact .inr (.inl (List.ne_nil_of_mem hq.1))
      | respond => exact .inr (.inr hq.1)

theorem step_respondTimer {r : Request P} {z : Globals P × Request P}
    (h : r.step toLowerCase g .respond = some z) :
    z.2.inFlight = r.inFlight ∧ z.2.timers = r.timers ∧ r.responding = true ∧
      ∀ r', z.2 = .compare r' → ∃ r₀, r = .compare r₀ ∧ r'.state.queries ⊆ r₀.state.queries := by
  cases r with
  | item q =>
      obtain ⟨outcome, hcb, -⟩ := step_item h
      cases hcb
  | compare r =>
      obtain ⟨outcome, e, g', r', he, hr, rfl⟩ := step_compare h
      cases he
      obtain ⟨hresp, hqs, ht, -⟩ := queue_of_compareStep hr
      refine ⟨congrArg List.length hqs, ht, hresp, ?_⟩
      rintro _ ⟨⟩
      exact ⟨r, rfl, hqs ▸ List.Subset.refl _⟩

end callback

/-! ### What a request has in flight -/

section phase

variable {numText : ℚ → String}

theorem length_texts_le (numText : ℚ → String) (call : Call) :
    (call.texts numText).length ≤ call.weight numText := by
  cases call with
  | item query => exact Nat.zero_le 1
  | compare body =>
      change _ ≤ 2 * _
      omega

/-- Until its first timer fires, a request has at most two queries for each item in flight; from
then on one for each timer that has fired, all of them second queries. -/
structure Phase (numText : ℚ → String) (s : Served P) : Prop where
  timers_le : s.request.timers.length ≤ (s.call.texts numText).length
  first : s.request.timers.length = (s.call.texts numText).length →
    s.request.inFlight ≤ s.call.weight numText
  later : s.request.timers.length < (s.call.texts numText).length →
    s.request.inFlight + s.request.timers.length ≤ (s.call.texts numText).length
  second : s.request.timers.length < (s.call.texts numText).length → ∀ r, s.request = .compare r →
    ∀ q ∈ r.state.queries, q.kind.isFirst = false

theorem Phase.inFlight_le {s : Served P} (h : Phase numText s) : s.request.inFlight ≤ s.call.weight numText := by
  rcases h.timers_le.lt_or_eq with hlt | heq
  · have := h.later hlt
    have := length_texts_le numText s.call
    omega
  · exact h.first heq

variable [Zero P]

/-- The state that the compare handler leaves; the response timer is set unless an item threw. -/
theorem onCompare_state (numText : ℚ → String) (body : List Json) :
    ∃ b, (onCompare (P := P) numText body).state =
      { State.start .init ((Call.compare body).texts numText) with responding := b } := by
  unfold onCompare
  cases hlist : requestList body with
  | none => exact ⟨false, by simp [Call.texts, hlist]⟩
  | some list =>
      rcases htexts : forEachItem numText list with ⟨texts, threw⟩
      cases threw with
      | true => exact ⟨false, by simp [Call.texts, hlist, htexts]⟩
      | false => exact ⟨true, by simp [Call.texts, hlist, htexts, State.start]⟩

theorem phase_arrive (numText : ℚ → String) (g : Globals P) (call : Call) (time : ℕ) :
    Phase numText ⟨call, time, (Request.arrive numText g call).2⟩ ∧
      (Request.arrive numText g call).2.timers.length = (call.texts numText).length := by
  cases call with
  | item query =>
      have hone : (Request.arrive numText g (.item query)).2.inFlight ≤ 1 := by
        change (onItem g query).2.query.toList.length ≤ 1
        cases (onItem g query).2.query <;> simp
      exact ⟨⟨le_rfl, fun _ => hone, fun hlt => absurd hlt (lt_irrefl 0),
        fun hlt => absurd hlt (lt_irrefl 0)⟩, rfl⟩
  | compare body =>
      obtain ⟨b, hb⟩ := onCompare_state (P := P) numText body
      have htimers : (Request.arrive numText g (.compare body)).2.timers.length =
          ((Call.compare body).texts numText).length := by
        change (onCompare (P := P) numText body).state.timers.length = _
        rw [hb]
        exact List.length_range
      have hqueries : (Request.arrive numText g (.compare body)).2.inFlight =
          2 * ((Call.compare body).texts numText).length := by
        change (onCompare (P := P) numText body).state.queries.length = _
        rw [hb]
        exact length_firstQueries 0 _
      exact ⟨⟨htimers.le, fun _ => hqueries.le, fun hlt => absurd htimers hlt.ne,
        fun hlt => absurd htimers hlt.ne⟩, htimers⟩

variable [Add P] [Price P] {toLowerCase : String → String} {g : Globals P} {s : Served P}
  {z : Globals P × Request P}

omit [Zero P] in
theorem phase_answer (h : Phase numText s) {c : ℕ} {cb : Callback P}
    (ha : TimedProcess.isAnswer (.step c cb) = true) (hstep : s.request.step toLowerCase g cb = some z) :
    Phase numText { s with request := z.2 } := by
  obtain ⟨hin, ht, -, hqs⟩ := step_answer ha hstep
  refine ⟨ht ▸ h.timers_le, fun heq => ?_, fun hlt => ?_, fun hlt r hr q hq => ?_⟩
  · have hle := h.first (ht ▸ heq)
    change z.2.inFlight ≤ s.call.weight numText
    omega
  · have hle := h.later (ht ▸ hlt)
    change z.2.inFlight + z.2.timers.length ≤ (s.call.texts numText).length
    rw [ht]
    omega
  · obtain ⟨r₀, hr₀, hsub⟩ := hqs r hr
    exact h.second (ht ▸ hlt) r₀ hr₀ q (hsub hq)

omit [Zero P] in
/-- The first timer fires when no query of the request is in flight. -/
theorem phase_timer (h : Phase numText s)
    (hnone : s.request.timers.length = (s.call.texts numText).length → s.request.inFlight = 0) {i : ℕ}
    (hstep : s.request.step toLowerCase g (.timer i) = some z) : Phase numText { s with request := z.2 } := by
  obtain ⟨ht, -, -, hin, hqs⟩ := step_timer hstep
  have hle := h.timers_le
  have hlt : z.2.timers.length < (s.call.texts numText).length := by omega
  refine ⟨hlt.le, fun heq => absurd heq hlt.ne, fun _ => ?_, fun _ r hr q hq => ?_⟩
  · change z.2.inFlight + z.2.timers.length ≤ (s.call.texts numText).length
    rcases hle.lt_or_eq with hlt' | heq
    · have := h.later hlt'
      omega
    · have := hnone heq
      omega
  · obtain ⟨r₀, hr₀, hq₀⟩ := hqs r hr
    rcases hq₀ q hq with hq₀ | hq₀
    · rcases hle.lt_or_eq with hlt' | heq
      · exact h.second hlt' r₀ hr₀ q hq₀
      · have hnil : r₀.state.queries.length = 0 := by
          have := hnone heq
          rwa [hr₀] at this
        rw [List.length_eq_zero_iff.mp hnil] at hq₀
        cases hq₀
    · exact hq₀

omit [Zero P] in
theorem phase_respond (h : Phase numText s) (hstep : s.request.step toLowerCase g .respond = some z) :
    Phase numText { s with request := z.2 } := by
  obtain ⟨hin, ht, -, hqs⟩ := step_respondTimer hstep
  refine ⟨ht ▸ h.timers_le, fun heq => hin.le.trans (h.first (ht ▸ heq)), fun hlt => ?_,
    fun hlt r hr q hq => ?_⟩
  · have hle := h.later (ht ▸ hlt)
    change z.2.inFlight + z.2.timers.length ≤ (s.call.texts numText).length
    rwa [hin, ht]
  · obtain ⟨r₀, hr₀, hsub⟩ := hqs r hr
    exact h.second (ht ▸ hlt) r₀ hr₀ q (hsub hq)

end phase

/-! ### Comparisons that have been in time so far -/

section timely

variable [Zero P] [Add P] [Price P] {env : Env P} {numText : ℚ → String} {s : Served P}

/-- A comparison is where a run of its own leads in which every timer has found the first queries
answered. -/
def TimelySoFar (env : Env P) (numText : ℚ → String) (s : Served P) : Prop :=
  ∀ r, s.request = .compare r → ∃ body es u, s.call = .compare body ∧
    run (step env) (onCompare numText body).state es = some u ∧
      EachStep (step env) Answered (onCompare numText body).state es ∧ r.state = u.local

theorem timelySoFar_arrive (g : Globals P) (call : Call) (time : ℕ) :
    TimelySoFar env numText ⟨call, time, (Request.arrive numText g call).2⟩ := by
  intro r hr
  cases call with
  | item query => cases hr
  | compare body =>
      cases hr
      exact ⟨body, [], _, rfl, rfl, trivial, (onCompare_local numText body).symm⟩

theorem timelySoFar_step (h : TimelySoFar env numText s) {g : Globals P} {cb : Callback P}
    {z : Globals P × Request P}
    (hasked : ∀ r outcome e, s.request = .compare r → cb.event = some (outcome, e) → r.Asked env outcome e)
    (hanswered : ∀ r i, s.request = .compare r → cb = .timer i →
      ∀ q ∈ r.state.queries, q.kind.isFirst = false)
    (hstep : s.request.step env.toLowerCase g cb = some z) :
    TimelySoFar env numText { s with request := z.2 } := by
  intro r' hr'
  cases hrequest : s.request with
  | item q =>
      rw [hrequest] at hstep
      obtain ⟨outcome, -, -, rfl⟩ := step_item hstep
      cases hr'
  | compare r =>
      rw [hrequest] at hstep
      obtain ⟨outcome, e, g', r₁, he, hr, rfl⟩ := step_compare hstep
      cases hr'
      obtain ⟨body, es, u, hcall, hrun, hin, hlocal⟩ := h r hrequest
      obtain ⟨u', hu', hlocal', -⟩ := compareStep_alone (hasked r outcome e hrequest he) hr hlocal
      refine ⟨body, es ++ [e], u', hcall, ?_, ?_, hlocal'⟩
      · rw [run_append, hrun, Option.bind_some, run_cons_of_eq hu', run_nil]
      · refine hin.append fun u₀ hu₀ => ?_
        obtain rfl : u = u₀ := Option.some.inj (hrun.symm.trans hu₀)
        refine fun _ _ => ⟨?_, trivial⟩
        cases e with
        | timer i =>
            have hcb : cb = .timer i := by cases cb <;> simp_all [Callback.event]
            intro q hq _
            exact hanswered r i hrequest hcb q (by rw [hlocal]; exact hq)
        | _ => trivial

end timely

namespace TimedProcess

/-! ### Requests by their numbers -/

section values

variable {f : Served P → ℕ} {components : List (Served P)} {c : ℕ}

theorem valueAt_of_getElem? {s : Served P} (h : components[c]? = some s) : valueAt f components c = f s := by
  simp [valueAt, h]

theorem valueAt_eq_zero (h : components.length ≤ c) : valueAt f components c = 0 := by
  simp [valueAt, List.getElem?_eq_none h]

theorem valueAt_set_self {s s' : Served P} (h : components[c]? = some s) :
    valueAt f (components.set c s') c = f s' :=
  valueAt_of_getElem? (List.getElem?_set_self (List.getElem?_eq_some_iff.mp h).1)

theorem valueAt_set_of_ne {c' : ℕ} (h : c ≠ c') (s' : Served P) :
    valueAt f (components.set c s') c' = valueAt f components c' := by
  rw [valueAt, valueAt, List.getElem?_set_ne h]

theorem valueAt_concat_length (s' : Served P) : valueAt f (components ++ [s']) components.length = f s' :=
  valueAt_of_getElem? List.getElem?_concat_length

theorem valueAt_concat_of_ne (h : components.length ≠ c) (s' : Served P) :
    valueAt f (components ++ [s']) c = valueAt f components c := by
  rw [valueAt, valueAt, Interleave.getElem?_concat_of_ne h]

theorem sum_valueAt (f : Served P → ℕ) (components : List (Served P)) :
    ∑ c ∈ Finset.range components.length, valueAt f components c = (components.map f).sum := by
  induction components with
  | nil => rfl
  | cons s components ih =>
      rw [List.length_cons, Finset.sum_range_succ', List.map_cons, List.sum_cons, ← ih, Nat.add_comm]
      rfl

theorem valueAt_set_of_eq {s s' : Served P} (h : components[c]? = some s) (hf : f s' = f s) :
    valueAt f (components.set c s') = valueAt f components := by
  funext c'
  by_cases hc : c = c'
  · subst hc
    rw [valueAt_set_self h, valueAt_of_getElem? h, hf]
  · exact valueAt_set_of_ne hc s'

theorem sum_set_le {s s' : Served P} (h : components[c]? = some s) (hle : f s' ≤ f s) :
    ((components.set c s').map f).sum ≤ (components.map f).sum := by
  induction components generalizing c with
  | nil => cases h
  | cons s₀ components ih =>
      cases c with
      | zero =>
          obtain rfl := Option.some.inj h
          simpa using hle
      | succ c => simpa using ih h

/-- The requests after a callback of one of them. -/
theorem forall_set {Q : Served P → Prop} {s' : Served P} (h : ∀ s ∈ components, Q s) (hs' : Q s') :
    ∀ s ∈ components.set c s', Q s := by
  intro s hs
  rcases List.mem_or_eq_of_mem_set hs with hs | rfl
  · exact h s hs
  · exact hs'

end values

/-! ### The queue is ahead of the timers -/

section keeps

variable {env : Env P} {numText : ℚ → String} {limit d : ℕ}

/-- The moment by which the queries in flight of a request have to be answered. -/
def deadline (numText : ℚ → String) (s : Served P) : ℕ :=
  if s.request.timers.length = (s.call.texts numText).length then s.arrived + 500 else s.arrived + 1000

/-- What a request adds to the load. -/
def share (numText : ℚ → String) (s : Served P) : ℕ :=
  if s.request.Pending then s.call.weight numText else 0

theorem inFlight_le_share {s : Served P} (h : Phase numText s) : s.request.inFlight ≤ share numText s := by
  unfold share
  split_ifs with hp
  · exact h.inFlight_le
  · obtain ⟨call, arrived, request⟩ := s
    cases request with
    | item q => simp_all [Request.Pending, Request.inFlight]
    | compare r => simp_all [Request.Pending, Request.inFlight]

/-- No more queries are in flight than the load says. -/
theorem length_queue_le {queue : List ℕ} {components : List (Served P)}
    (hcount : ∀ c, queue.count c = inFlightAt components c) (hphase : ∀ s ∈ components, Phase numText s) :
    queue.length ≤ (components.map (share numText)).sum := by
  rw [Deadline.length_eq_sum hcount fun c hc => valueAt_eq_zero hc]
  exact (sum_valueAt _ components).trans_le
    (List.sum_le_sum fun s hs => inFlight_le_share (hphase s hs))

theorem share_le {s : Served P} (h : s.request.Pending) (r : Request P) :
    share numText { s with request := r } ≤ share numText s := by
  unfold share
  rw [if_pos h]
  split_ifs
  · exact le_rfl
  · exact Nat.zero_le _

/-- All queries in flight are answered before the timers that read their results. -/
structure Keeps [Zero P] [Add P] [Price P] (env : Env P) (numText : ℚ → String) (limit d : ℕ)
    (x : TimedProcess P) : Prop where
  phase : ∀ s ∈ x.pool.components, Phase numText s
  timely : ∀ s ∈ x.pool.components, TimelySoFar env numText s
  count : ∀ c, x.queue.count c = inFlightAt x.pool.components c
  due : x.queue ≠ [] → x.due ≤ x.now + d
  onTime : OnTime d x.due (valueAt (deadline numText) x.pool.components) x.queue
  load : x.load numText ≤ limit

variable [Zero P] [Add P] [Price P] {time c : ℕ} {cb : Callback P} {x y : TimedProcess P}

/-- What a callback does. -/
theorem callback_eq_some {toLowerCase : String → String}
    (h : step toLowerCase numText d x (time, .step c cb) = some y) :
    x.Allows time (.step c cb) ∧ y.now = time ∧ y.due = x.nextDue d time (.step c cb) ∧
      ∃ s z, x.pool.components[c]? = some s ∧ s.request.step toLowerCase x.pool.shared cb = some z ∧
        y.pool.components = x.pool.components.set c { s with request := z.2 } ∧
        y.queue = x.nextQueue y.pool.components (.step c cb) := by
  obtain ⟨ha, hq, hnow, hdue, -, ⟨call, hcall, -⟩ | ⟨c', cb', s, z, hcb, hs, hz, hc⟩⟩ := step_eq_some h
  · cases hcall
  · cases hcb
    exact ⟨ha, hnow, hdue, s, z, hs, hz, hc, hq⟩

/-- New queries come to the end of the queue; everything in it is answered in time if what is new
can wait for all of it. -/
theorem onTime_issue (hcap : limit * d < 500) (hi : Keeps env numText limit d x) {e : ProcessEvent P} {n : ℕ}
    (he : isAnswer e = false) (hnow : x.now ≤ time) (hqueue : y.queue = x.queue ++ List.replicate n c)
    (hdue : y.due = x.nextDue d time e) (hlen : y.queue.length ≤ limit)
    (hle : ∀ a ∈ x.queue, valueAt (deadline numText) x.pool.components a ≤
      valueAt (deadline numText) y.pool.components a)
    (hnew : n ≠ 0 → time + 500 ≤ valueAt (deadline numText) y.pool.components c) :
    y.due ≤ time + d ∧ OnTime d y.due (valueAt (deadline numText) y.pool.components) y.queue := by
  have hold : y.due ≤ time + d ∧
      OnTime d y.due (valueAt (deadline numText) y.pool.components) x.queue := by
    rw [hdue, nextDue, he]
    by_cases hx : x.queue = []
    · rw [if_pos (.inr hx), hx]
      exact ⟨le_rfl, Deadline.onTime_nil⟩
    · rw [if_neg (by simp [hx])]
      exact ⟨(hi.due hx).trans (by omega), hi.onTime.mono hle⟩
  refine ⟨hold.1, ?_⟩
  rw [hqueue]
  refine hold.2.append hold.1 fun a ha => ?_
  obtain ⟨hn, rfl⟩ := List.mem_replicate.mp ha
  have hmul : (x.queue ++ List.replicate n a).length * d ≤ limit * d :=
    Nat.mul_le_mul_right d (hqueue ▸ hlen)
  have := hnew hn
  omega

/-- No query of a request is in flight when its deadline has come. -/
theorem inFlight_eq_zero (hi : Keeps env numText limit d x) {s : Served P}
    (hs : x.pool.components[c]? = some s) (hdue : x.queue ≠ [] → time ≤ x.due)
    (htime : deadline numText s ≤ time) : s.request.inFlight = 0 := by
  have hnot : c ∉ x.queue := by
    intro hmem
    have hle : valueAt (deadline numText) x.pool.components c ≤ x.due := by
      rw [valueAt_of_getElem? hs]
      exact htime.trans (hdue (List.ne_nil_of_mem hmem))
    exact hi.onTime.notMem hle hmem
  have hcount := hi.count c
  rw [List.count_eq_zero.mpr hnot, inFlightAt, valueAt_of_getElem? hs] at hcount
  exact hcount.symm

omit [Zero P] in
/-- A callback adds nothing to the load. -/
theorem load_callback_le {s : Served P} {z : Globals P × Request P} {toLowerCase : String → String}
    (hs : x.pool.components[c]? = some s) (hz : s.request.step toLowerCase x.pool.shared cb = some z)
    (hc : y.pool.components = x.pool.components.set c { s with request := z.2 }) :
    y.load numText ≤ x.load numText := by
  unfold load
  rw [hc]
  exact sum_set_le (f := share numText) hs (share_le (pending_of_step hz) z.2)

theorem keeps_answer (hi : Keeps env numText limit d x) (hans : isAnswer (.step c cb) = true)
    (hin : Light env numText limit x (time, .step c cb))
    (h : step env.toLowerCase numText d x (time, .step c cb) = some y) : Keeps env numText limit d y := by
  obtain ⟨ha, hnow, hdue, s, z, hs, hz, hc, hq⟩ := callback_eq_some h
  obtain ⟨hcount, ht, -, -⟩ := step_answer hans hz
  have hmem := List.mem_of_getElem? hs
  have hhead : x.queue.head? = some c := by
    cases cb with
    | result outcome => exact ha.own
    | query k outcome => exact ha.own.2
    | timer i => cases hans
    | respond => cases hans
  obtain ⟨queue, hqueue⟩ := List.head?_eq_some_iff.mp hhead
  have hrest : y.queue = queue := by
    rw [hq, nextQueue, if_pos hans, hqueue]
    rfl
  have hdue : y.due = time + d := by rw [hdue, nextDue, if_pos (.inl hans)]
  have hdeadline : deadline numText { s with request := z.2 } = deadline numText s := by simp [deadline, ht]
  refine ⟨?_, ?_, fun c' => ?_, fun _ => by omega, ?_, (load_callback_le hs hz hc).trans hi.load⟩
  · rw [hc]
    exact forall_set hi.phase (phase_answer (hi.phase s hmem) hans hz)
  · rw [hc]
    refine forall_set hi.timely (timelySoFar_step (hi.timely s hmem) (hin s · · · hs) ?_ hz)
    rintro r i - rfl
    cases hans
  · have hold := hi.count c'
    rw [hqueue, List.count_cons] at hold
    rw [hrest, hc]
    by_cases hcc : c = c'
    · subst hcc
      rw [inFlightAt, valueAt_of_getElem? hs] at hold
      rw [inFlightAt, valueAt_set_self hs]
      simp only [beq_self_eq_true, if_true] at hold
      change queue.count c = z.2.inFlight
      omega
    · have hsame : queue.count c' = inFlightAt x.pool.components c' := by simpa [hcc] using hold
      exact hsame.trans (valueAt_set_of_ne hcc _).symm
  · rw [hrest, hdue, hc, valueAt_set_of_eq hs hdeadline]
    have honTime := hi.onTime
    rw [hqueue] at honTime
    exact honTime.serve (ha.due (by simp [hqueue]))

/-- A callback that may issue queries, when the deadline of its request does not come earlier. -/
theorem keeps_issue (hcap : limit * d < 500) (hi : Keeps env numText limit d x)
    (hans : isAnswer (.step c cb) = false) {s : Served P} {z : Globals P × Request P}
    (ha : x.Allows time (.step c cb)) (hnow : y.now = time) (hdue : y.due = x.nextDue d time (.step c cb))
    (hs : x.pool.components[c]? = some s) (hz : s.request.step env.toLowerCase x.pool.shared cb = some z)
    (hc : y.pool.components = x.pool.components.set c { s with request := z.2 })
    (hq : y.queue = x.nextQueue y.pool.components (.step c cb))
    (hphase : Phase numText { s with request := z.2 })
    (htimely : TimelySoFar env numText { s with request := z.2 })
    (hle : s.request.inFlight ≤ z.2.inFlight)
    (hdeadline : deadline numText s ≤ deadline numText { s with request := z.2 })
    (hnew : z.2.inFlight ≠ s.request.inFlight → time + 500 ≤ deadline numText { s with request := z.2 }) :
    Keeps env numText limit d y := by
  have hqueue : y.queue = x.queue ++ List.replicate (z.2.inFlight - s.request.inFlight) c := by
    rw [hq, nextQueue, hans, hc]
    simp only [Bool.false_eq_true, if_false, subject, inFlightAt]
    rw [valueAt_set_self hs, valueAt_of_getElem? hs]
  have hphases : ∀ s ∈ y.pool.components, Phase numText s := by
    rw [hc]
    exact forall_set hi.phase hphase
  have hcount (c' : ℕ) : y.queue.count c' = inFlightAt y.pool.components c' := by
    rw [hqueue, hc, List.count_append, hi.count c', List.count_replicate]
    by_cases hcc : c = c'
    · subst hcc
      rw [inFlightAt, valueAt_set_self hs, valueAt_of_getElem? hs]
      simp only [beq_self_eq_true, if_true]
      omega
    · rw [inFlightAt, valueAt_set_of_ne hcc]
      simp [hcc]
  have hload : y.load numText ≤ limit := (load_callback_le hs hz hc).trans hi.load
  obtain ⟨hle', honTime⟩ := onTime_issue (c := c) hcap hi hans ha.now hqueue hdue
    ((length_queue_le hcount hphases).trans hload) (fun a _ => by
      rw [hc]
      by_cases hca : c = a
      · subst hca
        rwa [valueAt_of_getElem? hs, valueAt_set_self hs]
      · rw [valueAt_set_of_ne hca]) (fun hn => by
      rw [hc, valueAt_set_self hs]
      exact hnew (by omega))
  refine ⟨hphases, ?_, hcount, fun _ => hnow ▸ hle', honTime, hload⟩
  rw [hc]
  exact forall_set hi.timely htimely

theorem keeps_timer (hcap : limit * d < 500) (hi : Keeps env numText limit d x) {i : ℕ}
    (hin : Light env numText limit x (time, .step c (.timer i)))
    (h : step env.toLowerCase numText d x (time, .step c (.timer i)) = some y) :
    Keeps env numText limit d y := by
  obtain ⟨ha, hnow, hdue, s, z, hs, hz, hc, hq⟩ := callback_eq_some h
  obtain ⟨ht, -, hle, -, -⟩ := step_timer hz
  have hmem := List.mem_of_getElem? hs
  have hphase := hi.phase s hmem
  have htime : s.arrived + 500 = time := by
    have hown : x.pool.components[c]?.map (fun s => s.arrived + 500) = some time := ha.own
    simpa [hs] using hown
  have hnone : s.request.timers.length = (s.call.texts numText).length → s.request.inFlight = 0 := by
    intro heq
    refine inFlight_eq_zero hi hs ha.due ?_
    rw [deadline, if_pos heq]
    exact htime.le
  have hanswered : ∀ r i', s.request = .compare r → Callback.timer (P := P) i = .timer i' →
      ∀ q ∈ r.state.queries, q.kind.isFirst = false := by
    intro r i' hr _
    rcases hphase.timers_le.lt_or_eq with hlt | heq
    · exact hphase.second hlt r hr
    · have hnil : r.state.queries.length = 0 := by
        have := hnone heq
        rwa [hr] at this
      rw [List.length_eq_zero_iff.mp hnil]
      simp
  have hlt := hphase.timers_le
  have hdeadline : deadline numText { s with request := z.2 } = s.arrived + 1000 := if_neg (by
    change ¬ z.2.timers.length = (s.call.texts numText).length
    omega)
  refine keeps_issue hcap hi rfl ha hnow hdue hs hz hc hq (phase_timer hphase hnone hz)
    (timelySoFar_step (hi.timely s hmem) (hin s · · · hs) hanswered hz) hle ?_ fun _ => ?_
  · rw [hdeadline, deadline]
    split_ifs <;> omega
  · rw [hdeadline]
    omega

theorem keeps_respond (hcap : limit * d < 500) (hi : Keeps env numText limit d x)
    (hin : Light env numText limit x (time, .step c .respond))
    (h : step env.toLowerCase numText d x (time, .step c .respond) = some y) :
    Keeps env numText limit d y := by
  obtain ⟨ha, hnow, hdue, s, z, hs, hz, hc, hq⟩ := callback_eq_some h
  obtain ⟨hsame, ht, -, -⟩ := step_respondTimer hz
  have hmem := List.mem_of_getElem? hs
  have hdeadline : deadline numText { s with request := z.2 } = deadline numText s := by simp [deadline, ht]
  exact keeps_issue hcap hi rfl ha hnow hdue hs hz hc hq (phase_respond (hi.phase s hmem) hz)
    (timelySoFar_step (hi.timely s hmem) (hin s · · · hs) (by simp) hz) hsame.ge hdeadline.ge
    fun hne => absurd hsame hne

theorem keeps_arrive (hcap : limit * d < 500) (hi : Keeps env numText limit d x) {call : Call}
    (hin : Light env numText limit x (time, .arrive call))
    (h : step env.toLowerCase numText d x (time, .arrive call) = some y) : Keeps env numText limit d y := by
  obtain ⟨ha, hq, hnow, hdue, -, ⟨call', hcall, hc⟩ | ⟨_, _, _, _, hcall, -⟩⟩ := step_eq_some h
  · cases hcall
    obtain ⟨hphase, htimers⟩ := phase_arrive numText x.pool.shared call time
    have hshared : TimelySoFar env numText _ := timelySoFar_arrive x.pool.shared call time
    generalize hs' : Served.mk call time (Request.arrive numText x.pool.shared call).2 = s'
      at hc hphase hshared
    have hdeadline : deadline numText s' = time + 500 := by
      subst hs'
      exact if_pos htimers
    have hqueue : y.queue =
        x.queue ++ List.replicate s'.request.inFlight x.pool.components.length := by
      rw [hq, nextQueue, hc]
      simp only [isAnswer, Bool.false_eq_true, if_false, subject, inFlightAt]
      rw [valueAt_concat_length, valueAt_eq_zero le_rfl, Nat.sub_zero]
    have hphases : ∀ s ∈ y.pool.components, Phase numText s := by
      rw [hc]
      exact List.forall_mem_append.mpr ⟨hi.phase, by simpa using hphase⟩
    have hcount (c : ℕ) : y.queue.count c = inFlightAt y.pool.components c := by
      rw [hqueue, hc, List.count_append, hi.count c, List.count_replicate]
      by_cases hcc : x.pool.components.length = c
      · subst hcc
        rw [inFlightAt, valueAt_concat_length, valueAt_eq_zero le_rfl]
        simp
      · rw [inFlightAt, valueAt_concat_of_ne hcc]
        simp [hcc]
    have hload : y.load numText ≤ limit := by
      have hshare : share numText s' ≤ call.weight numText := by
        subst hs'
        unfold share
        split_ifs <;> simp
      have hsum : y.load numText = x.load numText + share numText s' := by
        unfold load
        rw [hc, List.map_append, List.sum_append]
        simp [share]
      have hlight : x.load numText + call.weight numText ≤ limit := hin
      omega
    obtain ⟨hle, honTime⟩ := onTime_issue (e := .arrive call) hcap hi rfl ha.now hqueue hdue
      ((length_queue_le hcount hphases).trans hload) (fun a hmem => by
        have hne : x.pool.components.length ≠ a := by
          rintro rfl
          have hzero := hi.count x.pool.components.length
          rw [inFlightAt, valueAt_eq_zero le_rfl, List.count_eq_zero] at hzero
          exact hzero hmem
        rw [hc, valueAt_concat_of_ne hne]) (fun _ => by
        rw [hc, valueAt_concat_length, hdeadline])
    refine ⟨hphases, ?_, hcount, fun _ => hnow ▸ hle, honTime, hload⟩
    rw [hc]
    exact List.forall_mem_append.mpr ⟨hi.timely, by simpa using hshared⟩
  · cases hcall

theorem keeps_step (hcap : limit * d < 500) (hi : Keeps env numText limit d x) {e : ℕ × ProcessEvent P}
    (hin : Light env numText limit x e) (h : step env.toLowerCase numText d x e = some y) :
    Keeps env numText limit d y := by
  obtain ⟨time, e⟩ := e
  cases e with
  | arrive call => exact keeps_arrive hcap hi hin h
  | step c cb =>
      cases cb with
      | result outcome => exact keeps_answer hi rfl hin h
      | query k outcome => exact keeps_answer hi rfl hin h
      | timer i => exact keeps_timer hcap hi hin h
      | respond => exact keeps_respond hcap hi hin h

theorem keeps_start (g : Globals P) : Keeps env numText limit d (start g) where
  phase := by simp [start]
  timely := by simp [start]
  count := by simp [start, inFlightAt, valueAt]
  due := by simp [start]
  onTime := Deadline.onTime_nil
  load := Nat.zero_le limit

end keeps

/-! ### Light loads -/

/-- The response timer of the comparison `c` of `body` fires in `x`, after a run in which the load
has not got above `limit`. -/
structure Responds [Zero P] [Add P] [Price P] (env : Env P) (numText : ℚ → String) (limit d : ℕ)
    (g : Globals P) (es : List (ℕ × ProcessEvent P)) (x : TimedProcess P) (c arrived : ℕ)
    (body : List Json) (r : CompareRequest P) : Prop where
  run : Guarded.run (step env.toLowerCase numText d) (start g) es = some x
  light : EachStep (step env.toLowerCase numText d) (Light env numText limit) (start g) es
  request : x.pool.components[c]? = some ⟨.compare body, arrived, .compare r⟩
  allows : x.Allows (arrived + 1000) (.step c .respond)
  responding : r.state.responding = true
  thrown : r.state.thrown = none

section light

variable [AddCommMonoid P] [Price P] {env : Env P} {numText : ℚ → String} {limit d : ℕ}

theorem responding_of_run {s t : State P} {es : List Event} (hs : s.responding = false)
    (ht : run (Server.step env) s es = some t) : t.responding = false := by
  refine inv_of_run (fun s => s.responding = false) (fun s e s' hi h => ?_) hs ht
  have hq := queue_of_step h
  cases e with
  | query k => exact hq.2.2.2.trans hi
  | timer i => exact hq.2.2.1.trans hi
  | respond => exact hq.2.2.2

/-- With a light load, every comparison responds with what its items are due. -/
theorem Responds.tally_eq {g : Globals P} {es : List (ℕ × ProcessEvent P)} {x : TimedProcess P}
    {c arrived : ℕ} {body : List Json} {r : CompareRequest P}
    (h : Responds env numText limit d g es x c arrived body r) (hcap : limit * d < 500) :
    r.state.info.tally = (((Call.compare body).texts numText).map (dueItem env)).sum := by
  have hi : Keeps env numText limit d x := (eachState_of_inv (Keeps env numText limit d)
    (fun _ _ _ hi hin h => keeps_step hcap hi hin h) (fun _ hi => hi) (keeps_start g) h.light).last h.run
  have hmem := List.mem_of_getElem? h.request
  have hqueries : r.state.queries = [] := by
    refine List.length_eq_zero_iff.mp (inFlight_eq_zero hi h.request h.allows.due ?_)
    unfold deadline
    split_ifs <;> simp
  have htimers : r.state.timers = [] := by
    by_contra hne
    have htime : arrived + 1000 ≤ arrived + 500 := h.allows.timers _ hmem hne
    omega
  obtain ⟨body', es', u, hcall, hrun, hanswered, hlocal⟩ := hi.timely _ hmem r rfl
  cases hcall
  have hu : r.state.responding = u.responding ∧ r.state.timers = u.timers ∧
      r.state.queries = u.queries ∧ r.state.thrown = u.thrown ∧ r.state.info = u.info := by
    rw [hlocal]
    exact ⟨rfl, rfl, rfl, rfl, rfl⟩
  obtain ⟨hresponding, htimers', hqueries', hthrown, hinfo⟩ := hu
  obtain ⟨b, hb⟩ := onCompare_state (P := P) numText body
  cases b with
  | false =>
      have hfalse := responding_of_run (by rw [hb]) hrun
      rw [← hresponding, h.responding] at hfalse
      cases hfalse
  | true =>
      have hstart : (onCompare numText body).state = State.start .init ((Call.compare body).texts numText) := hb
      rw [hstart] at hrun hanswered
      have hresponds : Server.Responds env .init ((Call.compare body).texts numText) es' u :=
        ⟨hrun, htimers' ▸ htimers, hresponding ▸ h.responding, hthrown ▸ h.thrown⟩
      have htimely : Timely env .init ((Call.compare body).texts numText) es' u :=
        ⟨hanswered, hqueries' ▸ hqueries⟩
      rw [hinfo]
      exact (tally_eq_due_iff hresponds).mpr htimely.inTime

end light

/-! ### A comparison that has the process to itself -/

section alone

variable [AddCommMonoid P] [Price P] {env : Env P} {d : ℕ} {body : List Json}

/-- Over the database's answer, the callback of a comparison in a process is that of the
comparison alone. -/
theorem exists_compareStep {u u' : State P} {e : Event} {r : CompareRequest P}
    {outcome : Except String (List (Row P))} (hu : r.state = u.local) (hdb : r.Asked env outcome e)
    (h : Server.step env u e = some u') (g : Globals P) :
    ∃ z, r.step env.toLowerCase g outcome e = some z ∧ z.2.state = u'.local := by
  have hsnd := snd_compareStep hdb hu g
  rw [h, Option.map_some] at hsnd
  obtain ⟨z, hz, hkept⟩ := Option.map_eq_some_iff.mp hsnd
  exact ⟨z, hz, congrArg CompareRequest.state hkept⟩

/-- The process `X` serves nothing but the comparison of `body` that is in `x`. -/
structure Alone (body : List Json) (x : Timed P) (X : TimedProcess P) : Prop where
  components : ∃ r, X.pool.components = [⟨.compare body, 0, .compare r⟩] ∧ r.state = x.state.local
  queue : X.queue = List.replicate x.state.queries.length 0
  now : X.now = x.now
  due : x.state.queries ≠ [] → X.due = x.due

/-- The callback of `e`, with the answer of the database. -/
def callbackOf (env : Env P) (s : State P) : Event → Callback P
  | .query k => .query k (match s.queries[k]? with
      | some q => env.query q.text
      | none => .ok [])
  | .timer i => .timer i
  | .respond => .respond

omit [AddCommMonoid P] [Price P] in
theorem exists_asked (env : Env P) {s : State P} {r : CompareRequest P} (hlocal : r.state = s.local) (e : Event) :
    ∃ outcome, (callbackOf env s e).event = some (outcome, e) ∧ r.Asked env outcome e := by
  cases e with
  | query k =>
      refine ⟨_, rfl, fun q hq => ?_⟩
      have hq : s.queries[k]? = some q := by
        rw [hlocal] at hq
        exact hq
      rw [hq]
  | timer i => exact ⟨_, rfl, trivial⟩
  | respond => exact ⟨_, rfl, trivial⟩

theorem allows_alone {x : Timed P} {X : TimedProcess P} (ha : Alone body x X) {time : ℕ} {e : Event}
    {s : State P} (h : x.allows time e = true) (hs : Server.step env x.state e = some s) :
    X.Allows time (.step 0 (callbackOf env x.state e)) := by
  obtain ⟨hnow, hdue, htimers, hresponse, hown⟩ := Timed.allows_iff.mp h
  obtain ⟨r, hcomps, hlocal⟩ := ha.components
  have hq := queue_of_step hs
  refine ⟨ha.now ▸ hnow, fun hne => ?_, ?_, ?_, ?_⟩
  · have hqueries : x.state.queries ≠ [] := by
      intro hnil
      rw [ha.queue, hnil] at hne
      exact hne rfl
    exact ha.due hqueries ▸ hdue hqueries
  · rw [hcomps]
    refine List.forall_mem_singleton.mpr fun hne => ?_
    change r.state.timers ≠ [] at hne
    rw [hlocal] at hne
    simpa using htimers hne
  · rw [hcomps]
    refine List.forall_mem_singleton.mpr fun htrue => ?_
    change r.state.responding = true at htrue
    rw [hlocal] at htrue
    simpa using hresponse htrue
  · cases e with
    | query k =>
        refine ⟨by simpa [Timed.ownTime] using hown, ?_⟩
        have hpos : x.state.queries.length ≠ 0 := (Nat.zero_lt_of_lt hq.1).ne'
        rw [ha.queue, List.head?_replicate, if_neg hpos]
    | timer i =>
        have htime : time = 500 := by simpa [Timed.ownTime] using hown
        change X.pool.components[0]?.map _ = some time
        simp [hcomps, htime]
    | respond =>
        have htime : time = 1000 := by simpa [Timed.ownTime] using hown
        change X.pool.components[0]?.map _ = some time
        simp [hcomps, htime]

theorem exists_step_alone (numText : ℚ → String) (limit : ℕ) {x x' : Timed P} {X : TimedProcess P}
    (ha : Alone body x X) {time : ℕ} {e : Event} (h : Timed.step env d x (time, e) = some x') :
    ∃ X', step env.toLowerCase numText d X (time, .step 0 (callbackOf env x.state e)) = some X' ∧
      Light env numText limit X (time, .step 0 (callbackOf env x.state e)) ∧ Alone body x' X' := by
  obtain ⟨hallows, hs, hnow, hdue⟩ := Timed.step_eq_some h
  obtain ⟨r, hcomps, hlocal⟩ := ha.components
  obtain ⟨outcome, hevent, hasked⟩ := exists_asked env hlocal e
  obtain ⟨z, hz, hzlocal⟩ := exists_compareStep hlocal hasked hs X.pool.shared
  have hthrown : r.state.thrown = none := by
    rw [hlocal]
    exact (effect_of_step hs).2
  have hpool : (timedProcess env.toLowerCase numText).poolStep X.pool
      (stamp time (.step 0 (callbackOf env x.state e))) = some ⟨z.1, [⟨.compare body, 0, .compare z.2⟩]⟩ := by
    simp [Interleave.System.poolStep, stamp, hcomps, timedProcess, Request.step, hevent, hz, Request.thrown,
      hthrown]
  have hX : X.Allows time (.step 0 (callbackOf env x.state e)) := allows_alone ha hallows hs
  refine ⟨⟨⟨z.1, [⟨.compare body, 0, .compare z.2⟩]⟩, X.nextQueue [⟨.compare body, 0, .compare z.2⟩]
    (.step 0 (callbackOf env x.state e)), time, X.nextDue d time (.step 0 (callbackOf env x.state e))⟩,
    ?_, ?_, ⟨⟨z.2, rfl, hzlocal⟩, ?_, hnow.symm, ?_⟩⟩
  · rw [step, if_pos hX, hpool]
    rfl
  · intro s r' outcome' ev hs' hr' hev
    obtain rfl : Served.mk (.compare body) 0 (.compare r) = s := by simpa [hcomps] using hs'
    cases hr'
    obtain ⟨rfl, rfl⟩ := Prod.mk.inj (Option.some.inj (hevent.symm.trans hev))
    exact hasked
  · have hold : inFlightAt X.pool.components 0 = x.state.queries.length := by
      rw [hcomps]
      change r.state.queries.length = _
      rw [hlocal]
      rfl
    have hnew : inFlightAt [⟨.compare body, 0, .compare z.2⟩] 0 = x'.state.queries.length := by
      change z.2.state.queries.length = _
      rw [hzlocal]
      rfl
    have hq := queue_of_step hs
    cases e with
    | query k =>
        obtain ⟨hk, hqs, -, -⟩ := hq
        change X.queue.tail = _
        rw [ha.queue, List.tail_replicate, hqs, List.length_eraseIdx_of_lt hk]
    | timer i =>
        obtain ⟨-, -, -, new, hqs, -⟩ := hq
        change X.queue ++ List.replicate (inFlightAt _ 0 - inFlightAt _ 0) 0 = _
        rw [hold, hnew, ha.queue, List.replicate_append_replicate, hqs, List.length_append]
        congr 1
        omega
    | respond =>
        obtain ⟨-, hqs, -, -⟩ := hq
        change X.queue ++ List.replicate (inFlightAt _ 0 - inFlightAt _ 0) 0 = _
        rw [hold, hnew, ha.queue, List.replicate_append_replicate, hqs]
        congr 1
        omega
  · intro hne
    have hempty : X.queue = [] ↔ x.state.queries = [] := by
      rw [ha.queue, List.replicate_eq_nil_iff, List.length_eq_zero_iff]
    have hq := queue_of_step hs
    rw [hdue]
    cases e with
    | query k => rfl
    | timer i =>
        by_cases hnil : x.state.queries = []
        · simp [nextDue, Timed.nextDue, hempty, hnil]
        · simp [nextDue, Timed.nextDue, hempty, hnil, callbackOf, isAnswer, ha.due]
    | respond =>
        have hnil : x.state.queries ≠ [] := hq.2.1 ▸ hne
        simp [nextDue, Timed.nextDue, hempty, hnil, callbackOf, isAnswer, ha.due]

theorem exists_run_alone (numText : ℚ → String) (limit : ℕ) {ts : List (ℕ × Event)} {x x' : Timed P}
    {X : TimedProcess P} (ha : Alone body x X) (h : run (Timed.step env d) x ts = some x') :
    ∃ es X', run (step env.toLowerCase numText d) X es = some X' ∧
      EachStep (step env.toLowerCase numText d) (Light env numText limit) X es ∧ Alone body x' X' := by
  induction ts generalizing x X with
  | nil =>
      obtain rfl := Option.some.inj h
      exact ⟨[], X, rfl, trivial, ha⟩
  | cons e ts ih =>
      obtain ⟨y, hy, hrun⟩ := run_cons_eq_some.mp h
      obtain ⟨time, e⟩ := e
      obtain ⟨Y, hstep, hlight, haY⟩ := exists_step_alone numText limit ha hy
      obtain ⟨es, X', hrun', hlight', ha'⟩ := ih haY hrun
      refine ⟨_ :: es, X', (run_cons_of_eq hstep es).trans hrun', fun Y' hY' => ⟨hlight, ?_⟩, ha'⟩
      obtain rfl := Option.some.inj (hstep.symm.trans hY')
      exact hlight'

/-- The same item `n` times. -/
def milkBody (n : ℕ) : List Json := List.replicate n (.obj [("itemname", .str "milk")])

theorem requestList_milkBody (n : ℕ) :
    requestList (milkBody n) = some (List.replicate n (some (.str "milk"))) := by
  unfold requestList milkBody
  induction n with
  | zero => rfl
  | succ n ih =>
      rw [List.replicate_succ, List.mapM_cons, ih]
      rfl

theorem forEachItem_milk (numText : ℚ → String) (n : ℕ) :
    forEachItem numText (List.replicate n (some (.str "milk"))) = (List.replicate n "milk", false) := by
  induction n with
  | zero => rfl
  | succ n ih =>
      have htext : itemText numText (some (.str "milk")) = some "milk" := by simp [itemText, textOf]
      rw [List.replicate_succ, forEachItem, htext]
      simp [ih, List.replicate_succ]

theorem texts_milkBody (numText : ℚ → String) (n : ℕ) :
    (Call.compare (milkBody n)).texts numText = List.replicate n "milk" := by
  simp only [Call.texts, requestList_milkBody, forEachItem_milk]

theorem exists_start_alone (env : Env P) (numText : ℚ → String) (d n : ℕ) (g : Globals P) :
    ∃ X, step env.toLowerCase numText d (start g) (0, .arrive (.compare (milkBody n))) = some X ∧
      Light env numText (2 * n) (start g) (0, .arrive (.compare (milkBody n))) ∧
        Alone (milkBody n) (Timed.start d .init (List.replicate n "milk")) X := by
  have hcompare : onCompare (P := P) numText (milkBody n) = ⟨.start .init (List.replicate n "milk"), false⟩ := by
    simp only [onCompare, requestList_milkBody, forEachItem_milk]
  have hX : (start g).Allows 0 (.arrive (.compare (milkBody n))) :=
    ⟨le_rfl, fun hne => absurd rfl hne, by simp [start], by simp [start], trivial⟩
  have hpool : (timedProcess env.toLowerCase numText).poolStep (start g).pool
      (stamp 0 (.arrive (.compare (milkBody n)))) =
        some ⟨g, [⟨.compare (milkBody n), 0,
          .compare ⟨.start .init (List.replicate n "milk"), false⟩⟩]⟩ := by
    simp [Interleave.System.poolStep, stamp, start, timedProcess, Request.arrive, hcompare]
  refine ⟨_, by rw [step, if_pos hX, hpool]; rfl, ?_, ⟨⟨_, rfl, rfl⟩, ?_, rfl, fun _ => ?_⟩⟩
  · change 0 + 2 * ((Call.compare (milkBody n)).texts numText).length ≤ 2 * n
    simp [texts_milkBody]
  · change [] ++ List.replicate ((firstQueries 0 (List.replicate n "milk")).length - 0) 0 = _
    rfl
  · exact Nat.zero_add d

/-- With more items than the connection carries, a comparison that has the process to itself
responds before it has what its items are due. -/
theorem exists_late_alone {n d : ℕ} (hd : 500 ≤ 2 * (n + 1) * d) :
    ∃ (env : Env P) (es : List (ℕ × ProcessEvent P)) (x : TimedProcess P) (r : CompareRequest P),
      Responds env (fun _ => "") (2 * (n + 1)) d .init es x 0 0 (milkBody (n + 1)) r ∧
        r.state.info.tally ≠
          (((Call.compare (milkBody (n + 1))).texts fun _ => "").map (dueItem env)).sum := by
  let env : Env P := ⟨id, fun _ => .ok [⟨"", 0, ""⟩]⟩
  have hrows : env.rows (sql2 "milk") ≠ [] := by simp [env, Env.rows]
  obtain ⟨ts, x, hx, hlate⟩ := Timed.exists_late (fun _ => ⟨_, rfl⟩) .init (List.replicate n "milk")
    "milk" hrows (d := d) (by rw [List.length_replicate]; omega)
  rw [← List.replicate_succ'] at hx hlate
  obtain ⟨X₀, hstart, hlight₀, ha₀⟩ := exists_start_alone env (fun _ => "") d (n + 1) .init
  obtain ⟨es, X, hrun, hlight, ha⟩ := exists_run_alone (fun _ => "") (2 * (n + 1)) ha₀ hx.run
  obtain ⟨r, hcomps, hlocal⟩ := ha.components
  have hrespond : Server.step env x.state .respond =
      some { x.state with responding := false }.onResponse := by
    simp [Server.step, hx.responding, hx.thrown]
  refine ⟨env, (0, .arrive (.compare (milkBody (n + 1)))) :: es, X, r,
    ⟨(run_cons_of_eq hstart es).trans hrun, fun Y hY => ⟨hlight₀, ?_⟩, by simp [hcomps],
      allows_alone ha hx.allows hrespond, ?_, ?_⟩, fun hdue => ?_⟩
  · obtain rfl := Option.some.inj (hstart.symm.trans hY)
    exact hlight
  · rw [hlocal]
    exact hx.responding
  · rw [hlocal]
    exact hx.thrown
  · rw [texts_milkBody, hlocal] at hdue
    exact hlate ((tally_eq_due_iff hx.state).mp hdue)

end alone

/-- **How much the connection carries.**  With answers that take up to `d` milliseconds each, and
however requests arrive and their callbacks interleave: as long as the load stays within `n` items,
every comparison responds with what its items are due iff `2 * n * d < 500`. -/
theorem load_iff (P : Type) [AddCommMonoid P] [Price P] (n d : ℕ) :
    (∀ (env : Env P) (numText : ℚ → String) (g : Globals P) (es : List (ℕ × ProcessEvent P))
      (x : TimedProcess P) (c arrived : ℕ) (body : List Json) (r : CompareRequest P),
      Responds env numText (2 * n) d g es x c arrived body r →
        r.state.info.tally = (((Call.compare body).texts numText).map (dueItem env)).sum) ↔
      2 * n * d < 500 := by
  constructor
  · intro h
    by_contra hd
    cases n with
    | zero => omega
    | succ n =>
        obtain ⟨env, es, x, r, hresponds, hlate⟩ := exists_late_alone (P := P) (n := n) (d := d) (by omega)
        exact hlate (h env (fun _ => "") .init es x 0 0 _ r hresponds)
  · intro hd env numText g es x c arrived body r h
    exact h.tally_eq hd

end TimedProcess

end EasyGrocery.Server
