import EasyGrocery.Server.Additive

/-! # How long a list the timers allow

The handler sets a timer of 500 ms for each item and one of 1000 ms for the response, and the
connection answers one query after the other.  A `Timed` run gives every callback its moment;
`d` is the longest time a query takes once its turn has come.

`capacity_iff`: every comparison of `n` items is what the items are due iff the first queries of
all of them fit in the 500 ms, `2 * n * d < 500`.  Whatever the times, a comparison of `n` items
ends after at most `4 * n + 1` callbacks and asks the database at most `3 * n` times
(`callbacks_le`). -/

namespace EasyGrocery.Server

open Guarded

variable {P : Type}

/-! ### The queue and the timers -/

/-- What a callback does to the queue and the timers. -/
theorem queue_of_step [Add P] [Price P] {env : Env P} {s s' : State P} {e : Event}
    (h : step env s e = some s') :
    match e with
    | .query k => k < s.queries.length ∧ s'.queries = s.queries.eraseIdx k ∧
        s'.timers = s.timers ∧ s'.responding = s.responding
    | .timer i => i ∈ s.timers ∧ s'.timers = s.timers.erase i ∧ s'.responding = s.responding ∧
        ∃ new : Option Query, s'.queries = s.queries ++ new.toList ∧
          ∀ q ∈ new, q.kind.isFirst = false
    | .respond => s.responding = true ∧ s'.queries = s.queries ∧ s'.timers = s.timers ∧
        s'.responding = false := by
  obtain ⟨heff, -⟩ := effect_of_step h
  have hlt {k : ℕ} {q : Query} (hq : s.queries[k]? = some q) : k < s.queries.length :=
    (List.getElem?_eq_some_iff.mp hq).1
  cases heff with
  | failed hq _ => exact ⟨hlt hq, rfl, rfl, rfl⟩
  | empty _ hq _ => exact ⟨hlt hq, rfl, rfl, rfl⟩
  | safeway hq _ => exact ⟨hlt hq, rfl, rfl, rfl⟩
  | walmart hq _ => exact ⟨hlt hq, rfl, rfl, rfl⟩
  | similarWalmart _ hq _ _ => exact ⟨hlt hq, rfl, rfl, rfl⟩
  | similarSafeway _ hq _ _ => exact ⟨hlt hq, rfl, rfl, rfl⟩
  | both ht _ _ => exact ⟨ht, rfl, rfl, none, by simp, by simp⟩
  | neither ht _ _ => exact ⟨ht, rfl, rfl, none, by simp, by simp⟩
  | onlySafeway ht _ _ =>
      refine ⟨ht, rfl, rfl, some _, rfl, ?_⟩
      rintro q ⟨⟩
      rfl
  | onlyWalmart ht _ _ =>
      refine ⟨ht, rfl, rfl, some _, rfl, ?_⟩
      rintro q ⟨⟩
      rfl
  | respond _ _ _ hr => exact ⟨hr, rfl, rfl, rfl⟩

theorem length_firstQueries (i : ℕ) (list : List String) :
    (firstQueries i list).length = 2 * list.length := by
  induction list generalizing i with
  | nil => rfl
  | cons item list ih =>
      simp only [firstQueries, List.length_cons, ih]
      omega

/-! ### Callbacks are few -/

/-- The callbacks that may still come: a timer may issue one query. -/
def State.remaining (s : State P) : ℕ :=
  s.queries.length + 2 * s.timers.length + s.responding.toNat

/-- The answers of the database that may still come. -/
def State.answers (s : State P) : ℕ := s.queries.length + s.timers.length

/-- Whether a callback is one of a query. -/
def Event.asked : Event → ℕ
  | .query _ => 1
  | _ => 0

section remaining

variable [Add P] [Price P] {env : Env P} {s s' : State P} {e : Event}

theorem remaining_of_step (h : step env s e = some s') : 1 + s'.remaining ≤ s.remaining := by
  have hq := queue_of_step h
  unfold State.remaining
  cases e with
  | query k =>
      obtain ⟨hk, hqs, ht, hr⟩ := hq
      rw [hqs, ht, hr, List.length_eraseIdx_of_lt hk]
      omega
  | timer i =>
      obtain ⟨hi, ht, hr, new, hqs, -⟩ := hq
      have hpos := List.length_pos_of_mem hi
      have hnew : new.toList.length ≤ 1 := by cases new <;> simp
      rw [hqs, ht, hr, List.length_append, List.length_erase_of_mem hi]
      omega
  | respond =>
      obtain ⟨hresp, hqs, ht, hr⟩ := hq
      rw [hqs, ht, hr, hresp, Bool.toNat_true, Bool.toNat_false]
      omega

theorem answers_of_step (h : step env s e = some s') : e.asked + s'.answers ≤ s.answers := by
  have hq := queue_of_step h
  unfold State.answers
  cases e with
  | query k =>
      obtain ⟨hk, hqs, ht, -⟩ := hq
      rw [hqs, ht, List.length_eraseIdx_of_lt hk, Event.asked]
      omega
  | timer i =>
      obtain ⟨hi, ht, -, new, hqs, -⟩ := hq
      have hpos := List.length_pos_of_mem hi
      have hnew : new.toList.length ≤ 1 := by cases new <;> simp
      have hasked : (Event.timer i).asked = 0 := rfl
      rw [hqs, ht, List.length_append, List.length_erase_of_mem hi]
      omega
  | respond =>
      obtain ⟨-, hqs, ht, -⟩ := hq
      have hasked : Event.respond.asked = 0 := rfl
      rw [hqs, ht]
      omega

/-- **Every comparison ends.**  Whatever the order of the callbacks and whatever the database
answers, there are at most `4 * n + 1` of them for a request of `n` items, and at most `3 * n`
answers of the database among them. -/
theorem callbacks_le [Zero P] {g : Globals P} {list : List String} {es : List Event} {t : State P}
    (ht : run (step env) (.start g list) es = some t) :
    es.length + t.remaining ≤ 4 * list.length + 1 ∧
      (es.map Event.asked).sum + t.answers ≤ 3 * list.length := by
  have hqueries := length_firstQueries 0 list
  have hremaining := taken_le_of_run (fun _ => True) (w := fun _ => 1) (f := State.remaining)
    (fun _ _ _ _ _ => trivial) (fun _ _ _ _ h => remaining_of_step h) trivial ht
  have hanswers := taken_le_of_run (fun _ => True) (w := Event.asked) (f := State.answers)
    (fun _ _ _ _ _ => trivial) (fun _ _ _ _ h => answers_of_step h) trivial ht
  have hstart : (State.start g list).remaining = (firstQueries 0 list).length +
      2 * (List.range list.length).length + 1 := rfl
  have hstart' : (State.start g list).answers = (firstQueries 0 list).length +
      (List.range list.length).length := rfl
  rw [hstart, List.length_range] at hremaining
  rw [hstart', List.length_range] at hanswers
  simp only [List.map_const', List.sum_replicate_nat, Nat.mul_one] at hremaining
  exact ⟨by omega, by omega⟩

/-- Milk, whose row from Walmart comes too late: all five callbacks. -/
theorem callbacks_le_milk : ∃ t : State Decimal,
    run (step milkEnv) (.start .init ["milk"])
        [.query 0, .timer 0, .query 0, .query 0, .respond] = some t ∧ 5 + t.remaining ≤ 5 := by
  have hrun : (run (step milkEnv) (.start .init ["milk"])
      [.query 0, .timer 0, .query 0, .query 0, .respond]).isSome = true := by decide +kernel
  obtain ⟨t, ht⟩ := Option.isSome_iff_exists.mp hrun
  exact ⟨t, ht, (callbacks_le ht).1⟩

end remaining

/-! ### Timed runs -/

/-- A comparison at a moment: the milliseconds since its handler returned, and the latest moment
for the answer to the query whose turn it is. -/
structure Timed (P : Type) where
  state : State P
  now : ℕ
  due : ℕ

namespace Timed

/-- The connection begins with the first query at once. -/
def start [Zero P] (d : ℕ) (g : Globals P) (list : List String) : Timed P := ⟨.start g list, 0, d⟩

/-- The moments of a callback: queries are answered in the order issued, and timers fire when they
are set to. -/
def ownTime (time : ℕ) : Event → Bool
  | .query k => k == 0
  | .timer _ => time == 500
  | .respond => time == 1000

/-- A callback can come at `time`: nothing else had to come before. -/
def allows (x : Timed P) (time : ℕ) (e : Event) : Bool :=
  decide (x.now ≤ time) && (x.state.queries.isEmpty || decide (time ≤ x.due)) &&
    (x.state.timers.isEmpty || decide (time ≤ 500)) &&
    (!x.state.responding || decide (time ≤ 1000)) && ownTime time e

/-- The latest moment for the next answer, after a callback at `time`. -/
def nextDue (d : ℕ) (x : Timed P) (time : ℕ) : Event → ℕ
  | .query _ => time + d
  | .timer _ => if x.state.queries.isEmpty then time + d else x.due
  | .respond => x.due

def step [Add P] [Price P] (env : Env P) (d : ℕ) (x : Timed P) (e : ℕ × Event) : Option (Timed P) :=
  if x.allows e.1 e.2 then
    (Server.step env x.state e.2).map fun s => ⟨s, e.1, x.nextDue d e.1 e.2⟩
  else none

theorem allows_iff {x : Timed P} {time : ℕ} {e : Event} : x.allows time e = true ↔
    x.now ≤ time ∧ (x.state.queries ≠ [] → time ≤ x.due) ∧ (x.state.timers ≠ [] → time ≤ 500) ∧
      (x.state.responding = true → time ≤ 1000) ∧ ownTime time e = true := by
  simp only [allows, Bool.and_eq_true, Bool.or_eq_true, decide_eq_true_eq, List.isEmpty_iff,
    Bool.not_eq_true', and_assoc, ne_eq, or_iff_not_imp_left, Bool.not_eq_false]

section timed

variable [Add P] [Price P] {env : Env P} {d : ℕ} {x y : Timed P}

theorem step_eq_some {e : ℕ × Event} (h : step env d x e = some y) :
    x.allows e.1 e.2 = true ∧ Server.step env x.state e.2 = some y.state ∧ y.now = e.1 ∧
      y.due = x.nextDue d e.1 e.2 := by
  unfold step at h
  split at h
  · next ha =>
    obtain ⟨s, hs, rfl⟩ := Option.map_eq_some_iff.mp h
    exact ⟨ha, hs, rfl, rfl⟩
  · cases h

/-- Without its times, a timed run is a run. -/
theorem run_state {ts : List (ℕ × Event)} (h : run (step env d) x ts = some y) :
    run (Server.step env) x.state (ts.map Prod.snd) = some y.state := by
  induction ts generalizing x with
  | nil => rw [Option.some.inj h]; rfl
  | cons e ts ih =>
      obtain ⟨z, hz, hrun⟩ := run_cons_eq_some.mp h
      obtain ⟨-, hs, -, -⟩ := step_eq_some hz
      rw [List.map_cons, run_cons_of_eq hs]
      exact ih hrun

end timed

/-- The response timer fires in `x`, after the timed run `ts`. -/
structure Responds [Zero P] [Add P] [Price P] (env : Env P) (d : ℕ) (g : Globals P) (list : List String)
    (ts : List (ℕ × Event)) (x : Timed P) : Prop where
  run : Guarded.run (step env d) (start d g list) ts = some x
  allows : x.allows 1000 .respond = true
  responding : x.state.responding = true
  thrown : x.state.thrown = none

theorem Responds.state [AddCommMonoid P] [Price P] {env : Env P} {d : ℕ} {g : Globals P}
    {list : List String} {ts : List (ℕ × Event)} {x : Timed P} (h : Responds env d g list ts x) :
    Server.Responds env g list (ts.map Prod.snd) x.state := by
  refine ⟨run_state h.run, ?_, h.responding, h.thrown⟩
  by_contra hne
  have := (allows_iff.mp h.allows).2.2.1 hne
  omega

/-! ### Short lists -/

/-- The queue is ahead of the timers: what is in flight is answered before the first timers if none
has fired, and else before the response if the timers that are left each add a query. -/
structure Ahead (n d : ℕ) (x : Timed P) : Prop where
  timers : x.state.timers.length ≤ n
  first : x.state.timers.length < n → ∀ q ∈ x.state.queries, q.kind.isFirst = false
  early : x.state.timers.length = n → x.state.queries ≠ [] →
    x.due + x.state.queries.length * d ≤ 2 * n * d + d
  late : x.state.timers.length < n → x.state.queries ≠ [] →
    x.due + (x.state.queries.length + x.state.timers.length) * d ≤ 500 + n * d + d

/-- With one query fewer the next one may be answered later. -/
theorem due_le {d m k time due bound : ℕ} (hm : m = k + 1) (ht : time ≤ due)
    (h : due + m * d ≤ bound) : time + d + k * d ≤ bound := by
  have hmul : m * d = k * d + d := by rw [hm, Nat.succ_mul]
  omega

theorem due_le_of_pos {d m due bound : ℕ} (hm : 0 < m) (h : due + m * d ≤ bound + d) :
    due ≤ bound := by
  have hmul := Nat.le_mul_of_pos_left d hm
  omega

/-- Before the timers fire, all queries have been answered. -/
theorem Ahead.queries_nil {n d : ℕ} {x : Timed P} (hcap : 2 * n * d < 500) (hi : Ahead n d x)
    (hn : x.state.timers.length = n) (htime : x.state.queries ≠ [] → 500 ≤ x.due) :
    x.state.queries = [] := by
  by_contra hne
  have hpos := List.length_pos_of_ne_nil hne
  have := due_le_of_pos hpos (hi.early hn hne)
  have := htime hne
  omega

section ahead

variable [Add P] [Price P] {env : Env P} {n d : ℕ} {x y : Timed P}

theorem Ahead.query (hi : Ahead n d x) {time k : ℕ} (h : step env d x (time, .query k) = some y) :
    Ahead n d y := by
  obtain ⟨ha, hs, hnow, hdue⟩ := step_eq_some h
  obtain ⟨-, htime, -, -, -⟩ := allows_iff.mp ha
  obtain ⟨hk, hqs, ht, -⟩ := queue_of_step hs
  have hne : x.state.queries ≠ [] := List.ne_nil_of_length_pos (by omega)
  have hlen : x.state.queries.length = y.state.queries.length + 1 := by
    rw [hqs, List.length_eraseIdx_of_lt hk]
    omega
  have hdue : y.due = time + d := hdue
  refine ⟨ht ▸ hi.timers, ?_, fun hn _ => ?_, fun hn _ => ?_⟩
  · rw [ht, hqs]
    exact fun hn q hq => hi.first hn q (List.mem_of_mem_eraseIdx hq)
  · rw [hdue]
    exact due_le hlen (htime hne) (hi.early (ht ▸ hn) hne)
  · rw [ht] at hn ⊢
    rw [hdue]
    exact due_le (by omega) (htime hne) (hi.late hn hne)

theorem Ahead.timer (hcap : 2 * n * d < 500) (hi : Ahead n d x) {time i : ℕ}
    (h : step env d x (time, .timer i) = some y) :
    Ahead n d y ∧ ∀ q ∈ x.state.queries, q.kind.isFirst = false := by
  obtain ⟨ha, hs, hnow, hdue⟩ := step_eq_some h
  obtain ⟨-, htime, -, -, hown⟩ := allows_iff.mp ha
  obtain rfl : time = 500 := by simpa [ownTime] using hown
  obtain ⟨hmem, ht, -, new, hqs, hnew⟩ := queue_of_step hs
  have hpos := List.length_pos_of_mem hmem
  have hlen : y.state.timers.length + 1 = x.state.timers.length := by
    rw [ht, List.length_erase_of_mem hmem]
    omega
  have hle := hi.timers
  have hnewlen : new.toList.length ≤ 1 := by cases new <;> simp
  have hfirst : ∀ q ∈ x.state.queries, q.kind.isFirst = false := by
    rcases hle.lt_or_eq with hn | hn
    · exact hi.first hn
    · rw [hi.queries_nil hcap hn htime]
      simp
  refine ⟨⟨by omega, fun _ q hq => ?_, fun hn => by omega, fun hn hne => ?_⟩, hfirst⟩
  · rw [hqs] at hq
    rcases List.mem_append.mp hq with hq | hq
    · exact hfirst q hq
    · exact hnew q (Option.mem_toList.mp hq)
  · have hylen : y.state.queries.length = x.state.queries.length + new.toList.length := by
      rw [hqs, List.length_append]
    by_cases hx : x.state.queries = []
    · -- the connection begins with the new query at once
      have hdue : y.due = 500 + d := by rw [hdue, nextDue, hx]; rfl
      rw [hx, List.length_nil] at hylen
      have hmul : (y.state.queries.length + y.state.timers.length) * d ≤ n * d :=
        Nat.mul_le_mul_right d (by omega)
      omega
    · have hxn : x.state.timers.length < n := by
        refine hle.lt_of_ne fun hn => hx (hi.queries_nil hcap hn htime)
      have hdue : y.due = x.due := by
        rw [hdue, nextDue, if_neg (by simpa using hx)]
      have hmul : (y.state.queries.length + y.state.timers.length) * d ≤
          (x.state.queries.length + x.state.timers.length) * d :=
        Nat.mul_le_mul_right d (by omega)
      have := hi.late hxn hx
      omega

theorem Ahead.respond (hi : Ahead n d x) {time : ℕ} (h : step env d x (time, .respond) = some y) :
    Ahead n d y := by
  obtain ⟨-, hs, -, hdue⟩ := step_eq_some h
  obtain ⟨-, hqs, ht, -⟩ := queue_of_step hs
  have hdue : y.due = x.due := hdue
  refine ⟨ht ▸ hi.timers, ?_, ?_, ?_⟩
  · rw [ht, hqs]
    exact hi.first
  · rw [ht, hqs, hdue]
    exact hi.early
  · rw [ht, hqs, hdue]
    exact hi.late

/-- With the queue ahead, every timer finds the first queries answered. -/
theorem Ahead.answered (hcap : 2 * n * d < 500) (hi : Ahead n d x) {ts : List (ℕ × Event)}
    (h : run (step env d) x ts = some y) :
    EachStep (Server.step env) Answered x.state (ts.map Prod.snd) ∧ Ahead n d y := by
  induction ts generalizing x with
  | nil => exact ⟨trivial, Option.some.inj h ▸ hi⟩
  | cons e ts ih =>
      obtain ⟨z, hz, hrun⟩ := run_cons_eq_some.mp h
      obtain ⟨time, e⟩ := e
      have hstep : Answered x.state e ∧ Ahead n d z := by
        cases e with
        | query k => exact ⟨trivial, hi.query hz⟩
        | respond => exact ⟨trivial, hi.respond hz⟩
        | timer i =>
            obtain ⟨hz', hfirst⟩ := hi.timer hcap hz
            exact ⟨fun q hq _ => hfirst q hq, hz'⟩
      obtain ⟨hans, hy⟩ := ih hstep.2 hrun
      obtain ⟨-, hs, -, -⟩ := step_eq_some hz
      refine ⟨fun s' hs' => ⟨hstep.1, ?_⟩, hy⟩
      obtain rfl := Option.some.inj (hs.symm.trans hs')
      exact hans

end ahead

theorem ahead_start [Zero P] (d : ℕ) (g : Globals P) (list : List String) :
    Ahead list.length d (start d g list) where
  timers := by simp [start, State.start]
  first hn := by simp [start, State.start] at hn
  early _ _ := by
    have hlen : (start d g list).state.queries.length = 2 * list.length := length_firstQueries 0 list
    rw [hlen]
    change d + _ ≤ _
    omega
  late hn := by simp [start, State.start] at hn

/-- Short lists are compared in time. -/
theorem Responds.timely [AddCommMonoid P] [Price P] {env : Env P} {d : ℕ} {g : Globals P}
    {list : List String} {ts : List (ℕ × Event)} {x : Timed P} (h : Responds env d g list ts x)
    (hcap : 2 * list.length * d < 500) : Timely env g list (ts.map Prod.snd) x.state := by
  obtain ⟨hans, hx⟩ := (ahead_start d g list).answered hcap h.run
  refine ⟨hans, ?_⟩
  by_contra hne
  have hdue := (allows_iff.mp h.allows).2.1 hne
  have htimers := h.state.timers
  have hpos := List.length_pos_of_ne_nil hne
  rcases Nat.eq_zero_or_pos list.length with hn | hn
  · have hearly := hx.early (by rw [htimers, hn]; rfl) hne
    have := due_le_of_pos hpos hearly
    omega
  · have hlate := hx.late (by rw [htimers]; exact hn) hne
    have := due_le_of_pos (by omega) hlate
    have hmul : list.length * d ≤ 2 * list.length * d := Nat.mul_le_mul_right d (by omega)
    omega

/-! ### Long lists -/

section long

variable [AddCommMonoid P] [Price P] {env : Env P} {d : ℕ}

theorem step_of_allows {x : Timed P} {time : ℕ} {e : Event} {s : State P}
    (ha : x.allows time e = true) (hs : Server.step env x.state e = some s) :
    step env d x (time, e) = some ⟨s, time, x.nextDue d time e⟩ := by
  rw [step, if_pos ha, hs]
  rfl

/-- Answers that take as long as they may, until the timers fire. -/
theorem exists_slow (hq : ∀ text, ∃ rows, env.query text = .ok rows) {m : ℕ} {x : Timed P}
    (ht : x.state.thrown = none) (hm : m ≤ x.state.queries.length) (hnow : x.now ≤ 500)
    (hdue : x.due = x.now + d) :
    ∃ ts y, run (step env d) x ts = some y ∧ y.state.queries = x.state.queries.drop m ∧
      y.state.timers = x.state.timers ∧ y.state.responding = x.state.responding ∧
      y.state.thrown = none ∧ y.now = min 500 (x.now + m * d) ∧ y.due = y.now + d := by
  induction m generalizing x with
  | zero => exact ⟨[], x, rfl, rfl, rfl, rfl, ht, by omega, hdue⟩
  | succ m ih =>
      have hne : x.state.queries ≠ [] := List.ne_nil_of_length_pos (by omega)
      obtain ⟨s, hs, hqs, htm, hresp, hthrown⟩ := exists_step_query hq ht hne
      have ha : x.allows (min 500 (x.now + d)) (.query 0) = true :=
        allows_iff.mpr ⟨by omega, fun _ => by omega, fun _ => by omega, fun _ => by omega, rfl⟩
      obtain ⟨ts, y, hrun, hyq, hyt, hyr, hyth, hynow, hydue⟩ :=
        ih (x := ⟨s, min 500 (x.now + d), min 500 (x.now + d) + d⟩) hthrown
          (by simp only [hqs, List.length_tail]; omega) (Nat.min_le_left 500 _) rfl
      refine ⟨(min 500 (x.now + d), .query 0) :: ts, y,
        (run_cons_of_eq (step_of_allows ha hs) ts).trans hrun, ?_, hyt.trans htm, hyr.trans hresp,
        hyth, ?_, hydue⟩
      · rw [hyq, hqs, List.drop_tail]
      · rw [hynow, Nat.succ_mul]
        dsimp only
        omega

theorem exists_step_timer (env : Env P) {s : State P} (ht : s.thrown = none) {i : ℕ} (hi : i ∈ s.timers) :
    ∃ s', Server.step env s (.timer i) = some s' ∧ s'.thrown = none ∧
      s'.responding = s.responding := by
  have hstep : Server.step env s (.timer i) =
      some ({ s with timers := s.timers.erase i }.onTimer i) := by
    simp [Server.step, ht, hi]
  refine ⟨_, hstep, ?_, (queue_of_step hstep).2.2.1⟩
  generalize ({ s with timers := s.timers.erase i }.onTimer i) = s' at hstep ⊢
  obtain ⟨heff, -⟩ := effect_of_step hstep
  cases heff <;> exact ht

/-- Everything but the response can happen at the moment of the timers. -/
theorem exists_rest (hq : ∀ text, ∃ rows, env.query text = .ok rows) {x : Timed P}
    (ht : x.state.thrown = none) (hnow : x.now ≤ 500)
    (hdue : x.state.queries ≠ [] → 500 ≤ x.due) :
    ∃ ts y, run (step env d) x ts = some y ∧ y.state.queries = [] ∧ y.state.timers = [] ∧
      y.state.responding = x.state.responding ∧ y.state.thrown = none ∧ y.now ≤ 500 := by
  induction hn : x.state.remaining using Nat.strong_induction_on generalizing x with
  | _ n ih =>
      by_cases hqs : x.state.queries = []
      · by_cases htm : x.state.timers = []
        · exact ⟨[], x, rfl, hqs, htm, rfl, ht, hnow⟩
        · obtain ⟨i, timers, hi⟩ := List.exists_cons_of_ne_nil htm
          obtain ⟨s, hs, hth, hresp⟩ := exists_step_timer env ht (i := i) (by simp [hi])
          have ha : x.allows 500 (.timer i) = true :=
            allows_iff.mpr ⟨hnow, hdue, fun _ => le_rfl, fun _ => by omega, rfl⟩
          have hlt := remaining_of_step hs
          obtain ⟨ts, y, hrun, h⟩ := ih s.remaining (by omega) (x := ⟨s, 500, x.nextDue d 500 (.timer i)⟩) hth
            le_rfl (fun _ => by simp [nextDue, hqs]) rfl
          rw [← hresp]
          exact ⟨_, y, (run_cons_of_eq (step_of_allows ha hs) ts).trans hrun, h⟩
      · obtain ⟨s, hs, -, -, hresp, hth⟩ := exists_step_query hq ht hqs
        have ha : x.allows 500 (.query 0) = true :=
          allows_iff.mpr ⟨hnow, hdue, fun _ => le_rfl, fun _ => by omega, rfl⟩
        have hlt := remaining_of_step hs
        obtain ⟨ts, y, hrun, h⟩ := ih s.remaining (by omega) (x := ⟨s, 500, x.nextDue d 500 (.query 0)⟩) hth
          le_rfl (fun _ => by simp [nextDue]) rfl
        rw [← hresp]
        exact ⟨_, y, (run_cons_of_eq (step_of_allows ha hs) ts).trans hrun, h⟩

theorem firstQueries_concat (i : ℕ) (list : List String) (item : String) :
    firstQueries i (list ++ [item]) = firstQueries i list ++
      [⟨.safeway, i + list.length, sql1 item⟩, ⟨.walmart, i + list.length, sql2 item⟩] := by
  induction list generalizing i with
  | nil => rfl
  | cons item' list ih =>
      have hi : i + 1 + list.length = i + (list.length + 1) := by omega
      rw [List.cons_append, firstQueries, ih, hi]
      rfl

/-- When the last first query takes until its timer fires, the comparison is not in time. -/
theorem exists_late (hq : ∀ text, ∃ rows, env.query text = .ok rows) (g : Globals P)
    (list : List String) (item : String) (hrows : env.rows (sql2 item) ≠ [])
    (hd : 500 ≤ 2 * (list.length + 1) * d) :
    ∃ ts x, Responds env d g (list ++ [item]) ts x ∧
      ¬ InTime env g (list ++ [item]) (ts.map Prod.snd) x.state := by
  have hqueries : (start d g (list ++ [item])).state.queries = firstQueries 0 list ++
      [⟨.safeway, 0 + list.length, sql1 item⟩, ⟨.walmart, 0 + list.length, sql2 item⟩] :=
    firstQueries_concat 0 list item
  have hlen := length_firstQueries 0 list
  obtain ⟨ts, x, hrun, hxq, hxt, hxr, hxth, hnow, hdue⟩ :=
    exists_slow hq (m := 2 * list.length + 1) (d := d) (x := start d g (list ++ [item])) rfl
      (by rw [hqueries, List.length_append, hlen]; simp) (Nat.zero_le _) (Nat.zero_add d).symm
  have hlast : x.state.queries = [⟨.walmart, list.length, sql2 item⟩] := by
    rw [hxq, hqueries, List.drop_append, hlen, List.drop_eq_nil_of_le (by omega)]
    simp
  have hi : list.length ∈ x.state.timers := by
    rw [hxt]
    exact List.mem_range.mpr (by simp)
  obtain ⟨s, hs, hsth, hsr⟩ := exists_step_timer env hxth hi
  have hle : x.now ≤ 500 := by omega
  have hlate : 500 ≤ x.due := by
    have hmul : 2 * (list.length + 1) * d = (2 * list.length + 1) * d + d := by ring
    have hnow' : x.now = min 500 (0 + (2 * list.length + 1) * d) := hnow
    omega
  have ha : x.allows 500 (.timer list.length) = true :=
    allows_iff.mpr ⟨hle, fun _ => hlate, fun _ => le_rfl, fun _ => by omega, rfl⟩
  have hstep := step_of_allows (d := d) ha hs
  obtain ⟨ts', y, hrun', hyq, hyt, hyr, hyth, hynow⟩ := exists_rest hq
    (x := ⟨s, 500, x.nextDue d 500 (.timer list.length)⟩) (d := d) hsth le_rfl
    (fun _ => by simp [nextDue, hlast, hlate])
  refine ⟨ts ++ (500, .timer list.length) :: ts', y, ⟨?_, ?_, ?_, hyth⟩, fun hin => ?_⟩
  · rw [run_append, hrun, Option.bind_some, run_cons_of_eq hstep]
    exact hrun'
  · exact allows_iff.mpr ⟨by omega, fun hne => absurd hyq hne, fun hne => absurd hyt hne,
      fun _ => le_rfl, rfl⟩
  · exact hyr.trans (hsr.trans hxr)
  · -- the timer of the last item finds its row missing
    have htimers := hin.timers
    rw [List.map_append] at htimers
    obtain ⟨htimer, -⟩ := htimers.of_append (run_state hrun) s hs
    exact hrows (htimer _ (by rw [hlast]; exact List.mem_singleton_self _) rfl rfl)

end long

/-- **How long a list may be.**  With answers that take up to `d` milliseconds each, every
comparison of `n` items is what its items are due iff `2 * n * d < 500`. -/
theorem capacity_iff (P : Type) [AddCommMonoid P] [Price P] (n d : ℕ) :
    (∀ (env : Env P) (g : Globals P) (list : List String) (ts : List (ℕ × Event)) (x : Timed P),
      list.length = n → Responds env d g list ts x →
        x.state.info.tally = (list.map (dueItem env)).sum) ↔ 2 * n * d < 500 := by
  constructor
  · intro h
    by_contra hd
    cases n with
    | zero => omega
    | succ n =>
        let env : Env P := ⟨id, fun _ => .ok [⟨"", 0, ""⟩]⟩
        have hrows : env.rows (sql2 "") ≠ [] := by simp [env, Env.rows]
        obtain ⟨ts, x, hx, hlate⟩ := exists_late (fun _ => ⟨_, rfl⟩) .init (List.replicate n "") ""
          hrows (d := d) (by rw [List.length_replicate]; omega)
        exact hlate ((tally_eq_due_iff hx.state).mp (h env .init _ ts x (by simp) hx))
  · rintro hd env g list ts x rfl hx
    exact (tally_eq_due_iff hx.state).mpr (hx.timely hd).inTime

end Timed

end EasyGrocery.Server
