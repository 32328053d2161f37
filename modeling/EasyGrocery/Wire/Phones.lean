import EasyGrocery.Server.Process
import EasyGrocery.Wire.Visit

/-! # Phones and the server

The whole of a comparison, for any number of phones at once: visits to the price page, the
requests they post, the one process that serves them together with whatever else it is asked, and
the responses on their way back.  Requests and responses travel for any time and overtake each
other; lists are stored, stores selected and pages left meanwhile.

`phones_show_iff`: as long as only lists are stored that can be sent (`Sendable`), what every visit
shows is what one list costs that was stored during it, iff no item of that list is found in both
stores. -/

namespace EasyGrocery.Wire

open Firebase Guarded
open Interleave (Pool)
open Prices (Visit requestBody encodeListAsJson readResponse)
open Server (Env InTime TimerInTime NothingDue Globals Request CompareRequest Callback Call onCompare
  process State)

variable {κ : Type}

/-- Visits to the price page, the process, and whose request each of its requests is: the one at
a position of `requests` of a visit, or somebody else's. -/
structure Net (κ : Type) where
  visit : κ → Visit
  server : Pool (Globals Decimal) (Request Decimal)
  owner : List (Option (κ × ℕ))

/-- The pages are opened, and the server has been started. -/
def Net.opened (stored : κ → Option Items) : Net κ := ⟨fun k => .opened (stored k), ⟨.init, []⟩, []⟩

/-- A step of a visit; its request at position `i` reaches the server; so does a request of
somebody else; a callback of the server's request `c`; its response reaches the visit. -/
inductive NetEvent (κ : Type) where
  | visit (k : κ) (e : Prices.Event)
  | arrive (k : κ) (i : ℕ)
  | other (call : Call)
  | callback (c : ℕ) (e : Callback Decimal)
  | deliver (c : ℕ)

/-- The array that `bodyParser` finds in a text; other texts do not get to the handler. -/
def bodyOf (text : String) : Option (List Json) :=
  match Json.parse text with
  | some (.arr body) => some body
  | _ => none

/-- The response of a comparison. -/
def packetOf : Request Decimal → Option String
  | .compare r => r.state.sent.head?
  | .item _ => none

namespace Net

variable [DecidableEq κ]

def setVisit (w : Net κ) (k : κ) (s : Visit) : Net κ := { w with visit := Function.update w.visit k s }

@[simp] theorem setVisit_visit_self (w : Net κ) (k : κ) (s : Visit) : (w.setVisit k s).visit k = s := by
  simp [setVisit]

theorem setVisit_visit_of_ne (w : Net κ) {k k' : κ} (h : k' ≠ k) (s : Visit) :
    (w.setVisit k s).visit k' = w.visit k' := by
  simp [setVisit, h]

variable (toLowerCase : String → String) (numText : ℚ → String)

/-- A request gets to the server. -/
def receive (w : Net κ) (owner : Option (κ × ℕ)) (call : Call) : Option (Net κ) :=
  ((process toLowerCase numText).poolStep w.server (.arrive call)).map fun server =>
    { w with server := server, owner := w.owner ++ [owner] }

/-- A step of the visit `k`. -/
def move (w : Net κ) (k : κ) (e : Prices.Event) : Option (Net κ) :=
  (Prices.step (w.visit k) e).map (w.setVisit k)

def step (w : Net κ) : NetEvent κ → Option (Net κ)
  -- responses come from the server
  | .visit _ (.response _ _) => none
  | .visit k e => w.move k e
  | .arrive k i =>
      if some (k, i) ∈ w.owner then none
      else do
        let text ← (w.visit k).requests[i]?
        let body ← bodyOf text
        w.receive toLowerCase numText (some (k, i)) (.compare body)
  | .other call => w.receive toLowerCase numText none call
  | .callback c e => ((process toLowerCase numText).poolStep w.server (.step c e)).map fun server =>
      { w with server := server }
  | .deliver c => do
      let (k, i) ← w.owner[c]?.join
      let r ← w.server.components[c]?
      let packet ← packetOf r
      if i ∈ (w.visit k).pending then
        w.move k (.response ((w.visit k).pending.idxOf i) packet)
      else none

end Net

/-! ### What a step can do -/

section effect

variable [DecidableEq κ]

/-- The cases of a step, without what follows from the others. -/
inductive NetEffect (toLowerCase : String → String) (numText : ℚ → String) (w : Net κ) :
    NetEvent κ → Net κ → Prop
  | visit (k : κ) (e : Prices.Event) (s : Visit) : (∀ n body, e ≠ .response n body) →
      Prices.step (w.visit k) e = some s →
      NetEffect toLowerCase numText w (.visit k e) (w.setVisit k s)
  | arrive (k : κ) (i : ℕ) (text : String) (body : List Json)
      (server : Pool (Globals Decimal) (Request Decimal)) : (w.visit k).requests[i]? = some text →
      Json.parse text = some (.arr body) →
      (process toLowerCase numText).poolStep w.server (.arrive (.compare body)) = some server →
      NetEffect toLowerCase numText w (.arrive k i)
        { w with server := server, owner := w.owner ++ [some (k, i)] }
  | other (call : Call) (server : Pool (Globals Decimal) (Request Decimal)) :
      (process toLowerCase numText).poolStep w.server (.arrive call) = some server →
      NetEffect toLowerCase numText w (.other call)
        { w with server := server, owner := w.owner ++ [none] }
  | callback (c : ℕ) (e : Callback Decimal) (server : Pool (Globals Decimal) (Request Decimal)) :
      (process toLowerCase numText).poolStep w.server (.step c e) = some server →
      NetEffect toLowerCase numText w (.callback c e) { w with server := server }
  | deliver (c : ℕ) (k : κ) (i n : ℕ) (r : Request Decimal) (packet : String) (s : Visit) :
      w.owner[c]? = some (some (k, i)) → w.server.components[c]? = some r →
      packetOf r = some packet → (w.visit k).pending[n]? = some i →
      Prices.step (w.visit k) (.response n packet) = some s →
      NetEffect toLowerCase numText w (.deliver c) (w.setVisit k s)

theorem netEffect_of_step {toLowerCase : String → String} {numText : ℚ → String} {w w' : Net κ}
    {e : NetEvent κ} (h : w.step toLowerCase numText e = some w') :
    NetEffect toLowerCase numText w e w' := by
  cases e with
  | visit k e =>
      have hresponse : ∀ n body, e ≠ .response n body := by
        rintro n body rfl
        cases h
      have hmove : w.move k e = some w' := by
        cases e with
        | response n body => exact absurd rfl (hresponse n body)
        | _ => exact h
      obtain ⟨s, hs, rfl⟩ := Option.map_eq_some_iff.mp hmove
      exact .visit k e s hresponse hs
  | arrive k i =>
      simp only [Net.step, Option.ite_none_left_eq_some] at h
      obtain ⟨-, h⟩ := h
      obtain ⟨text, htext, h⟩ := Option.bind_eq_some_iff.mp h
      obtain ⟨body, hbody, h⟩ := Option.bind_eq_some_iff.mp h
      obtain ⟨server, hserver, rfl⟩ := Option.map_eq_some_iff.mp h
      refine .arrive k i text body server htext ?_ hserver
      unfold bodyOf at hbody
      split at hbody
      · next hparse => exact Option.some.inj hbody ▸ hparse
      · cases hbody
  | other call =>
      obtain ⟨server, hserver, rfl⟩ := Option.map_eq_some_iff.mp h
      exact .other call server hserver
  | callback c e =>
      obtain ⟨server, hserver, rfl⟩ := Option.map_eq_some_iff.mp h
      exact .callback c e server hserver
  | deliver c =>
      obtain ⟨⟨k, i⟩, howner, h⟩ := Option.bind_eq_some_iff.mp h
      obtain ⟨r, hr, h⟩ := Option.bind_eq_some_iff.mp h
      obtain ⟨packet, hpacket, h⟩ := Option.bind_eq_some_iff.mp h
      simp only [Option.ite_none_right_eq_some] at h
      obtain ⟨hi, h⟩ := h
      obtain ⟨s, hs, rfl⟩ := Option.map_eq_some_iff.mp h
      exact .deliver c k i _ r packet s (Option.join_eq_some_iff.mp howner) hr hpacket
        (List.getElem?_idxOf hi) hs

end effect

/-! ### The comparison that a request gets -/

section serving

variable {env : Env Decimal} {numText : ℚ → String} {text packet : String}

/-- The comparison of the request `text` before it has responded, and after. -/
inductive Serving (env : Env Decimal) (numText : ℚ → String) (text : String) (s : State Decimal) : Prop
  | working (body : List Json) (es : List Server.Event) (u : State Decimal) :
      Json.parse text = some (.arr body) →
      run (Server.step env) (onCompare numText body).state es = some u →
      EachStep (Server.step env) (TimerInTime env) (onCompare numText body).state es →
      s = u.local → u.sent = [] → Serving env numText text s
  | answered (body : List Json) (es : List Server.Event) (u v : State Decimal) (packet : String) :
      Json.parse text = some (.arr body) →
      run (Server.step env) (onCompare numText body).state es = some u →
      EachStep (Server.step env) (TimerInTime env) (onCompare numText body).state es →
      u.timers = [] → NothingDue env u → Server.step env u .respond = some v →
      v.sent = u.sent ++ [packet] → s.sent = [packet] → s.responding = false →
      Serving env numText text s

/-- The callback has the database's answer and is in time; the response comes after the items. -/
def OnTime (env : Env Decimal) (r : CompareRequest Decimal) (outcome : Except String (List (Server.Row Decimal)))
    (e : Server.Event) : Prop :=
  r.Asked env outcome e ∧ TimerInTime env r.state e ∧
    (e = .respond → r.state.timers = [] ∧ NothingDue env r.state)

/-- The response timer sends one packet. -/
theorem exists_sent {t v : State Decimal} (h : Server.step env t .respond = some v) :
    v.responding = false ∧ ∃ packet, v.sent = t.sent ++ [packet] := by
  obtain ⟨heffect, hthrown⟩ := Server.effect_of_step h
  have hr : t.responding = true := by
    cases heffect with
    | respond _ _ _ hr => exact hr
  obtain ⟨g, packet, hconv, -⟩ := convert_entries t.globals t.info
  have hinfo : ({ t with responding := false } : State Decimal).info = t.info := rfl
  rw [step_respond hthrown hr, State.onResponse, hinfo, hconv, Option.some.injEq] at h
  exact h ▸ ⟨rfl, packet, rfl⟩

theorem serving_arrive (g : Globals Decimal) {body : List Json} (hparse : Json.parse text = some (.arr body)) :
    ∃ r, (Request.arrive numText g (.compare body)).2 = .compare r ∧ Serving env numText text r.state := by
  refine ⟨_, rfl, .working body [] _ hparse rfl trivial (Server.onCompare_local numText body).symm ?_⟩
  unfold onCompare
  split
  · rfl
  · split <;> rfl

theorem serving_step {g g' : Globals Decimal} {r r' : CompareRequest Decimal}
    {outcome : Except String (List (Server.Row Decimal))} {e : Server.Event}
    (h : Serving env numText text r.state) (ht : OnTime env r outcome e)
    (hstep : r.step env.toLowerCase g outcome e = some (g', r')) : Serving env numText text r'.state := by
  cases h with
  | working body es u hparse hrun hin hlocal hsent =>
      obtain ⟨hasked, htimer, hrespond⟩ := ht
      obtain ⟨u', hu', hlocal', -⟩ := Server.compareStep_alone hasked hstep hlocal
      rw [hlocal] at htimer hrespond
      rcases Server.sent_of_step hu' with ⟨rfl, -⟩ | ⟨hsame, -⟩
      · obtain ⟨hdone, packet, hpacket⟩ := exists_sent hu'
        obtain ⟨htimers, hdue⟩ := hrespond rfl
        refine .answered body es u u' packet hparse hrun hin htimers hdue hu' hpacket ?_ ?_
        · rw [hlocal']
          exact hpacket.trans (by rw [hsent, List.nil_append])
        · rw [hlocal']
          exact hdone
      · refine .working body (es ++ [e]) u' hparse ?_ ?_ hlocal' (hsame.trans hsent)
        · rw [run_append, hrun, Option.bind_some, run_cons_of_eq hu', run_nil]
        · refine hin.append fun t ht => ?_
          obtain rfl := Option.some.inj (hrun.symm.trans ht)
          exact fun _ _ => ⟨by cases e <;> exact htimer, trivial⟩
  | answered body es u v packet hparse hrun hin htimers hdue hv hsent hs hr =>
      obtain ⟨s', hs', heq⟩ := Option.map_eq_some_iff.mp hstep
      obtain ⟨-, rfl⟩ := Prod.mk.inj heq
      rcases Server.sent_of_step hs' with ⟨-, hr'⟩ | ⟨hsent', hr'⟩
      · exact absurd (hr'.symm.trans hr) (by simp)
      · exact .answered body es u v packet hparse hrun hin htimers hdue hv hsent (hsent'.trans hs)
          (hr'.trans hr)

/-- The packet sent is that of a comparison in time. -/
theorem comparison_of_serving {stored : List String} (hs : Encodable stored)
    (henc : encodeListAsJson (loadedPrices stored) = some text) {s : State Decimal}
    (h : Serving env numText text s) (hpacket : s.sent.head? = some packet) :
    ∃ es t, Comparison env numText stored es t packet ∧ InTime env .init stored es t := by
  cases h with
  | working body es u _ _ _ hlocal hsent =>
      rw [hlocal] at hpacket
      simp [State.local, hsent] at hpacket
  | answered body es u v packet' hparse hrun hin htimers hdue hv hsent hs' _ =>
      obtain rfl : packet' = packet := by simpa [hs'] using hpacket
      obtain ⟨text', body', henc', hparse', hreq⟩ := requestIntact_of_encodable hs
      obtain rfl : text = text' := Option.some.inj (henc.symm.trans henc')
      obtain rfl : body = body' := by
        have := hparse.symm.trans hparse'
        simpa using this
      refine ⟨es, u, ⟨⟨text, body, henc, hparse, hrun⟩, htimers, v, hv, hsent⟩, ?_, hdue⟩
      rw [onCompare_stored numText hreq] at hin
      exact hin

end serving

/-! ### One visit among all -/

/-- The lists that are stored can be encoded, and callbacks of comparisons have the database's
answers, in time. -/
def Orderly (env : Env Decimal) (w : Net κ) : NetEvent κ → Prop
  | .visit _ (.store value) => Sendable value
  | .callback c e => ∀ r outcome ev, w.server.components[c]? = some (.compare r) →
      e.event = some (outcome, ev) → OnTime env r outcome ev
  | _ => True

/-- The lists stored for the user of the visit `k`. -/
def NetEvent.storedBy [DecidableEq κ] (k : κ) : NetEvent κ → List (Option Items)
  | .visit k' e => if k' = k then e.stores else []
  | _ => []

/-- A request of the server that is the one at a position of `requests` of the visit `k` is a
comparison of its text. -/
def Attended (env : Env Decimal) (numText : ℚ → String) (k : κ) (requests : List String)
    (owner : Option (κ × ℕ)) (r : Request Decimal) : Prop :=
  ∀ i, owner = some (k, i) → ∃ (text : String) (r' : CompareRequest Decimal),
    requests[i]? = some text ∧ r = .compare r' ∧ Serving env numText text r'.state

/-- The visit `k` is right for one of `values`, and its requests are being served. -/
structure Kept (env : Env Decimal) (numText : ℚ → String) (k : κ) (values : List (Option Items))
    (w : Net κ) : Prop where
  right : Right env values (w.visit k)
  attended : List.Forall₂ (Attended env numText k (w.visit k).requests) w.owner w.server.components

section net

variable {env : Env Decimal} {numText : ℚ → String} {k : κ} {values : List (Option Items)}
  {w : Net κ}

theorem kept_opened {stored : κ → Option Items} (hs : ∀ k, Sendable (stored k)) (k : κ) :
    Kept env numText k [stored k] (.opened stored) :=
  ⟨right_opened (hs k), .nil⟩

/-- A request of this visit that arrives starts to be served. -/
theorem attended_arrive (g : Globals Decimal) {requests : List String} {k' : κ} {i : ℕ} {body : List Json}
    (htext : k' = k → requests[i]? = some text) (hparse : Json.parse text = some (.arr body)) :
    Attended env numText k requests (some (k', i)) (Request.arrive numText g (.compare body)).2 := by
  intro i' hi
  obtain ⟨rfl, rfl⟩ := Prod.mk.inj (Option.some.inj hi)
  obtain ⟨r, hr, hserving⟩ := @serving_arrive env numText text g body hparse
  exact ⟨text, r, htext rfl, hr, hserving⟩

/-- The server takes a callback. -/
theorem attended_callback {c : ℕ} {e : Callback Decimal} {requests : List String} {owner : Option (κ × ℕ)}
    {r : Request Decimal} {x : Globals Decimal × Request Decimal} (hin : Orderly env w (.callback c e))
    (hr : w.server.components[c]? = some r) (h : Attended env numText k requests owner r)
    (hstep : Request.step env.toLowerCase w.server.shared r e = some x) :
    Attended env numText k requests owner x.2 := by
  intro i howner
  obtain ⟨text, r₀, htext, rfl, hserving⟩ := h i howner
  obtain ⟨⟨outcome, ev⟩, hev, hstep⟩ := Option.bind_eq_some_iff.mp hstep
  obtain ⟨⟨g', r₁⟩, hr₁, rfl⟩ := Option.map_eq_some_iff.mp hstep
  exact ⟨text, r₁, htext, rfl, serving_step hserving (hin r₀ outcome ev hr hev) hr₁⟩

/-- A response that is delivered to this visit. -/
theorem served_deliver (h : Kept env numText k values w) {c i n : ℕ} {r : Request Decimal} {packet : String}
    (hc : w.owner[c]? = some (some (k, i))) (hr : w.server.components[c]? = some r)
    (hpacket : packetOf r = some packet) (hn : (w.visit k).pending[n]? = some i) :
    Served env numText (w.visit k) (.response n packet) := by
  obtain ⟨text, r₀, htext, rfl, hserving⟩ := Interleave.rel_of_getElem? h.attended hc hr i rfl
  obtain ⟨value, hmem, hreads, -⟩ := h.right.shows
  obtain ⟨l, rfl, henc⟩ := requestBody_eq_some (hreads.requests text (List.mem_of_getElem? htext))
  have hl := h.right.sendable _ hmem l rfl
  obtain ⟨es, t, hcomparison, hin⟩ := comparison_of_serving hl henc hserving hpacket
  refine ⟨text, l.1, es, t, ?_, hl, henc, hcomparison, hin⟩
  rw [hn, Option.bind_some, htext]

variable [DecidableEq κ]

/-- A step of another visit. -/
theorem kept_setVisit_of_ne (h : Kept env numText k values w) {k' : κ} (hk : k' ≠ k) (s : Visit) :
    Kept env numText k values (w.setVisit k' s) where
  right := by
    rw [w.setVisit_visit_of_ne hk.symm]
    exact h.right
  attended := by
    rw [w.setVisit_visit_of_ne hk.symm]
    exact h.attended

/-- A step of this visit. -/
theorem kept_setVisit (hdb : PlainRows env) (h : Kept env numText k values w) {e : Prices.Event} {s : Visit}
    (hserved : Served env numText (w.visit k) e) (hstep : Prices.step (w.visit k) e = some s) :
    Kept env numText k (values ++ e.stores) (w.setVisit k s) where
  right := by
    rw [w.setVisit_visit_self]
    exact right_step hdb h.right hserved hstep
  attended := by
    refine h.attended.imp fun owner r hr i howner => ?_
    obtain ⟨text, r', htext, hr', hserving⟩ := hr i howner
    refine ⟨text, r', ?_, hr', hserving⟩
    rw [w.setVisit_visit_self]
    exact Prices.requests_step htext hstep

theorem kept_step (hdb : PlainRows env) (h : Kept env numText k values w) {e : NetEvent κ} {w' : Net κ}
    (hin : Orderly env w e) (hstep : w.step env.toLowerCase numText e = some w') :
    Kept env numText k (values ++ e.storedBy k) w' := by
  cases netEffect_of_step hstep with
  | visit k' e s hresponse hs =>
      by_cases hk : k' = k
      · subst hk
        rw [NetEvent.storedBy, if_pos rfl]
        refine kept_setVisit hdb h ?_ hs
        cases e with
        | store value => exact hin
        | response n body => exact absurd rfl (hresponse n body)
        | _ => trivial
      · rw [NetEvent.storedBy, if_neg hk, List.append_nil]
        exact kept_setVisit_of_ne h hk s
  | arrive k' i text body server htext hparse hserver =>
      simp only [NetEvent.storedBy, List.append_nil]
      have hattended : Attended env numText k (w.visit k).requests (some (k', i)) _ :=
        attended_arrive w.server.shared (fun hk => hk ▸ htext) hparse
      exact ⟨h.right, Interleave.forall₂_arrive h.attended hattended hserver⟩
  | other call server hserver =>
      simp only [NetEvent.storedBy, List.append_nil]
      exact ⟨h.right, Interleave.forall₂_arrive h.attended (by simp [Attended]) hserver⟩
  | callback c e server hserver =>
      simp only [NetEvent.storedBy, List.append_nil]
      exact ⟨h.right, Interleave.forall₂_step h.attended
        (fun _ _ _ hr hattended hstep => attended_callback hin hr hattended hstep) hserver⟩
  | deliver c k' i n r packet s hc hr hpacket hn hs =>
      simp only [NetEvent.storedBy, List.append_nil]
      by_cases hk : k' = k
      · subst hk
        simpa [Prices.Event.stores] using kept_setVisit hdb h (served_deliver h hc hr hpacket hn) hs
      · exact kept_setVisit_of_ne h hk s

/-- The lists stored for the user of the visit `k` during a run. -/
def storedFor (k : κ) (es : List (NetEvent κ)) : List (Option Items) := es.flatMap (NetEvent.storedBy k)

/-- **What the phones show, exactly.**  Over a database with plain names and prices in whole
cents, whose answers come in time, and with nothing but `Sendable` lists stored, at the start and
since: every visit has one list, stored when its page was opened or since, that all its requests
are made from; and every answer it hands on is what that list costs iff none of its items is found
in both stores. -/
theorem phones_show_iff (hdb : PlainRows env) {stored : κ → Option Items} (hs : ∀ k, Sendable (stored k))
    {es : List (NetEvent κ)} {t : Net κ}
    (hin : EachStep (Net.step env.toLowerCase numText) (Orderly env) (.opened stored) es)
    (ht : run (Net.step env.toLowerCase numText) (.opened stored) es = some t) (k : κ) :
    ∃ value ∈ stored k :: storedFor k es,
      (∀ jsonText ∈ (t.visit k).requests, requestBody value = some jsonText) ∧
      ∀ r ∈ (t.visit k).shown, page r = ((Items.toList value).map (shown env)).sum ↔
        ∀ item ∈ Items.toList value, NotInBothStores env item := by
  have hend := Replay.inv_of_run_log (NetEvent.storedBy k) (Kept env numText k)
    (fun _ _ _ _ hi hp h => kept_step hdb hi hp h) (kept_opened hs k) hin ht
  obtain ⟨value, hmem, hr, hshows⟩ := hend.right.shows
  exact ⟨value, hmem, hr.requests, hshows.shown⟩

end net

/-! ### A run of two phones -/

section decidable

variable {env : Env Decimal}

instance (stored : List String) : Decidable (Encodable stored) :=
  decidable_of_iff (stored ≠ [] ∧ (∀ name ∈ stored, Json.PlainText name) ∧
      ∀ name ∈ stored.dropLast, some name ≠ stored.getLast?)
    ⟨fun h => ⟨h.1, h.2.1, h.2.2⟩, fun h => ⟨h.ne_nil, h.plain, h.last⟩⟩

instance : ∀ value, Decidable (Sendable value)
  | none => isTrue (by simp [Sendable])
  | some l => decidable_of_iff (Encodable l.1) (by simp [Sendable])

instance (s : State Decimal) : ∀ e, Decidable (TimerInTime env s e)
  | .timer i => inferInstanceAs
      (Decidable (∀ q ∈ s.queries, q.item = i → q.kind.isFirst = true → env.rows q.text = []))
  | .query _ => isTrue trivial
  | .respond => isTrue trivial

instance (s : State Decimal) : Decidable (NothingDue env s) :=
  inferInstanceAs (Decidable (∀ q ∈ s.queries, q.kind.isFirst = false → env.rows q.text = []))

instance (r : CompareRequest Decimal) (outcome : Except String (List (Server.Row Decimal)))
    (e : Server.Event) : Decidable (OnTime env r outcome e) :=
  inferInstanceAs (Decidable (_ ∧ _ ∧ (_ → _ ∧ _)))

instance (w : Net κ) : ∀ e, Decidable (Orderly env w e)
  | .visit k (.store value) => inferInstanceAs (Decidable (Sendable value))
  | .callback c e => match hr : w.server.components[c]?, he : e.event with
      | some (.compare r), some (outcome, ev) =>
          decidable_of_iff (OnTime env r outcome ev) (by simp [Orderly, hr, he])
      | some (.compare r), none => isTrue (by simp [Orderly, he])
      | some (.item r), _ => isTrue (by simp [Orderly, hr])
      | none, _ => isTrue (by simp [Orderly, hr])
  | .visit k .currentUser | .visit k .serve | .visit k .complete | .visit k (.tap _) | .visit k .compare
  | .visit k (.response _ _) | .visit k (.fail _) | .visit k .dispose => isTrue trivial
  | .arrive _ _ => isTrue trivial
  | .other _ => isTrue trivial
  | .deliver _ => isTrue trivial

end decidable

/-- Both phones have cocoa on the list and compare; a search comes between; the second phone's
page goes away before its response. -/
def cocoaPhones : List (NetEvent Bool) :=
  [.visit true .currentUser, .visit false .currentUser, .visit true .serve, .visit false .serve,
    .visit true .complete, .visit false .complete, .visit false .compare, .visit true .compare,
    .other (.item (some "milk")), .arrive true 0, .arrive false 0,
    .callback 2 (.query 1 (.ok [Server.cocoa])), .callback 1 (.query 0 (.ok [])),
    .callback 1 (.query 0 (.ok [Server.cocoa])), .callback 0 (.result (.ok [])),
    .visit true (.store (Items.ofList ["tea"])), .callback 1 (.timer 0), .callback 2 (.query 0 (.ok [])),
    .callback 2 (.timer 0), .callback 1 (.query 0 (.ok [])), .callback 2 (.query 0 (.ok [])),
    .visit false .dispose, .callback 2 .respond, .callback 1 .respond, .deliver 1, .deliver 2]

theorem phones_show_iff_cocoa : ∃ t : Net Bool,
    run (Net.step Server.cocoaEnv.toLowerCase fun _ => "") (.opened fun _ => Items.ofList ["cocoa"])
        cocoaPhones = some t ∧ (t.visit true).shown.length = 1 ∧
      ∃ value ∈ [Items.ofList ["cocoa"], Items.ofList ["tea"]],
        (∀ jsonText ∈ (t.visit true).requests, requestBody value = some jsonText) ∧
        ∀ r ∈ (t.visit true).shown,
          page r = ((Items.toList value).map (shown Server.cocoaEnv)).sum ↔
            ∀ item ∈ Items.toList value, NotInBothStores Server.cocoaEnv item := by
  have hrun : ((run (Net.step Server.cocoaEnv.toLowerCase fun _ => "")
      (.opened fun _ => Items.ofList ["cocoa"]) cocoaPhones).map
        fun t => (t.visit true).shown.length) = some 1 := by decide +kernel
  obtain ⟨t, ht, hone⟩ := Option.map_eq_some_iff.mp hrun
  have hin : EachStep (Net.step Server.cocoaEnv.toLowerCase fun _ => "") (Orderly Server.cocoaEnv)
      (.opened fun _ => Items.ofList ["cocoa"]) cocoaPhones := by decide +kernel
  have hs : ∀ _ : Bool, Sendable (Items.ofList ["cocoa"]) := by decide +kernel
  exact ⟨t, ht, hone, phones_show_iff plainRows_cocoa hs hin ht true⟩

end EasyGrocery.Wire
