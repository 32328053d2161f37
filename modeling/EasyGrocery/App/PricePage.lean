import EasyGrocery.App.Shell
import EasyGrocery.Lib.Replay

/-! # A visit to the price page (`prices.dart`)

`PricesState` reads the stored list once, when it is created, and keeps what it found until it
goes away.  Meanwhile the stored list may change, by this or any other device.  Every press of
Compare posts the list that was found, and an answer that can be read is handed to the home page.

`requests_alike`: all requests of a visit carry one list, and it was stored at some moment of the
visit. -/

namespace EasyGrocery.Prices

open Firebase Guarded
open Shell (checkEnough)

/-- How far the call of `initializeVars` is. -/
inductive Loading where
  /-- `await widget.auth.currentUser()` -/
  | currentUser
  /-- `await dbRef.child("$uid/items").once()`, not answered yet -/
  | once
  /-- the answer is on its way -/
  | snapshot (value : Option Items)
  | done
deriving DecidableEq

/-- `PricesState`, and the list stored for its user. -/
structure Visit where
  stored : Option Items
  loading : Loading
  state : State
  /-- the flags `selected` of `_groceryStores` -/
  selected : List Bool
  /-- the bodies of all requests, in the order of the presses -/
  requests : List String
  /-- the positions among them of those whose response is still to come -/
  pending : List ℕ
  /-- what has been handed to `widget.callback` -/
  shown : List PriceCompareReturn
deriving DecidableEq

/-- The page as it is created: `initState` has called `initializeVars` and added the two stores. -/
def Visit.opened (stored : Option Items) : Visit where
  stored := stored
  loading := .currentUser
  state := .init
  selected := [true, true]
  requests := []
  pending := []
  shown := []

/-- Somebody stores a list; the steps of `initializeVars`; a tap on a store; the Compare button;
the response to the request at position `k` of `pending`, or its failure; the page going away. -/
inductive Event where
  | store (value : Option Items)
  | currentUser
  | serve
  | complete
  | tap (index : ℕ)
  | compare
  | response (k : ℕ) (body : String)
  | fail (k : ℕ)
  | dispose
deriving DecidableEq

namespace Visit

/-- `onTap` of a store's tile. -/
def onTap (s : Visit) (index : ℕ) : Visit := { s with selected := s.selected.modify index not }

/-- The part of `priceCompare` before its `await`. -/
def post (s : Visit) (jsonText : String) : Visit :=
  { s with requests := s.requests ++ [jsonText], pending := s.pending ++ [s.requests.length] }

/-- `onPressed` of the Compare button. -/
def onCompare (s : Visit) : Visit :=
  if checkEnough s.selected then
    -- an exception of `encodeListAsJson` ends the call and nothing else
    match encodeListAsJson s.state with
    | none => s
    | some jsonText => s.post jsonText
  -- the alert changes nothing
  else s

/-- The rest of `priceCompare`, and the callback of `ret.then`. -/
def onResponse (s : Visit) (k : ℕ) (body : String) : Visit :=
  let s := { s with pending := s.pending.eraseIdx k }
  match readResponse body with
  | none => s
  | some ret => { s with shown := s.shown ++ [ret] }

end Visit

def step (s : Visit) : Event → Option Visit
  | .store value => some { s with stored := value }
  | .currentUser => if s.loading = .currentUser then some { s with loading := .once } else none
  | .serve => if s.loading = .once then some { s with loading := .snapshot s.stored } else none
  | .complete => match s.loading with
      | .snapshot value => some { s with state := s.state.onSnapshot value, loading := .done }
      | _ => none
  | .tap index =>
      if s.state.mounted ∧ index < s.selected.length then some (s.onTap index) else none
  | .compare => if s.state.mounted then some s.onCompare else none
  | .response k body => if k < s.pending.length then some (s.onResponse k body) else none
  | .fail k => if k < s.pending.length then some { s with pending := s.pending.eraseIdx k } else none
  | .dispose =>
      if s.state.mounted then some { s with state := { s.state with mounted := false } } else none

/-! ### What a step can do -/

inductive Effect (s : Visit) : Event → Visit → Prop
  | store (value : Option Items) : Effect s (.store value) { s with stored := value }
  | currentUser : s.loading = .currentUser → Effect s .currentUser { s with loading := .once }
  | serve : s.loading = .once → Effect s .serve { s with loading := .snapshot s.stored }
  | complete (value : Option Items) : s.loading = .snapshot value →
      Effect s .complete { s with state := s.state.onSnapshot value, loading := .done }
  | tap (index : ℕ) : Effect s (.tap index) (s.onTap index)
  /-- too few stores selected, or no list to send -/
  | quiet : Effect s .compare s
  | post (jsonText : String) : encodeListAsJson s.state = some jsonText →
      Effect s .compare (s.post jsonText)
  | lost (k : ℕ) (body : String) : k < s.pending.length → readResponse body = none →
      Effect s (.response k body) { s with pending := s.pending.eraseIdx k }
  | answered (k : ℕ) (body : String) (ret : PriceCompareReturn) : k < s.pending.length →
      readResponse body = some ret →
      Effect s (.response k body)
        { s with pending := s.pending.eraseIdx k, shown := s.shown ++ [ret] }
  | fail (k : ℕ) : Effect s (.fail k) { s with pending := s.pending.eraseIdx k }
  | dispose : Effect s .dispose { s with state := { s.state with mounted := false } }

theorem effect_of_step {s s' : Visit} {e : Event} (h : step s e = some s') : Effect s e s' := by
  cases e with
  | store value => exact Option.some.inj h ▸ .store value
  | currentUser =>
      simp only [step, Option.ite_none_right_eq_some, Option.some.injEq] at h
      obtain ⟨hl, rfl⟩ := h
      exact .currentUser hl
  | serve =>
      simp only [step, Option.ite_none_right_eq_some, Option.some.injEq] at h
      obtain ⟨hl, rfl⟩ := h
      exact .serve hl
  | complete =>
      simp only [step] at h
      split at h
      · next value hl =>
        obtain rfl := Option.some.inj h
        exact .complete value hl
      · cases h
  | tap index =>
      simp only [step, Option.ite_none_right_eq_some, Option.some.injEq] at h
      exact h.2 ▸ .tap index
  | compare =>
      simp only [step, Option.ite_none_right_eq_some, Option.some.injEq] at h
      obtain ⟨-, rfl⟩ := h
      unfold Visit.onCompare
      split_ifs
      · cases henc : encodeListAsJson s.state with
        | none => exact .quiet
        | some jsonText => exact .post jsonText henc
      · exact .quiet
  | response k body =>
      simp only [step, Option.ite_none_right_eq_some, Option.some.injEq] at h
      obtain ⟨hk, rfl⟩ := h
      unfold Visit.onResponse
      cases hread : readResponse body with
      | none => exact .lost k body hk hread
      | some ret => exact .answered k body ret hk hread
  | fail k =>
      simp only [step, Option.ite_none_right_eq_some, Option.some.injEq] at h
      exact h.2 ▸ .fail k
  | dispose =>
      simp only [step, Option.ite_none_right_eq_some, Option.some.injEq] at h
      exact h.2 ▸ .dispose

/-! ### The list of a visit -/

/-- The lists stored during a run. -/
def Event.stores : Event → List (Option Items)
  | .store value => [value]
  | _ => []

def storedIn (es : List Event) : List (Option Items) := es.flatMap Event.stores

/-- The body of a request for a stored list. -/
def requestBody (value : Option Items) : Option String := encodeListAsJson (State.init.onSnapshot value)

/-- The page has read `value`, or nothing yet. -/
structure Reads (s : Visit) (value : Option Items) : Prop where
  snapshot : ∀ v, s.loading = .snapshot v → v = value
  early : s.loading ≠ .done → s.state.groceryList = none ∧ s.requests = []
  list : ∀ jsonText, encodeListAsJson s.state = some jsonText → requestBody value = some jsonText
  requests : ∀ jsonText ∈ s.requests, requestBody value = some jsonText

/-- The list a page has once its snapshot is there. -/
theorem encode_onSnapshot {s : State} (h : s.groceryList = none) {value : Option Items}
    {jsonText : String} (henc : encodeListAsJson (s.onSnapshot value) = some jsonText) :
    requestBody value = some jsonText := by
  cases value with
  | none => simp [State.onSnapshot, encodeListAsJson, h] at henc
  | some l => cases hm : s.mounted with
    | false => simp [State.onSnapshot, encodeListAsJson, h, hm] at henc
    | true => simpa [requestBody, State.onSnapshot, encodeListAsJson, State.init, hm] using henc

theorem reads_opened (stored value : Option Items) : Reads (.opened stored) value where
  snapshot := by
    intro v hv
    cases hv
  early := fun _ => ⟨rfl, rfl⟩
  list := by
    intro jsonText h
    cases h
  requests := by
    intro jsonText h
    cases h

/-- The value that a page has read after a step. -/
def Event.readBy (s : Visit) (value : Option Items) : Event → Option Items
  | .serve => s.stored
  | _ => value

theorem reads_step {s s' : Visit} {e : Event} {value : Option Items} (h : Reads s value)
    (hstep : step s e = some s') : Reads s' (e.readBy s value) := by
  cases effect_of_step hstep with
  | store v => exact ⟨h.snapshot, h.early, h.list, h.requests⟩
  | currentUser hl =>
      refine ⟨?_, fun _ => h.early (by simp [hl]), h.list, h.requests⟩
      intro v hv
      cases hv
  | serve hl =>
      -- no request has been made before
      obtain ⟨hlist, hnone⟩ := h.early (by simp [hl])
      refine ⟨?_, fun _ => ⟨hlist, hnone⟩, ?_, ?_⟩
      · intro v hv
        exact (Loading.snapshot.inj hv).symm
      · intro jsonText henc
        simp [encodeListAsJson, hlist] at henc
      · intro jsonText hj
        rw [hnone] at hj
        cases hj
  | complete v hl =>
      obtain ⟨hlist, hnone⟩ := h.early (by simp [hl])
      obtain rfl := h.snapshot v hl
      refine ⟨?_, fun hd => absurd rfl hd, fun _ => encode_onSnapshot hlist, h.requests⟩
      intro w hw
      cases hw
  | tap index => exact ⟨h.snapshot, h.early, h.list, h.requests⟩
  | quiet => exact h
  | post jsonText henc =>
      refine ⟨h.snapshot, ?_, h.list, ?_⟩
      · intro hl
        simp [encodeListAsJson, (h.early hl).1] at henc
      · intro text hmem
        rcases List.mem_append.mp hmem with hmem | hmem
        · exact h.requests text hmem
        · exact List.mem_singleton.mp hmem ▸ h.list jsonText henc
  | lost k body _ _ => exact ⟨h.snapshot, h.early, h.list, h.requests⟩
  | answered k body ret _ _ => exact ⟨h.snapshot, h.early, h.list, h.requests⟩
  | fail k => exact ⟨h.snapshot, h.early, h.list, h.requests⟩
  | dispose => exact ⟨h.snapshot, h.early, h.list, h.requests⟩

/-- Requests keep their positions. -/
theorem requests_step {s s' : Visit} {e : Event} {i : ℕ} {jsonText : String}
    (hi : s.requests[i]? = some jsonText) (h : step s e = some s') : s'.requests[i]? = some jsonText := by
  cases effect_of_step h with
  | post text _ => exact (List.getElem?_append_left (List.getElem?_eq_some_iff.mp hi).1).trans hi
  | _ => exact hi

/-- What is stored after a step was stored before it or by it. -/
theorem stored_step {s s' : Visit} {e : Event} {values : List (Option Items)} (h : s.stored ∈ values)
    (hstep : step s e = some s') : s'.stored ∈ values ++ e.stores := by
  cases effect_of_step hstep with
  | store v => exact List.mem_append_right _ (List.mem_singleton_self v)
  | _ => exact List.mem_append_left _ h

theorem readBy_mem {s : Visit} {value : Option Items} {values : List (Option Items)}
    (hs : s.stored ∈ values) (hv : value ∈ values) (e : Event) : e.readBy s value ∈ values := by
  cases e <;> assumption

/-- What is stored is one of `values`, and so is what the page has read. -/
structure Follows (values : List (Option Items)) (s : Visit) : Prop where
  stored : s.stored ∈ values
  reads : ∃ value ∈ values, Reads s value

theorem follows_opened (stored : Option Items) : Follows [stored] (.opened stored) :=
  ⟨List.mem_singleton_self _, stored, List.mem_singleton_self _, reads_opened stored stored⟩

theorem follows_step {values : List (Option Items)} {s s' : Visit} {e : Event} (h : Follows values s)
    (hstep : step s e = some s') : Follows (values ++ e.stores) s' := by
  obtain ⟨value, hmem, hr⟩ := h.reads
  exact ⟨stored_step h.stored hstep, e.readBy s value,
    List.mem_append_left _ (readBy_mem h.stored hmem e), reads_step hr hstep⟩

/-- **One visit, one list.**  However the stored list changes meanwhile, all requests of a visit
are made from one value, and that was stored when the page was opened or since. -/
theorem requests_alike {stored : Option Items} {es : List Event} {t : Visit}
    (ht : run step (.opened stored) es = some t) :
    ∃ value ∈ stored :: storedIn es, ∀ jsonText ∈ t.requests, requestBody value = some jsonText := by
  have hend := Replay.inv_of_run_log Event.stores Follows
    (fun _ _ _ _ hi (_ : True) h => follows_step hi h) (follows_opened stored)
    (.of_forall (fun _ _ => trivial) _ _) ht
  obtain ⟨value, hmem, hr⟩ := hend.reads
  exact ⟨value, hmem, hr.requests⟩

/-- A list is stored and read, another one is stored, and Compare is pressed twice. -/
theorem requests_alike_tea : ∃ t,
    run step (.opened none) [.currentUser, .store (Items.ofList ["tea"]), .serve, .complete,
      .store (Items.ofList ["milk"]), .compare, .compare] = some t ∧ t.requests.length = 2 ∧
      ∃ value ∈ [none, Items.ofList ["tea"], Items.ofList ["milk"]],
        ∀ jsonText ∈ t.requests, requestBody value = some jsonText := by
  have hrun : (run step (.opened none) [.currentUser, .store (Items.ofList ["tea"]), .serve, .complete,
      .store (Items.ofList ["milk"]), .compare, .compare]).map (·.requests.length) = some 2 := by
    decide
  obtain ⟨t, ht, htwo⟩ := Option.map_eq_some_iff.mp hrun
  exact ⟨t, ht, htwo, requests_alike ht⟩

end EasyGrocery.Prices
