import EasyGrocery.Lib.Json
import Mathlib.Data.List.Nodup

/-! # The results of the search page (`search.dart`)

`_search` binds `_searchList` to a new list and starts a request; the answer is appended to
whatever `_searchList` is when it arrives.  Nothing ties the answer to the search that asked
for it, and any number of requests may be in flight.

`latestOnly_iff`: a run never shows a name of an earlier search, nor a response twice, iff
every response that brings names belongs to the latest call of `_search`.  A user who lets
each request finish before the next search is always within this (`current_of_waits`); a slow
first answer is not (`not_onlyLatestResults`). -/

namespace EasyGrocery.SearchResults

open Guarded

/-- A request of `_addRequest` in flight. -/
structure Request where
  itemName : String
  /-- which call of `_search` made it, counted from 1 -/
  search : ℕ
deriving DecidableEq

/-- An entry of `_searchList`, with where it comes from. -/
structure Shown where
  name : String
  /-- the call of `_search` whose response brought it -/
  search : ℕ
  /-- its position in that response -/
  index : ℕ
deriving DecidableEq

/-- `SearchListState`; `text` is what `_textController` holds. -/
structure State where
  searchString : String
  text : String
  searchList : List Shown
  /-- identity of the list object that `_searchList` is bound to -/
  listId : ℕ
  inFlight : List Request
  /-- the calls of `_search` so far -/
  searches : ℕ
deriving DecidableEq

/-- The page as it is opened. -/
def State.opened : State := ⟨"", "", [], 0, [], 0⟩

/-- `resp[i]['ProductName'].toString()`, or `none` when that throws.  `text` is `toString` of
numbers, lists and maps. -/
def nameOf (text : Json → String) : Json → Option String
  | .obj row => some <| match Json.get? row "ProductName" with
      | none => "null"
      | some .null => "null"
      | some (.bool b) => if b then "true" else "false"
      | some (.str s) => s
      | some v => text v
  | _ => none

/-- The names the loop of `_addRequest` adds; an exception ends it, and those added stay. -/
def addLoop (text : Json → String) : List Json → List String
  | [] => []
  | j :: resp => match nameOf text j with
      | none => []
      | some name => name :: addLoop text resp

/-- What `_addRequest` adds to `_searchList` once `get` has completed with a body or failed.
A text or a map has a length too, but no element with a `'ProductName'`. -/
def namesOf (text : Json → String) (response : Option String) : List String :=
  match response.bind Json.parse with
  | some (.arr resp) => addLoop text resp
  | _ => []

/-- The names of a response as entries of the list. -/
def shown (search : ℕ) (names : List String) : List Shown :=
  names.zipIdx.map fun p => ⟨p.1, search, p.2⟩

namespace State

/-- The part of `_addRequest` before its `await`. -/
def addRequest (s : State) (itemName : String) : State :=
  { s with inFlight := s.inFlight ++ [⟨itemName, s.searches⟩] }

def search (s : State) : State :=
  let s := { s with searchList := [], listId := s.listId + 1, searches := s.searches + 1 }
  if s.searchString ≠ "" then { s.addRequest s.searchString with text := "" } else s

/-- `_addItem(itemName)`; `List.from(_searchList)` is a new object with the same entries. -/
def addItem (s : State) (groceryList : List String) (itemName : String) : State :=
  let s := { s with text := "", searchString := "" }
  if !groceryList.contains itemName then { s with listId := s.listId + 1 } else s

/-- The rest of `_addRequest`, when the request at index `k` completes. -/
def onResponse (text : Json → String) (s : State) (k : ℕ) (response : Option String) :
    Option State :=
  s.inFlight[k]?.map fun r =>
    { s with
      searchList := s.searchList ++ shown r.search (namesOf text response)
      inFlight := s.inFlight.eraseIdx k }

end State

/-- `onTap` and `onChanged` of the text field, the search button, the add icon of a row with
what `widget.groceryList` holds then, and the completion of a request: `none` is a failure. -/
inductive Event where
  | tapField
  | changed (value : String)
  | search
  | addItem (groceryList : List String) (itemName : String)
  | respond (k : ℕ) (response : Option String)
deriving DecidableEq

def step (text : Json → String) (s : State) : Event → Option State
  | .tapField => some { s with searchList := [] }
  | .changed value => some { s with searchString := value, text := value }
  | .search => some s.search
  | .addItem groceryList itemName => some (s.addItem groceryList itemName)
  | .respond k response => s.onResponse text k response

/-- What a step does to the entries, the requests in flight and the count of searches. -/
inductive Effect (text : Json → String) (s : State) : Event → State → Prop
  | page (e : Event) (s' : State) : (∀ k response, e ≠ .respond k response) →
      s'.searchList.Sublist s.searchList → s'.inFlight = s.inFlight →
      s'.searches = s.searches → Effect text s e s'
  | search (s' : State) (rs : List Request) : s'.searchList = [] →
      s'.inFlight = s.inFlight ++ rs → rs.map (·.search) <+: [s.searches + 1] →
      s'.searches = s.searches + 1 → Effect text s .search s'
  | respond (k : ℕ) (response : Option String) (r : Request) : s.inFlight[k]? = some r →
      Effect text s (.respond k response) { s with
        searchList := s.searchList ++ shown r.search (namesOf text response)
        inFlight := s.inFlight.eraseIdx k }

theorem effect_of_step {text : Json → String} {s s' : State} {e : Event}
    (h : step text s e = some s') : Effect text s e s' := by
  cases e with
  | tapField =>
      obtain rfl := Option.some.inj h
      exact .page _ _ (by simp) (List.nil_sublist _) rfl rfl
  | changed value =>
      obtain rfl := Option.some.inj h
      exact .page _ _ (by simp) (List.Sublist.refl _) rfl rfl
  | search =>
      obtain rfl := Option.some.inj h
      by_cases hs : s.searchString = ""
      · refine .search _ [] ?_ ?_ List.nil_prefix ?_ <;> simp [State.search, hs]
      · refine .search _ [⟨s.searchString, s.searches + 1⟩] ?_ ?_ List.prefix_rfl ?_ <;>
          simp [State.search, State.addRequest, hs]
  | addItem groceryList itemName =>
      obtain rfl := Option.some.inj h
      unfold State.addItem
      cases groceryList.contains itemName with
      | true => exact .page _ _ (by simp) (List.Sublist.refl _) rfl rfl
      | false => exact .page _ _ (by simp) (List.Sublist.refl _) rfl rfl
  | respond k response =>
      obtain ⟨r, hr, rfl⟩ := Option.map_eq_some_iff.mp h
      exact .respond k response r hr

/-! ### Only the latest search -/

/-- Every entry comes from the latest call of `_search`, and no response is there twice. -/
structure LatestOnly (s : State) : Prop where
  latest : ∀ x ∈ s.searchList, x.search = s.searches
  once : (s.searchList.map fun x => (x.search, x.index)).Nodup

/-- A response that brings names is one to the latest call of `_search`. -/
def Current (text : Json → String) (s : State) : Event → Prop
  | .respond k response =>
      ∀ r ∈ s.inFlight[k]?, r.search = s.searches ∨ namesOf text response = []
  | _ => True

/-- The calls of `_search` are told apart: those in flight have numbers of their own, none of
them above the count, and none of them has been answered. -/
structure Numbered (s : State) : Prop where
  shown : LatestOnly s
  distinct : (s.inFlight.map (·.search)).Nodup
  le : ∀ r ∈ s.inFlight, r.search ≤ s.searches
  unanswered : ∀ r ∈ s.inFlight, ∀ x ∈ s.searchList, x.search ≠ r.search

theorem mem_shown_search {n : ℕ} {names : List String} {x : Shown} (h : x ∈ shown n names) :
    x.search = n := by
  obtain ⟨p, _, rfl⟩ := List.mem_map.mp h
  rfl

theorem nodup_shown (n : ℕ) (names : List String) :
    ((shown n names).map fun x => (x.search, x.index)).Nodup := by
  have hm : (shown n names).map (fun x => (x.search, x.index)) =
      (List.range' 0 names.length).map (n, ·) := by
    rw [← List.zipIdx_map_snd 0 names, List.map_map, shown, List.map_map]
    rfl
  rw [hm]
  exact List.Nodup.map (fun i j h => (Prod.mk.inj h).2) List.nodup_range'

theorem mem_of_mem_eraseIdx_ne {l : List Request} {k : ℕ} {r r' : Request}
    (hd : (l.map (·.search)).Nodup) (hr : l[k]? = some r) (h : r' ∈ l.eraseIdx k) :
    r' ∈ l ∧ r'.search ≠ r.search := by
  obtain ⟨i, hne, hi⟩ := List.mem_eraseIdx_iff_getElem?.mp h
  refine ⟨List.mem_of_getElem? hi, fun he => hne ?_⟩
  have hlt : i < (l.map (·.search)).length := by
    simpa using (List.getElem?_eq_some_iff.mp hi).1
  exact (List.getElem?_inj hlt hd).mp (by rw [List.getElem?_map, List.getElem?_map, hi, hr]; simp [he])

theorem numbered_opened : Numbered .opened :=
  ⟨⟨nofun, List.nodup_nil⟩, List.nodup_nil, nofun, nofun⟩

/-- A search empties the list and takes the next number. -/
theorem numbered_search {s s' : State} {rs : List Request} (hi : Numbered s)
    (hl : s'.searchList = []) (hf : s'.inFlight = s.inFlight ++ rs)
    (hrs : rs.map (·.search) <+: [s.searches + 1]) (hn : s'.searches = s.searches + 1) :
    Numbered s' := by
  have hnew : ∀ r ∈ rs, r.search = s.searches + 1 := fun r hr =>
    List.mem_singleton.mp (hrs.subset (List.mem_map_of_mem hr))
  refine ⟨⟨by simp [hl], by simp [hl]⟩, ?_, ?_, by simp [hl]⟩
  · rw [hf, List.map_append, List.nodup_append]
    refine ⟨hi.distinct, hrs.sublist.nodup (List.nodup_singleton _), ?_⟩
    rintro a ha b hb rfl
    obtain ⟨r, hr, rfl⟩ := List.mem_map.mp ha
    have hr' := List.mem_singleton.mp (hrs.subset hb)
    have := hi.le r hr
    omega
  · intro r hr
    rw [hf] at hr
    rw [hn]
    rcases List.mem_append.mp hr with hr | hr
    · exact (hi.le r hr).trans (Nat.le_succ _)
    · exact (hnew r hr).le

/-- The entries of a response to the latest search are new. -/
theorem numbered_respond {text : Json → String} {s : State} {k : ℕ} {response : Option String}
    {r : Request} (hi : Numbered s) (hr : s.inFlight[k]? = some r)
    (hp : r.search = s.searches ∨ namesOf text response = []) :
    Numbered { s with
      searchList := s.searchList ++ shown r.search (namesOf text response)
      inFlight := s.inFlight.eraseIdx k } := by
  have hmem : r ∈ s.inFlight := List.mem_of_getElem? hr
  refine ⟨⟨?_, ?_⟩, (List.eraseIdx_sublist _ _).map _ |>.nodup hi.distinct,
    fun r' hr' => hi.le r' (List.mem_of_mem_eraseIdx hr'), ?_⟩
  · intro x hx
    rcases List.mem_append.mp hx with hx | hx
    · exact hi.shown.latest x hx
    · rcases hp with hs | hnil
      · exact (mem_shown_search hx).trans hs
      · simp [hnil, shown] at hx
  · rw [List.map_append, List.nodup_append]
    refine ⟨hi.shown.once, nodup_shown _ _, ?_⟩
    rintro a ha b hb rfl
    obtain ⟨x, hx, rfl⟩ := List.mem_map.mp ha
    obtain ⟨y, hy, he⟩ := List.mem_map.mp hb
    exact hi.unanswered r hmem x hx ((Prod.mk.inj he).1.symm.trans (mem_shown_search hy))
  · intro r' hr' x hx
    obtain ⟨hr', hne⟩ := mem_of_mem_eraseIdx_ne hi.distinct hr hr'
    rcases List.mem_append.mp hx with hx | hx
    · exact hi.unanswered r' hr' x hx
    · rw [mem_shown_search hx]
      exact hne.symm

theorem numbered_step {text : Json → String} {s s' : State} {e : Event} (hi : Numbered s)
    (hp : Current text s e) (h : step text s e = some s') : Numbered s' := by
  cases effect_of_step h with
  | page e s' hne hl hf hn =>
      obtain ⟨⟨hlatest, honce⟩, hd, hle, hun⟩ := hi
      refine ⟨⟨fun x hx => hn ▸ hlatest x (hl.subset hx), honce.sublist (hl.map _)⟩, hf ▸ hd, ?_, ?_⟩
      · rw [hf, hn]
        exact hle
      · rw [hf]
        exact fun r hr x hx => hun r hr x (hl.subset hx)
  | search s' rs hl hf hrs hn => exact numbered_search hi hl hf hrs hn
  | respond k response r hr => exact numbered_respond hi hr (hp r hr)

/-- A response to an earlier search that brings names spoils the list. -/
theorem not_latestOnly_of_not_current {text : Json → String} {s s' : State} {e : Event}
    (hp : ¬ Current text s e) (h : step text s e = some s') : ¬ LatestOnly s' := by
  intro hl
  apply hp
  cases effect_of_step h with
  | page e s' hne =>
      cases e with
      | respond k response => exact absurd rfl (hne k response)
      | _ => trivial
  | search s' rs => trivial
  | respond k response r hr =>
      intro r' hr'
      obtain rfl := Option.some.inj (hr.symm.trans hr')
      by_cases hnil : namesOf text response = []
      · exact .inr hnil
      · obtain ⟨name, names, hn⟩ := List.exists_cons_of_ne_nil hnil
        refine .inl (hl.latest ⟨name, r.search, 0⟩ (List.mem_append_right _ ?_))
        simp [hn, shown]

/-- **Results of the latest search only, exactly.**  In every state of a run the list holds
only names brought by the latest call of `_search`, and no response twice, iff every response
that brings names belongs to the latest call. -/
theorem latestOnly_iff (text : Json → String) (es : List Event) :
    EachState (step text) LatestOnly .opened es ↔ EachStep (step text) (Current text) .opened es :=
  eachState_iff Numbered (fun _ _ _ => numbered_step) (fun _ hi => hi.shown)
    (fun _ _ _ _ => not_latestOnly_of_not_current) numbered_opened

/-- The search page shows results of the latest search only, as a property of every run. -/
def OnlyLatestResults : Prop :=
  ∀ (text : Json → String) (es : List Event), EachState (step text) LatestOnly .opened es

/-- A search for "milk", then one for "eggs"; the answer to the first one arrives late. -/
theorem not_onlyLatestResults : ¬ OnlyLatestResults := by
  intro h
  let es : List Event := [.changed "milk", .search, .changed "eggs", .search,
    .respond 0 (some "[\x7b\"ProductName\":\"Whole Milk\"\x7d]")]
  have hrun : (run (step fun _ => "") .opened es).map (fun t => (t.searchList, t.searches)) =
      some ([⟨"Whole Milk", 1, 0⟩], 2) := by decide +kernel
  obtain ⟨t, ht, hv⟩ := Option.map_eq_some_iff.mp hrun
  obtain ⟨hl, hn⟩ := Prod.mk.inj hv
  have hlatest := ((h (fun _ => "") es).last ht).latest ⟨"Whole Milk", 1, 0⟩ (by rw [hl]; simp)
  rw [hn] at hlatest
  exact absurd hlatest (by decide)

/-! ### Waiting for each answer -/

/-- No search is started while a request is in flight. -/
def Waits (s : State) : Event → Prop
  | .search => s.inFlight = []
  | _ => True

/-- Every request in flight is one of the latest search. -/
def AllLatest (s : State) : Prop := ∀ r ∈ s.inFlight, r.search = s.searches

theorem allLatest_step {text : Json → String} {s s' : State} {e : Event} (hi : AllLatest s)
    (hp : Waits s e) (h : step text s e = some s') : AllLatest s' := by
  cases effect_of_step h with
  | page e s' hne hl hf hn =>
      intro r hr
      rw [hf] at hr
      exact hn ▸ hi r hr
  | search s' rs hl hf hrs hn =>
      intro r hr
      have hp : s.inFlight = [] := hp
      rw [hf, hp, List.nil_append] at hr
      rw [hn]
      exact List.mem_singleton.mp (hrs.subset (List.mem_map_of_mem hr))
  | respond k response r hr => exact fun r' hr' => hi r' (List.mem_of_mem_eraseIdx hr')

/-- A user who waits for each answer only ever sees the latest results. -/
theorem current_of_waits {text : Json → String} {es : List Event}
    (h : EachStep (step text) Waits .opened es) : EachStep (step text) (Current text) .opened es := by
  refine eachStep_of_inv AllLatest (fun _ _ _ => allLatest_step) ?_ nofun h
  intro s e s' hi _ _
  cases e with
  | respond k response => exact fun r hr => .inl (hi r (List.mem_of_getElem? hr))
  | _ => trivial

end EasyGrocery.SearchResults
