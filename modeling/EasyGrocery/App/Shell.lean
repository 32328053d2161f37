import EasyGrocery.App.Prices
import EasyGrocery.Lib.Transition

/-! # The logged-in shell (`splash.dart`, `home_page.dart`)

`Splash` shows the home page while somebody is logged in, with a new `_MyHomePageState` for
every session.  `_currentIndex` is static: it survives the sessions.  The home page shows one
of four pages and highlights a tab; the fourth page, the comparison, is installed by the answer
to a press of Compare, whenever it arrives.

* `showsPage_iff`: the page shown exists and its tab is the highlighted one throughout a run
  iff every answer arrives on the price tab and no session starts at index 3.  A logout from
  the comparison is enough to end at a missing page (`not_alwaysShowsPage`).
* `latestShown_iff`: the comparison is the one of the latest press throughout a run iff every
  answer is to the latest press and that press was made after the last Reset.  Two presses can
  be answered the other way round (`not_alwaysLatestShown`).
* `inPlace_of_patient`, `forLatest_of_patient`: a user who stays until the answer is there and
  presses Reset before logging out is always within both conditions. -/

namespace EasyGrocery.Shell

open Guarded
open Prices (PriceCompareReturn)

/-- The widget `Compare` that an answer brings; `press` is the press of Compare it answers. -/
structure Compare where
  data : PriceCompareReturn
  press : ℕ
deriving DecidableEq

/-- The widgets among `_pages`. -/
inductive Page where
  | HomeScreen
  | GroceryList
  | Prices
  | Compare (page : Compare)
deriving DecidableEq

/-- The position in `tabItems` of the tab a page belongs to. -/
def Page.tab : Page → ℕ
  | HomeScreen => 0
  | GroceryList => 1
  | Prices => 2
  | Compare _ => 2

/-- The labels of `tabItems`. -/
def tabItems : List String := ["Home", "List", "Prices"]

/-- `_MyHomePageState`, with the presses of Compare made on it. -/
structure MyHomePageState where
  /-- `_pages[3]` -/
  page3 : Option Compare
  /-- `_navigationController.value` -/
  controller : ℕ
  /-- the presses whose answer is still to come, by their numbers -/
  pending : List ℕ
  /-- the presses so far, numbered from 1 -/
  presses : ℕ
  /-- the presses that had been made at the last Reset -/
  lastReset : ℕ
deriving DecidableEq

/-- `authStatus`, and the state of the home page while it is shown. -/
inductive AuthStatus where
  | Pending
  | Not_Logged_in
  | Logged_in (home : MyHomePageState)
deriving DecidableEq

structure State where
  authStatus : AuthStatus
  /-- the static `_currentIndex` -/
  currentIndex : ℕ
deriving DecidableEq

/-- The app as it is started. -/
def State.start : State := ⟨.Pending, 0⟩

namespace MyHomePageState

/-- `createState()`: the controller starts at the current index. -/
def create (currentIndex : ℕ) : MyHomePageState := ⟨none, currentIndex, [], 0, 0⟩

/-- `_pages`, as `build` fills it; `none` is `null`. -/
def pages (h : MyHomePageState) : List (Option Page) :=
  [some .HomeScreen, some .GroceryList, some .Prices, h.page3.map .Compare]

def checkCompare (h : MyHomePageState) (index : ℕ) : Bool :=
  h.page3.isNone || index != 2

/-- The `body` of `build`; `none` is `null`. -/
def body (h : MyHomePageState) (currentIndex : ℕ) : Option Page :=
  if h.checkCompare currentIndex then (h.pages[currentIndex]?).join else (h.pages[3]?).join

end MyHomePageState

/-- At least two of the stores are selected. -/
def checkEnough (selected : List Bool) : Bool := 2 ≤ selected.count true

/-- The answer to `currentUser()` of `Splash`; a tap on a tab; the Compare button, with the
stores selected; the answer to the press at index `k` of `pending`, or its failure; the Reset
button of the comparison; a completed logout and login. -/
inductive Event where
  | currentUser (known : Bool)
  | tap (selectedPos : ℕ)
  | compare (selected : List Bool)
  | answer (k : ℕ) (data : PriceCompareReturn)
  | fail (k : ℕ)
  | reset
  | signedOut
  | signedIn
deriving DecidableEq

namespace MyHomePageState

/-- `selectedCallback(selectedPos)` -/
def selected (h : MyHomePageState) (selectedPos : ℕ) : State :=
  ⟨.Logged_in { h with controller := selectedPos }, selectedPos⟩

/-- `onPressed` of the Compare button. -/
def compare (h : MyHomePageState) (selected : List Bool) : MyHomePageState :=
  if checkEnough selected then
    { h with pending := h.pending ++ [h.presses + 1], presses := h.presses + 1 }
  else h

/-- `callback(newPage)`, by the answer to the press at index `k`. -/
def callback (h : MyHomePageState) (k press : ℕ) (data : PriceCompareReturn) : State :=
  ⟨.Logged_in { h with page3 := some ⟨data, press⟩, pending := h.pending.eraseIdx k }, 3⟩

/-- `reset()` -/
def reset (h : MyHomePageState) : State :=
  ⟨.Logged_in { h with page3 := none, lastReset := h.presses }, 2⟩

end MyHomePageState

/-- One step.  A button can only be pressed while its page is shown; the tabs are there
whenever the home page is. -/
def step (s : State) : Event → Option State
  | .currentUser known => match s.authStatus with
      | .Pending => some { s with authStatus :=
          if known then .Logged_in (.create s.currentIndex) else .Not_Logged_in }
      | _ => none
  | .tap selectedPos => match s.authStatus with
      | .Logged_in h => if selectedPos < tabItems.length then some (h.selected selectedPos) else none
      | _ => none
  | .compare selected => match s.authStatus with
      | .Logged_in h =>
          if h.body s.currentIndex = some .Prices then
            some { s with authStatus := .Logged_in (h.compare selected) }
          else none
      | _ => none
  | .answer k data => match s.authStatus with
      | .Logged_in h => h.pending[k]?.map fun press => h.callback k press data
      | _ => none
  | .fail k => match s.authStatus with
      | .Logged_in h =>
          if k < h.pending.length then
            some { s with authStatus := .Logged_in { h with pending := h.pending.eraseIdx k } }
          else none
      | _ => none
  | .reset => match s.authStatus with
      | .Logged_in h => match h.body s.currentIndex with
          | some (.Compare _) => some h.reset
          | _ => none
      | _ => none
  | .signedOut => match s.authStatus with
      | .Logged_in _ => some { s with authStatus := .Not_Logged_in }
      | _ => none
  | .signedIn => match s.authStatus with
      | .Not_Logged_in => some { s with authStatus := .Logged_in (.create s.currentIndex) }
      | _ => none

/-- What a step does. -/
inductive Effect : State → Event → State → Prop
  | rejected (i : ℕ) : Effect ⟨.Pending, i⟩ (.currentUser false) ⟨.Not_Logged_in, i⟩
  | known (i : ℕ) : Effect ⟨.Pending, i⟩ (.currentUser true) ⟨.Logged_in (.create i), i⟩
  | tap (h : MyHomePageState) (i pos : ℕ) : pos < tabItems.length →
      Effect ⟨.Logged_in h, i⟩ (.tap pos) (h.selected pos)
  | compare (h : MyHomePageState) (i : ℕ) (selected : List Bool) : h.body i = some .Prices →
      Effect ⟨.Logged_in h, i⟩ (.compare selected) ⟨.Logged_in (h.compare selected), i⟩
  | answer (h : MyHomePageState) (i k press : ℕ) (data : PriceCompareReturn) :
      h.pending[k]? = some press →
      Effect ⟨.Logged_in h, i⟩ (.answer k data) (h.callback k press data)
  | fail (h : MyHomePageState) (i k : ℕ) : k < h.pending.length →
      Effect ⟨.Logged_in h, i⟩ (.fail k)
        ⟨.Logged_in { h with pending := h.pending.eraseIdx k }, i⟩
  | reset (h : MyHomePageState) (i : ℕ) (page : Compare) : h.body i = some (.Compare page) →
      Effect ⟨.Logged_in h, i⟩ .reset h.reset
  | signedOut (h : MyHomePageState) (i : ℕ) :
      Effect ⟨.Logged_in h, i⟩ .signedOut ⟨.Not_Logged_in, i⟩
  | signedIn (i : ℕ) : Effect ⟨.Not_Logged_in, i⟩ .signedIn ⟨.Logged_in (.create i), i⟩

theorem effect_of_step {s s' : State} {e : Event} (h : step s e = some s') : Effect s e s' := by
  obtain ⟨status, i⟩ := s
  cases status with
  | Pending =>
      cases e with
      | currentUser known =>
          obtain rfl := Option.some.inj h
          cases known with
          | true => exact .known i
          | false => exact .rejected i
      | _ => simp [step] at h
  | Not_Logged_in =>
      cases e with
      | signedIn => exact Option.some.inj h ▸ .signedIn i
      | _ => simp [step] at h
  | Logged_in home =>
      cases e with
      | currentUser known => simp [step] at h
      | signedIn => simp [step] at h
      | signedOut => exact Option.some.inj h ▸ .signedOut home i
      | tap pos =>
          simp only [step, Option.ite_none_right_eq_some, Option.some.injEq] at h
          obtain ⟨hpos, rfl⟩ := h
          exact .tap home i pos hpos
      | compare selected =>
          simp only [step, Option.ite_none_right_eq_some, Option.some.injEq] at h
          obtain ⟨hb, rfl⟩ := h
          exact .compare home i selected hb
      | answer k data =>
          obtain ⟨press, hk, rfl⟩ := Option.map_eq_some_iff.mp h
          exact .answer home i k press data hk
      | fail k =>
          simp only [step, Option.ite_none_right_eq_some, Option.some.injEq] at h
          obtain ⟨hk, rfl⟩ := h
          exact .fail home i k hk
      | reset =>
          simp only [step] at h
          split at h
          · next page hb => exact Option.some.inj h ▸ .reset home i page hb
          · cases h

/-! ### The page shown -/

/-- The body is a page, and its tab is the highlighted one. -/
def PageShown (h : MyHomePageState) (currentIndex : ℕ) : Prop :=
  h.controller < tabItems.length ∧
    ∃ page, h.body currentIndex = some page ∧ page.tab = h.controller

/-- While the home page is shown, it shows a page under its tab. -/
def ShowsPage (s : State) : Prop := ∀ h, s.authStatus = .Logged_in h → PageShown h s.currentIndex

/-- An answer arrives on the price tab, and no home page is created at index 3. -/
def InPlace (s : State) : Event → Prop
  | .answer _ _ => ∀ h, s.authStatus = .Logged_in h → h.controller = 2
  | .signedIn => s.currentIndex ≠ 3
  | _ => True

/-- What holds as long as every step is in place. -/
structure Shown (s : State) : Prop where
  page : ShowsPage s
  index : s.currentIndex ≤ 3
  first : s.authStatus = .Pending → s.currentIndex = 0

theorem showsPage_loggedIn {h : MyHomePageState} {i : ℕ} :
    ShowsPage ⟨.Logged_in h, i⟩ ↔ PageShown h i := by
  refine ⟨fun hs => hs h rfl, fun hp h' he => ?_⟩
  obtain rfl := AuthStatus.Logged_in.inj he
  exact hp

/-- At index 2 the comparison takes the place of the price page. -/
theorem body_two (h : MyHomePageState) : h.body 2 = some (h.page3.elim .Prices .Compare) := by
  unfold MyHomePageState.body MyHomePageState.checkCompare
  cases hp : h.page3 <;> simp [MyHomePageState.pages, hp]

theorem body_of_ne_two (h : MyHomePageState) {i : ℕ} (hi : i ≠ 2) :
    h.body i = (h.pages[i]?).join := by
  unfold MyHomePageState.body MyHomePageState.checkCompare
  rw [if_pos (by simp [hi])]

theorem pageShown_selected (h : MyHomePageState) {pos : ℕ} (hpos : pos < tabItems.length) :
    PageShown { h with controller := pos } pos := by
  refine ⟨hpos, ?_⟩
  have hcases : pos = 0 ∨ pos = 1 ∨ pos = 2 := by
    simp only [tabItems, List.length_cons, List.length_nil] at hpos
    omega
  obtain rfl | rfl | rfl := hcases
  · exact ⟨.HomeScreen, body_of_ne_two _ (by decide), rfl⟩
  · exact ⟨.GroceryList, body_of_ne_two _ (by decide), rfl⟩
  · exact ⟨_, body_two _, by cases h.page3 <;> rfl⟩

theorem pageShown_create {i : ℕ} (hi : i < 3) : PageShown (.create i) i :=
  pageShown_selected (.create i) hi

/-- A new home page has nothing to show at index 3. -/
theorem not_pageShown_create : ¬ PageShown (.create 3) 3 := fun h => absurd h.1 (by decide)

/-- The comparison is shown whatever tab is highlighted. -/
theorem showsPage_callback_iff (h : MyHomePageState) (k press : ℕ) (data : PriceCompareReturn) :
    ShowsPage (h.callback k press data) ↔ h.controller = 2 := by
  refine showsPage_loggedIn.trans ⟨?_, fun hc => ?_⟩
  · rintro ⟨-, page, hb, htab⟩
    rw [body_of_ne_two _ (by decide)] at hb
    obtain rfl := Option.some.inj hb
    exact htab.symm
  · exact ⟨by simp [hc, tabItems], .Compare ⟨data, press⟩, body_of_ne_two _ (by decide), hc.symm⟩

/-- Reset, pressed on the comparison, leads back to the price page. -/
theorem showsPage_reset {h : MyHomePageState} {i : ℕ} {page : Compare} (hp : PageShown h i)
    (hb : h.body i = some (.Compare page)) : ShowsPage h.reset := by
  obtain ⟨hlt, page', hb', htab⟩ := hp
  obtain rfl := Option.some.inj (hb.symm.trans hb')
  exact showsPage_loggedIn.mpr ⟨hlt, .Prices, body_two _, htab⟩

/-- A press of Compare leaves the pages as they are. -/
theorem pageShown_compare {h : MyHomePageState} {i : ℕ} (selected : List Bool)
    (hp : PageShown h i) : PageShown (h.compare selected) i := by
  unfold MyHomePageState.compare
  split_ifs
  · exact hp
  · exact hp

theorem shown_start : Shown .start := ⟨nofun, by decide, fun _ => rfl⟩

theorem shown_step {s s' : State} {e : Event} (hi : Shown s) (hp : InPlace s e)
    (hs : step s e = some s') : Shown s' := by
  obtain ⟨hpage, hindex, hfirst⟩ := hi
  cases effect_of_step hs with
  | rejected i => exact ⟨nofun, hindex, nofun⟩
  | known i =>
      have h0 : i = 0 := hfirst rfl
      exact ⟨showsPage_loggedIn.mpr (pageShown_create (by omega)), hindex, nofun⟩
  | tap h i pos hpos =>
      exact ⟨showsPage_loggedIn.mpr (pageShown_selected h hpos), Nat.le_of_lt hpos, nofun⟩
  | compare h i selected hb =>
      exact ⟨showsPage_loggedIn.mpr (pageShown_compare selected (hpage h rfl)), hindex, nofun⟩
  | answer h i k press data hk =>
      exact ⟨(showsPage_callback_iff h k press data).mpr (hp h rfl), le_rfl, nofun⟩
  | fail h i k hk => exact ⟨showsPage_loggedIn.mpr (hpage h rfl), hindex, nofun⟩
  | reset h i page hb => exact ⟨showsPage_reset (hpage h rfl) hb, Nat.le_succ 2, nofun⟩
  | signedOut h i => exact ⟨nofun, hindex, nofun⟩
  | signedIn i =>
      have hne : i ≠ 3 := hp
      have hlt : i < 3 := by
        have hle : i ≤ 3 := hindex
        omega
      exact ⟨showsPage_loggedIn.mpr (pageShown_create hlt), hindex, nofun⟩

/-- An answer on another tab, or a session that starts at index 3, shows the wrong page or
none. -/
theorem not_showsPage_of_not_inPlace {s s' : State} {e : Event} (hp : ¬ InPlace s e)
    (hs : step s e = some s') : ¬ ShowsPage s' := by
  intro hpage
  apply hp
  cases effect_of_step hs with
  | answer h i k press data hk =>
      intro h' he
      obtain rfl := AuthStatus.Logged_in.inj he
      exact (showsPage_callback_iff h k press data).mp hpage
  | signedIn i =>
      rintro rfl
      exact not_pageShown_create (showsPage_loggedIn.mp hpage)
  | _ => trivial

/-- **The page shown, exactly.**  In every state of a run the home page shows a page that
exists, under its own tab, iff every answer arrives while the price tab is highlighted and no
session starts at index 3. -/
theorem showsPage_iff (es : List Event) :
    EachState step ShowsPage .start es ↔ EachStep step InPlace .start es :=
  eachState_iff Shown (fun _ _ _ => shown_step) (fun _ hi => hi.page)
    (fun _ _ _ _ => not_showsPage_of_not_inPlace) shown_start

/-- The shell never points at a missing page, as a property of every run. -/
def AlwaysShowsPage : Prop := ∀ es : List Event, EachState step ShowsPage .start es

/-- A comparison is shown, and the user logs out and in again: index 3 has no page now. -/
theorem not_alwaysShowsPage : ¬ AlwaysShowsPage := by
  intro h
  let es : List Event := [.currentUser true, .tap 2, .compare [true, true],
    .answer 0 ⟨0, [], 0, []⟩, .signedOut, .signedIn]
  have hrun : run step .start es = some ⟨.Logged_in (.create 3), 3⟩ := by decide
  exact not_pageShown_create (showsPage_loggedIn.mp ((h es).last hrun))

/-! ### The latest press -/

/-- The comparison, if there is one, is the answer to the latest press, made after the last
Reset. -/
def LatestShown (s : State) : Prop :=
  ∀ h page, s.authStatus = .Logged_in h → h.page3 = some page →
    page.press = h.presses ∧ h.lastReset < h.presses

/-- An answer is to the latest press, and that press was made after the last Reset. -/
def ForLatest (s : State) : Event → Prop
  | .answer k _ => ∀ h, s.authStatus = .Logged_in h → ∀ press ∈ h.pending[k]?,
      press = h.presses ∧ h.lastReset < h.presses
  | _ => True

theorem latestShown_of_none {h : MyHomePageState} {i : ℕ} (hn : h.page3 = none) :
    LatestShown ⟨.Logged_in h, i⟩ := by
  intro h' page he hp
  obtain rfl := AuthStatus.Logged_in.inj he
  rw [hn] at hp
  cases hp

theorem latestShown_callback_iff (h : MyHomePageState) (k press : ℕ) (data : PriceCompareReturn) :
    LatestShown (h.callback k press data) ↔ press = h.presses ∧ h.lastReset < h.presses := by
  constructor
  · intro hl
    exact hl { h with page3 := some ⟨data, press⟩, pending := h.pending.eraseIdx k } _ rfl rfl
  · intro hc h' page he hp
    obtain rfl := AuthStatus.Logged_in.inj he
    obtain rfl := Option.some.inj hp
    exact hc

/-- While the price page is shown there is no comparison. -/
theorem page3_of_body_prices {h : MyHomePageState} {i : ℕ} (hb : h.body i = some .Prices) :
    h.page3 = none := by
  by_cases hi : i = 2
  · subst hi
    rw [body_two] at hb
    cases hp : h.page3 with
    | none => rfl
    | some page => simp [hp] at hb
  · rw [body_of_ne_two h hi] at hb
    match i with
    | 0 | 1 | i + 4 => simp [MyHomePageState.pages] at hb
    | 2 => exact absurd rfl hi
    | 3 => simp [MyHomePageState.pages] at hb

theorem latestShown_step {s s' : State} {e : Event} (hi : LatestShown s) (hp : ForLatest s e)
    (hs : step s e = some s') : LatestShown s' := by
  cases effect_of_step hs with
  | rejected i => exact nofun
  | known i => exact latestShown_of_none rfl
  | tap h i pos hpos =>
      intro h' page he hpage
      obtain rfl := AuthStatus.Logged_in.inj he
      exact hi h page rfl hpage
  | compare h i selected hb =>
      have hn := page3_of_body_prices hb
      apply latestShown_of_none
      unfold MyHomePageState.compare
      split_ifs
      · exact hn
      · exact hn
  | answer h i k press data hk => exact (latestShown_callback_iff h k press data).mpr (hp h rfl press hk)
  | fail h i k hk =>
      intro h' page he hpage
      obtain rfl := AuthStatus.Logged_in.inj he
      exact hi h page rfl hpage
  | reset h i page hb => exact latestShown_of_none rfl
  | signedOut h i => exact nofun
  | signedIn i => exact latestShown_of_none rfl

theorem not_latestShown_of_not_forLatest {s s' : State} {e : Event} (hp : ¬ ForLatest s e)
    (hs : step s e = some s') : ¬ LatestShown s' := by
  intro hl
  apply hp
  cases effect_of_step hs with
  | answer h i k press data hk =>
      intro h' he press' hk'
      obtain rfl := AuthStatus.Logged_in.inj he
      obtain rfl := Option.some.inj (hk.symm.trans hk')
      exact (latestShown_callback_iff h k press data).mp hl
  | _ => trivial

/-- **The comparison shown, exactly.**  In every state of a run the comparison is the answer
to the latest press of Compare, and there is none between a Reset and the next press, iff every
answer is to the latest press and that press was made after the last Reset. -/
theorem latestShown_iff (es : List Event) :
    EachState step LatestShown .start es ↔ EachStep step ForLatest .start es :=
  eachState_iff LatestShown (fun _ _ _ => latestShown_step) (fun _ hi => hi)
    (fun _ _ _ _ => not_latestShown_of_not_forLatest) nofun

/-- The comparison belongs to the latest press, as a property of every run. -/
def AlwaysLatestShown : Prop := ∀ es : List Event, EachState step LatestShown .start es

/-- Two presses, of which the first one is answered; the second one is still pending. -/
theorem not_alwaysLatestShown : ¬ AlwaysLatestShown := by
  intro h
  let es : List Event := [.currentUser true, .tap 2, .compare [true, true], .compare [true, true],
    .answer 0 ⟨0, [], 0, []⟩]
  have hrun : run step .start es =
      some ⟨.Logged_in ⟨some ⟨⟨0, [], 0, []⟩, 1⟩, 2, [2], 2, 0⟩, 3⟩ := by decide
  exact absurd ((h es).last hrun _ _ rfl rfl).1 (by decide)

/-! ### A patient user -/

/-- While an answer is pending nothing else is pressed, and nobody logs out from the
comparison. -/
def Patient (s : State) : Event → Prop
  | .tap _ => ∀ h, s.authStatus = .Logged_in h → h.pending = []
  | .compare _ => ∀ h, s.authStatus = .Logged_in h → h.pending = []
  | .reset => ∀ h, s.authStatus = .Logged_in h → h.pending = []
  | .signedOut => s.currentIndex ≠ 3
  | _ => True

/-- A home page whose one pending answer, if any, is awaited on the price tab. -/
structure Awaiting (h : MyHomePageState) : Prop where
  pending : ∀ press ∈ h.pending,
    press = h.presses ∧ h.controller = 2 ∧ h.lastReset < h.presses
  le : h.lastReset ≤ h.presses

/-- What holds of a patient user's app. -/
structure Waiting (s : State) : Prop where
  shown : Shown s
  home : ∀ h, s.authStatus = .Logged_in h → Awaiting h
  out : s.authStatus = .Not_Logged_in → s.currentIndex ≠ 3

theorem awaiting_of_nil {h : MyHomePageState} (hn : h.pending = []) (hle : h.lastReset ≤ h.presses) :
    Awaiting h :=
  ⟨by simp [hn], hle⟩

theorem awaiting_compare {h : MyHomePageState} {i : ℕ} (selected : List Bool) (ha : Awaiting h)
    (hn : h.pending = []) (hp : PageShown h i) (hb : h.body i = some .Prices) :
    Awaiting (h.compare selected) := by
  unfold MyHomePageState.compare
  split_ifs
  · obtain ⟨-, page, hb', htab⟩ := hp
    obtain rfl := Option.some.inj (hb.symm.trans hb')
    refine ⟨fun press hm => ?_, ha.le.trans (Nat.le_succ _)⟩
    rw [hn] at hm
    exact ⟨List.mem_singleton.mp hm, htab.symm, Nat.lt_succ_of_le ha.le⟩
  · exact ha

theorem Waiting.inPlace {s s' : State} {e : Event} (hi : Waiting s) (hs : step s e = some s') :
    InPlace s e := by
  cases effect_of_step hs with
  | answer h i k press data hk =>
      intro h' he
      obtain rfl := AuthStatus.Logged_in.inj he
      exact ((hi.home h rfl).pending press (List.mem_of_getElem? hk)).2.1
  | signedIn i => exact hi.out rfl
  | _ => trivial

theorem Waiting.forLatest {s s' : State} {e : Event} (hi : Waiting s) (hs : step s e = some s') :
    ForLatest s e := by
  cases effect_of_step hs with
  | answer h i k press data hk =>
      intro h' he press' hk'
      obtain rfl := AuthStatus.Logged_in.inj he
      obtain ⟨hpress, -, hlt⟩ := (hi.home h rfl).pending press' (List.mem_of_getElem? hk')
      exact ⟨hpress, hlt⟩
  | _ => trivial

theorem waiting_start : Waiting .start := ⟨shown_start, nofun, nofun⟩

theorem waiting_step {s s' : State} {e : Event} (hi : Waiting s) (hp : Patient s e)
    (hs : step s e = some s') : Waiting s' := by
  refine ⟨shown_step hi.shown (hi.inPlace hs) hs, fun h' he => ?_, fun he => ?_⟩
  · cases effect_of_step hs with
    | rejected i => cases he
    | known i =>
        obtain rfl := AuthStatus.Logged_in.inj he
        exact awaiting_of_nil rfl le_rfl
    | tap h i pos hpos =>
        obtain rfl := AuthStatus.Logged_in.inj he
        exact awaiting_of_nil (hp h rfl) (hi.home h rfl).le
    | compare h i selected hb =>
        obtain rfl := AuthStatus.Logged_in.inj he
        exact awaiting_compare selected (hi.home h rfl) (hp h rfl) (hi.shown.page h rfl) hb
    | answer h i k press data hk =>
        obtain rfl := AuthStatus.Logged_in.inj he
        exact ⟨fun press hm => (hi.home h rfl).pending press (List.mem_of_mem_eraseIdx hm),
          (hi.home h rfl).le⟩
    | fail h i k hk =>
        obtain rfl := AuthStatus.Logged_in.inj he
        exact ⟨fun press hm => (hi.home h rfl).pending press (List.mem_of_mem_eraseIdx hm),
          (hi.home h rfl).le⟩
    | reset h i page hb =>
        obtain rfl := AuthStatus.Logged_in.inj he
        exact awaiting_of_nil (hp h rfl) le_rfl
    | signedOut h i => cases he
    | signedIn i =>
        obtain rfl := AuthStatus.Logged_in.inj he
        exact awaiting_of_nil rfl le_rfl
  · cases effect_of_step hs with
    | rejected i =>
        have h0 : i = 0 := hi.shown.first rfl
        exact fun h3 => absurd (h0.symm.trans h3) (by decide)
    | signedOut h i => exact hp
    | _ => cases he

/-- A patient user's answers arrive on the price tab, and no session starts at index 3. -/
theorem inPlace_of_patient {es : List Event} (h : EachStep step Patient .start es) :
    EachStep step InPlace .start es :=
  eachStep_of_inv Waiting (fun _ _ _ => waiting_step) (fun _ _ _ hi _ hs => hi.inPlace hs)
    waiting_start h

/-- A patient user's answers are to the latest press. -/
theorem forLatest_of_patient {es : List Event} (h : EachStep step Patient .start es) :
    EachStep step ForLatest .start es :=
  eachStep_of_inv Waiting (fun _ _ _ => waiting_step) (fun _ _ _ hi _ hs => hi.forLatest hs)
    waiting_start h

end EasyGrocery.Shell
