import EasyGrocery.App.ListSync

/-! # Adding from the search page (`search.dart`)

`_searchMenu` hands the page the list *object* that `_groceryList` is bound to at that moment.
The page checks for duplicates in that object, while the first refresh that finds a list binds
`_groceryList` to a new one; from then on the page looks at a list nobody updates.

`noDuplicates_iff`: a run of taps and refreshes never shows or stores a name twice iff every
tapped name that the page's object lacks is neither displayed nor cached.  This is so as long
as the page shares the parent's list (`tapFresh_of_shared`), and fails soon after
(`not_addNeverDuplicates`). -/

namespace EasyGrocery.SearchPage

open Firebase Guarded
open GroceryList (Loaded)

/-- An open `SearchList` over its `GroceryList`. -/
structure State where
  parent : GroceryList.State
  /-- identity of the list object in `widget.groceryList` -/
  listId : ℕ
  /-- contents of that object, once it is no longer the parent's -/
  held : List String

namespace State

/-- The contents of `widget.groceryList`: the parent's own list as long as the two are one
object. -/
def groceryList (s : State) : List String :=
  if s.listId = s.parent.listId then s.parent.groceryList else s.held

/-- `_searchMenu`: the page gets the list object the parent has now. -/
def opened (parent : GroceryList.State) : State := ⟨parent, parent.listId, []⟩

/-- A step of the parent.  What `widget.groceryList` held before it stays in that object if the
parent moves on to another one. -/
def stepParent (user : Uid) (s : State) (e : GroceryList.Event) : Option State :=
  (GroceryList.step user s.parent e).map fun parent =>
    { s with parent := parent, held := s.groceryList }

/-- `_addItem(itemName)`, with `widget.addCallback` the parent's `_addItemCallback`. -/
def addItem (user : Uid) (s : State) (itemName : String) : Option State :=
  if !s.groceryList.contains itemName then s.stepParent user (.add itemName) else some s

end State

/-- Taps on the add icon of a row, and the steps of the parent's refreshes. -/
inductive Event where
  | tap (item : String)
  | currentUser (r : ℕ)
  | serve (r : ℕ)
  | complete (r : ℕ)
deriving DecidableEq

def step (user : Uid) (s : State) : Event → Option State
  | .tap item => s.addItem user item
  | .currentUser r => s.stepParent user (.currentUser r)
  | .serve r => s.stepParent user (.serve r)
  | .complete r => s.stepParent user (.complete r)

/-- What a step does: nothing to the parent, or an effect of the parent's. -/
inductive Effect (user : Uid) (s : State) : Event → State → Prop
  | known (x : String) : x ∈ s.groceryList → Effect user s (.tap x) s
  | add (x : String) : x ∉ s.groceryList →
      Effect user s (.tap x) { s with parent := s.parent.addItemCallback x, held := s.groceryList }
  | refresh (e : Event) (e' : GroceryList.Event) (p : GroceryList.State) : ¬ e'.IsOp → e' ≠ .dispose →
      (∀ x, e ≠ .tap x) → GroceryList.Effect user s.parent e' p →
      Effect user s e { s with parent := p, held := s.groceryList }

theorem effect_of_step {user : Uid} {s s' : State} {e : Event} (h : step user s e = some s') :
    Effect user s e s' := by
  cases e with
  | tap x =>
      simp only [step, State.addItem] at h
      by_cases hx : x ∈ s.groceryList
      · simp only [List.contains_iff_mem.mpr hx, Bool.not_true, Bool.false_eq_true, if_false,
          Option.some.injEq] at h
        exact h ▸ .known x hx
      · have hc : s.groceryList.contains x = false := by simpa using hx
        simp only [hc, Bool.not_false, if_true, State.stepParent, Option.map_eq_some_iff] at h
        obtain ⟨p, hp, rfl⟩ := h
        cases GroceryList.effect_of_step hp with
        | add _ hm => exact .add x hx
  | currentUser r =>
      obtain ⟨p, hp, rfl⟩ := Option.map_eq_some_iff.mp h
      exact .refresh _ _ p id (by simp) (by simp) (GroceryList.effect_of_step hp)
  | serve r =>
      obtain ⟨p, hp, rfl⟩ := Option.map_eq_some_iff.mp h
      exact .refresh _ _ p id (by simp) (by simp) (GroceryList.effect_of_step hp)
  | complete r =>
      obtain ⟨p, hp, rfl⟩ := Option.map_eq_some_iff.mp h
      exact .refresh _ _ p id (by simp) (by simp) (GroceryList.effect_of_step hp)

/-! ### No name twice -/

/-- Neither the display nor the store holds a name twice. -/
def NoDuplicates (user : Uid) (s : State) : Prop :=
  s.parent.groceryList.Nodup ∧ (s.parent.stored user).Nodup

/-- A tapped name that the page's list object lacks is neither displayed nor cached. -/
def TapFresh (s : State) : Event → Prop
  | .tap x => x ∉ s.groceryList → x ∉ s.parent.groceryList ∧ x ∉ s.parent.items
  | _ => True

/-- A refresh in flight reads at the user's list and brings no name twice. -/
def RefreshNodup (user : Uid) : GroceryList.Refresh → Prop
  | .currentUser => True
  | .once ref => ref = user.itemsRef
  | .snapshot _ v => (Items.toList v).Nodup

/-- No copy of the list, in the page or on its way, holds a name twice. -/
structure AllNodup (user : Uid) (s : GroceryList.State) : Prop where
  uid : s.uid = user.val
  display : s.groceryList.Nodup
  cache : s.items.Nodup
  stored : (s.stored user).Nodup
  answers : ∀ f ∈ s.inFlight, RefreshNodup user f

theorem allNodup_loaded {user : Uid} {s : GroceryList.State} (h : Loaded user s)
    (hd : (s.stored user).Nodup) : AllNodup user s where
  uid := h.uid
  display := h.groceryList ▸ hd
  cache := h.items ▸ hd
  stored := hd
  answers := by simp [h.inFlight]

theorem AllNodup.refresh {user : Uid} {s s' : GroceryList.State} {e : GroceryList.Event}
    (hi : AllNodup user s) (he : ¬ e.IsOp) (h : GroceryList.Effect user s e s') :
    AllNodup user s' := by
  cases h with
  | add x hm => exact absurd trivial he
  | remove x hm => exact absurd trivial he
  | dispose hm => exact ⟨hi.uid, hi.display, hi.cache, hi.stored, hi.answers⟩
  | currentUser r hr =>
      refine ⟨rfl, hi.display, hi.cache, hi.stored, fun f hf => ?_⟩
      rcases List.mem_or_eq_of_mem_set hf with hf | rfl
      · exact hi.answers f hf
      · rfl
  | serve r ref hr =>
      refine ⟨hi.uid, hi.display, hi.cache, hi.stored, fun f hf => ?_⟩
      rcases List.mem_or_eq_of_mem_set hf with hf | rfl
      · exact hi.answers f hf
      · have href : ref = user.itemsRef := hi.answers _ (List.mem_of_getElem? hr)
        rw [href]
        exact hi.stored
  | complete r n v hr =>
      have hv : (Items.toList v).Nodup := hi.answers _ (List.mem_of_getElem? hr)
      refine ⟨by simpa using hi.uid, ?_, by simpa using hv, by simpa [GroceryList.State.stored]
        using hi.stored, fun f hf => hi.answers f (List.mem_of_mem_eraseIdx hf)⟩
      cases v with
      | none => exact hi.display
      | some l =>
          cases hm : s.mounted with
          | false => simpa [GroceryList.State.onSnapshot, hm] using hi.display
          | true => simpa [GroceryList.State.onSnapshot, hm] using hv

theorem AllNodup.add {user : Uid} {s : GroceryList.State} {x : String} (hi : AllNodup user s)
    (hd : x ∉ s.groceryList) (hc : x ∉ s.items) : AllNodup user (s.addItemCallback x) where
  uid := hi.uid
  display := List.nodup_cons.mpr ⟨hd, hi.display⟩
  cache := hi.cache
  stored := by
    rw [GroceryList.State.stored, GroceryList.State.addItemCallback_db,
      GroceryList.State.stored_set s hi.uid]
    exact List.nodup_append.mpr ⟨hi.cache, by simp, fun a ha b hb => by
      rw [List.mem_singleton.mp hb]; rintro rfl; exact hc ha⟩
  answers := by
    intro f hf
    rcases List.mem_append.mp hf with hf | hf
    · exact hi.answers f hf
    · rw [List.mem_singleton.mp hf]; trivial

theorem allNodup_step {user : Uid} {s s' : State} {e : Event} (hi : AllNodup user s.parent)
    (hp : TapFresh s e) (h : step user s e = some s') : AllNodup user s'.parent := by
  cases effect_of_step h with
  | known x hx => exact hi
  | add x hx => exact hi.add (hp hx).1 (hp hx).2
  | refresh _ e' p he _ _ hp' => exact hi.refresh he hp'

/-- Adding a name that is displayed or cached already makes a duplicate. -/
theorem duplicate_of_not_tapFresh {user : Uid} {s s' : State} {e : Event}
    (hi : AllNodup user s.parent) (hp : ¬ TapFresh s e) (h : step user s e = some s') :
    ¬ NoDuplicates user s' := by
  rintro ⟨hd, hs⟩
  apply hp
  cases effect_of_step h with
  | known x hx => exact fun hn => absurd hx hn
  | add x hx =>
      refine fun _ => ⟨(List.nodup_cons.mp hd).1, fun hc => ?_⟩
      rw [GroceryList.State.stored, GroceryList.State.addItemCallback_db,
        GroceryList.State.stored_set s.parent hi.uid] at hs
      exact (List.nodup_append.mp hs).2.2 x hc x (List.mem_singleton_self x) rfl
  | refresh _ e' p he _ ht hp' =>
      cases e with
      | tap x => exact absurd rfl (ht x)
      | _ => trivial

/-- **Adding from the search page, exactly.**  From a loaded page whose stored list has no
duplicate, no state of a run shows or stores a name twice iff every tapped name that the
page's list lacks is neither displayed nor cached. -/
theorem noDuplicates_iff (user : Uid) (s : State) (es : List Event) (hl : Loaded user s.parent)
    (hd : (s.parent.stored user).Nodup) :
    EachState (step user) (NoDuplicates user) s es ↔ EachStep (step user) TapFresh s es :=
  eachState_iff (fun s => AllNodup user s.parent) (fun _ _ _ hi hp h => allNodup_step hi hp h)
    (fun _ hi => ⟨hi.display, hi.stored⟩) (fun _ _ _ hi hp h => duplicate_of_not_tapFresh hi hp h)
    (allNodup_loaded hl hd)

theorem noDuplicates_iff_tap :
    EachState (step user1) (NoDuplicates user1) (.opened (GroceryList.emptyPage user1))
        [.tap "milk", .tap "milk"] ↔
      EachStep (step user1) TapFresh (.opened (GroceryList.emptyPage user1))
        [.tap "milk", .tap "milk"] :=
  noDuplicates_iff user1 _ _ (GroceryList.loaded_emptyPage user1) (by decide)

/-! ### While the page shares the parent's list -/

/-- As long as the page holds the parent's list, what is cached is in it. -/
structure Shared (s : State) : Prop where
  le : s.listId ≤ s.parent.listId
  mounted : s.parent.mounted = true
  cached : s.listId = s.parent.listId → ∀ x ∈ s.parent.items, x ∈ s.parent.groceryList

theorem shared_opened {user : Uid} {p : GroceryList.State} (h : Loaded user p) :
    Shared (.opened p) where
  le := le_rfl
  mounted := h.mounted
  cached := fun _ x hx => by
    have hx' : x ∈ p.items := hx
    rw [h.items, ← h.groceryList] at hx'
    exact hx'

theorem shared_step {user : Uid} {s s' : State} {e : Event} (hi : Shared s)
    (h : step user s e = some s') : Shared s' := by
  cases effect_of_step h with
  | known x hx => exact hi
  | add x hx =>
      exact ⟨hi.le, hi.mounted, fun he y hy => List.mem_cons_of_mem x (hi.cached he y hy)⟩
  | refresh _ e' p he hd _ hp =>
      cases hp with
      | add x hm => exact absurd trivial he
      | remove x hm => exact absurd trivial he
      | dispose hm => exact absurd rfl hd
      | complete r n v hr =>
          have hm := hi.mounted
          cases v with
          | none => exact ⟨hi.le, hm, fun _ x hx => by cases hx⟩
          | some l =>
              -- the parent is bound to a new object, which the page does not hold
              have hle := hi.le
              refine ⟨?_, by simpa using hm, fun _ x hx => ?_⟩
              · simp only [GroceryList.State.onSnapshot, hm, Bool.not_true, Bool.false_eq_true,
                  if_false]
                omega
              · simpa [GroceryList.State.onSnapshot, hm] using hx
      | _ => exact ⟨hi.le, hi.mounted, hi.cached⟩

/-- As long as no refresh has bound the parent to a new list, no tap adds a duplicate. -/
theorem tapFresh_of_shared {user : Uid} {p : GroceryList.State} {es : List Event}
    (hl : Loaded user p)
    (h : EachStep (step user) (fun s _ => s.listId = s.parent.listId) (.opened p) es) :
    EachStep (step user) TapFresh (.opened p) es := by
  refine eachStep_of_inv Shared (fun _ _ _ hi _ h => shared_step hi h) ?_ (shared_opened hl) h
  intro s e s' hi hs _
  cases e with
  | tap x =>
      intro hx
      rw [State.groceryList, if_pos hs] at hx
      exact ⟨hx, fun hc => hx (hi.cached hs x hc)⟩
  | _ => trivial

/-- Adding from the search page never creates a duplicate, as a property of every run. -/
def AddNeverDuplicates : Prop :=
  ∀ (user : Uid) (p : GroceryList.State) (es : List Event), Loaded user p →
    (p.stored user).Nodup → EachState (step user) (NoDuplicates user) (.opened p) es

/-- "milk" is added and the refresh binds the parent to a new list.  "eggs", added after that,
never gets into the page's list: a second tap on it adds it again. -/
theorem not_addNeverDuplicates : ¬ AddNeverDuplicates := by
  intro h
  let es : List Event := [.tap "milk", .currentUser 0, .serve 0, .complete 0,
    .tap "eggs", .currentUser 0, .serve 0, .complete 0, .tap "eggs"]
  have hrun : (run (step user1) (.opened (GroceryList.emptyPage user1)) es).map
      (fun t => (t.parent.groceryList, t.parent.stored user1)) =
      some (["eggs", "milk", "eggs"], ["milk", "eggs", "eggs"]) := by decide
  obtain ⟨t, ht, hv⟩ := Option.map_eq_some_iff.mp hrun
  obtain ⟨hg, hs⟩ := Prod.mk.inj hv
  have hall := (h user1 (GroceryList.emptyPage user1) es (GroceryList.loaded_emptyPage user1)
    (by decide)).last ht
  rw [NoDuplicates, hg, hs] at hall
  exact absurd hall.1 (by decide)

end EasyGrocery.SearchPage
