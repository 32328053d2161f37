import EasyGrocery.App.GroceryList

/-! # The three copies of the grocery list

What a session keeps of the user's operations, and when its copies agree.

* `stored_follows_iff`: along a run the stored list is the list the operations ask for
  exactly as long as every operation finds a cache that is up to date (`UpToDate`); two quick
  operations lose the first one (`not_noLostUpdate`).
* `converged_iff`: with no refresh in flight the display, the cache and the store agree exactly as
  long as the last refresh to complete was read after the last write, or has read what is stored
  again by now, and does not find an empty store under a nonempty display (`LastRefreshCurrent`);
  an emptied list can stay on the screen (`not_converges`).
* `oneAtATime_upToDate`, `oneAtATime_lastRefreshCurrent`: a user who waits for each refresh
  is always within both conditions. -/

namespace EasyGrocery.GroceryList

open Firebase Guarded

/-- The initial load has completed: all copies of the list agree and no refresh is in flight. -/
structure Loaded (user : Uid) (s : State) : Prop where
  uid : s.uid = user.val
  items : s.items = s.stored user
  groceryList : s.groceryList = s.stored user
  mounted : s.mounted = true
  inFlight : s.inFlight = []

/-- The first refresh of an opened page loads it. -/
theorem loaded_of_opened (user : Uid) (db : Database) :
    ∃ s, run (step user) (.opened db) [.currentUser 0, .serve 0, .complete 0] = some s ∧
      Loaded user s ∧ s.db = db := by
  refine ⟨⟨db, user.val, db.list user.itemsRef, db.list user.itemsRef,
    if (db user.itemsRef).isSome then 1 else 0, true, [], []⟩, ?_, ⟨rfl, rfl, rfl, rfl, rfl⟩, rfl⟩
  cases hv : db user.itemsRef <;>
    simp [run_cons, step, State.opened, State.onSnapshot, Database.list, hv]

/-- What an event asks of the list: an added item goes to its end, a removed one is deleted at
its first occurrence. -/
def intended : List String → Event → List String
  | l, .add x => l ++ [x]
  | l, .remove x => l.erase x
  | l, _ => l

/-! ### The stored list follows the operations -/

/-- The cache is up to date for an operation: it is the stored list, for a removal up to the
removed item itself. -/
def UpToDate (user : Uid) (s : State) : Event → Prop
  | .add _ => s.items = s.stored user
  | .remove x => s.items.erase x = (s.stored user).erase x
  | _ => True

theorem uid_step {user : Uid} {s s' : State} {e : Event} (hu : s.uid = user.val)
    (h : step user s e = some s') : s'.uid = user.val := by
  cases effect_of_step h with
  | currentUser r hr => rfl
  | add x hm => exact hu
  | remove x hm => exact hu
  | serve r ref hr => exact hu
  | complete r n v hr => exact (State.onSnapshot_uid s v).trans hu
  | dispose hm => exact hu

/-- One step does to the stored list what it asks for iff the cache is up to date. -/
theorem stored_step_iff {user : Uid} {s s' : State} {e : Event} (hu : s.uid = user.val)
    (h : step user s e = some s') :
    UpToDate user s e ↔ s'.stored user = intended (s.stored user) e := by
  cases effect_of_step h with
  | add x hm =>
      simp only [State.stored, State.addItemCallback_db, State.stored_set s hu, UpToDate, intended]
      exact (List.append_left_inj [x]).symm
  | remove x hm =>
      simp only [State.stored, State.deleteButton_db, State.stored_set s hu, UpToDate, intended]
  | currentUser r hr => exact ⟨fun _ => rfl, fun _ => trivial⟩
  | serve r ref hr => exact ⟨fun _ => rfl, fun _ => trivial⟩
  | complete r n v hr =>
      simp only [State.stored, State.onSnapshot_db, UpToDate, intended]
  | dispose hm => exact ⟨fun _ => rfl, fun _ => trivial⟩

/-- **No lost update, exactly.**  After every prefix of a run the stored list is the initial
one with the operations applied in order, iff every operation was made with the cache up to
date.  The user's id is known from the first answer of `currentUser()` on. -/
theorem stored_follows_iff (user : Uid) (s : State) (hu : s.uid = user.val) (es : List Event) :
    (∀ p t, p <+: es → run (step user) s p = some t →
        t.stored user = p.foldl intended (s.stored user)) ↔
      EachStep (step user) (UpToDate user) s es :=
  refines_iff (fun s => s.uid = user.val) (fun _ _ _ => uid_step)
    (fun _ _ _ => stored_step_iff) hu

/-- No lost update, as a property of every run: once all refreshes have completed, the stored
list is the initial one with the operations applied in order. -/
def NoLostUpdate : Prop :=
  ∀ (user : Uid) (s t : State) (es : List Event), Loaded user s →
    run (step user) s es = some t → t.inFlight = [] →
      t.stored user = es.foldl intended (s.stored user)

/-- A loaded page over an empty database. -/
def emptyPage (user : Uid) : State := ⟨.empty, user.val, [], [], 0, true, [], []⟩

theorem loaded_emptyPage (user : Uid) : Loaded user (emptyPage user) := ⟨rfl, rfl, rfl, rfl, rfl⟩

instance (user : Uid) (s : State) : ∀ e, Decidable (UpToDate user s e)
  | .add _ => inferInstanceAs (Decidable (s.items = s.stored user))
  | .remove x => inferInstanceAs (Decidable (s.items.erase x = (s.stored user).erase x))
  | .currentUser _ | .serve _ | .complete _ | .dispose => isTrue trivial

/-- Milk and eggs are added and milk is removed, each after the refresh of the one before. -/
def milkThenEggs : List Event :=
  [.add "milk", .currentUser 0, .serve 0, .complete 0, .add "eggs", .currentUser 0, .serve 0,
    .complete 0, .remove "milk", .currentUser 0, .serve 0, .complete 0]

theorem stored_follows_iff_milk :
    ((∀ p t, p <+: milkThenEggs → run (step user1) (emptyPage user1) p = some t →
        t.stored user1 = p.foldl intended []) ↔
      EachStep (step user1) (UpToDate user1) (emptyPage user1) milkThenEggs) ∧
    EachStep (step user1) (UpToDate user1) (emptyPage user1) milkThenEggs :=
  ⟨stored_follows_iff user1 (emptyPage user1) rfl milkThenEggs, by decide⟩

/-- Two items added before the first refresh completes: the second write is built from the
cache, which does not have the first item yet. -/
theorem not_noLostUpdate : ¬ NoLostUpdate := by
  intro h
  let es : List Event := [.add "milk", .add "eggs", .currentUser 0, .serve 0, .complete 0,
    .currentUser 0, .serve 0, .complete 0]
  have hrun : (run (step user1) (emptyPage user1) es).map (fun t => (t.inFlight, t.stored user1)) =
      some ([], ["eggs"]) := by decide
  obtain ⟨t, ht, hv⟩ := Option.map_eq_some_iff.mp hrun
  obtain ⟨hf, hs⟩ := Prod.mk.inj hv
  have hall := h user1 (emptyPage user1) t es (loaded_emptyPage user1) ht hf
  rw [hs] at hall
  exact absurd hall (by decide)

/-! ### Convergence -/

/-- On a live page with no refresh in flight, the display and the cache are the stored list. -/
def Converged (user : Uid) (s : State) : Prop :=
  s.mounted = true → s.inFlight = [] → s.groceryList = s.stored user ∧ s.items = s.stored user

/-- When the last refresh in flight completes on a live page, its answer was read after the
last write, or the writes since have stored again what it has read; and if nothing is stored then
nothing is displayed. -/
def LastRefreshCurrent (user : Uid) (s : State) : Event → Prop
  | .complete r => ∀ n v, s.inFlight = [.snapshot n v] → r = 0 → s.mounted = true →
      (n = s.writes.length ∨ Items.toList v = s.stored user) ∧ (s.stored user = [] → s.groceryList = [])
  | _ => True

/-- What a refresh in flight knows: it reads at the user's list, and an answer read after the
last write is what is stored. -/
def Refresh.Sound (user : Uid) (s : State) : Refresh → Prop
  | .currentUser => True
  | .once ref => ref = user.itemsRef
  | .snapshot n v => n ≤ s.writes.length ∧ (n = s.writes.length → v = s.db user.itemsRef)

/-- The invariant of a session whose user is known. -/
structure Session (user : Uid) (s : State) : Prop where
  uid : s.uid = user.val
  sound : ∀ f ∈ s.inFlight, f.Sound user s
  converged : Converged user s

theorem Loaded.session {user : Uid} {s : State} (h : Loaded user s) : Session user s where
  uid := h.uid
  sound := by simp [h.inFlight]
  converged := fun _ _ => ⟨h.groceryList, h.items⟩

/-- After one more write every answer read so far is an older one. -/
theorem Refresh.Sound.write {user : Uid} {s t : State} {f : Refresh} (h : f.Sound user s)
    (ht : t.writes.length = s.writes.length + 1) : f.Sound user t := by
  cases f with
  | currentUser => trivial
  | once ref => exact h
  | snapshot n v => exact ⟨by have := h.1; omega, fun hn => absurd h.1 (by omega)⟩

theorem Refresh.Sound.congr {user : Uid} {s t : State} {f : Refresh} (h : f.Sound user s)
    (hw : t.writes = s.writes) (hd : t.db = s.db) : f.Sound user t := by
  cases f with
  | currentUser => trivial
  | once ref => exact h
  | snapshot n v => simpa only [Refresh.Sound, hw, hd] using h

theorem set_ne_nil {α : Type*} {l : List α} {r : ℕ} {a b : α} (h : l[r]? = some a) :
    l.set r b ≠ [] := by
  cases l with
  | nil => simp at h
  | cons c l => cases r <;> simp

/-- Only the completion of the single refresh in flight leaves none. -/
theorem eq_singleton_of_eraseIdx {α : Type*} {l : List α} {r : ℕ} {a : α} (h : l[r]? = some a)
    (he : l.eraseIdx r = []) : l = [a] ∧ r = 0 := by
  cases l with
  | nil => simp at h
  | cons c l =>
      cases r with
      | zero => simp_all
      | succ r => simp at he

/-- A write makes every answer an older one and starts a refresh. -/
theorem Session.sound_of_write {user : Uid} {s t : State} (hi : Session user s)
    (hf : t.inFlight = s.inFlight ++ [.currentUser]) (hw : t.writes.length = s.writes.length + 1) :
    ∀ f ∈ t.inFlight, f.Sound user t := by
  intro f hm
  rw [hf] at hm
  rcases List.mem_append.mp hm with hm | hm
  · exact (hi.sound f hm).write hw
  · rw [List.mem_singleton.mp hm]; trivial

theorem Session.sound_step {user : Uid} {s s' : State} {e : Event} (hi : Session user s)
    (h : step user s e = some s') : ∀ f ∈ s'.inFlight, f.Sound user s' := by
  cases effect_of_step h with
  | add x hm => exact hi.sound_of_write rfl (by simp)
  | remove x hm => exact hi.sound_of_write rfl (by simp)
  | currentUser r hr =>
      intro f hf
      rcases List.mem_or_eq_of_mem_set hf with hf | rfl
      · exact (hi.sound f hf).congr rfl rfl
      · rfl
  | serve r ref hr =>
      intro f hf
      rcases List.mem_or_eq_of_mem_set hf with hf | rfl
      · exact (hi.sound f hf).congr rfl rfl
      · have href : ref = user.itemsRef := hi.sound _ (List.mem_of_getElem? hr)
        exact ⟨le_rfl, fun _ => by rw [href]⟩
  | complete r n v hr =>
      intro f hf
      exact (hi.sound f (List.mem_of_mem_eraseIdx hf)).congr (State.onSnapshot_writes s v)
        (State.onSnapshot_db s v)
  | dispose hm =>
      intro f hf
      exact (hi.sound f hf).congr rfl rfl

theorem session_step {user : Uid} {s s' : State} {e : Event} (hi : Session user s)
    (hp : LastRefreshCurrent user s e) (h : step user s e = some s') : Session user s' := by
  refine ⟨uid_step hi.uid h, hi.sound_step h, ?_⟩
  cases effect_of_step h with
  | add x hm => intro _ hf; simp at hf
  | remove x hm => intro _ hf; simp at hf
  | currentUser r hr => intro _ hf; exact absurd hf (set_ne_nil hr)
  | serve r ref hr => intro _ hf; exact absurd hf (set_ne_nil hr)
  | dispose hm => intro hm'; cases hm'
  | complete r n v hr =>
      -- the answer is what is stored
      intro hm hf
      obtain ⟨hl, rfl⟩ := eq_singleton_of_eraseIdx hr hf
      have hm' : s.mounted = true := (State.onSnapshot_mounted s v).symm.trans hm
      obtain ⟨hn, hd⟩ := hp n v hl rfl hm'
      have hsnd : Refresh.Sound user s (.snapshot n v) := hi.sound _ (by simp [hl])
      have hst : s.stored user = Items.toList v := by
        rcases hn with hn | hn
        · rw [hsnd.2 hn]; rfl
        · exact hn.symm
      have hitems : (s.onSnapshot v).items = s.stored user := by rw [State.onSnapshot_items, hst]
      have hlist : (s.onSnapshot v).groceryList = s.stored user := by
        rw [State.onSnapshot_groceryList s v hm']
        cases v with
        | none => rw [hst]; exact hd hst
        | some l => rw [hst]; rfl
      simp only [State.stored, State.onSnapshot_db]
      exact ⟨hlist, hitems⟩

/-- A refresh that completes last and is not current leaves the copies apart. -/
theorem lastRefreshCurrent_of_converged {user : Uid} {s s' : State} {e : Event}
    (h : step user s e = some s') (hc : Converged user s') : LastRefreshCurrent user s e := by
  cases effect_of_step h with
  | complete r n₀ v₀ hr =>
      rintro n v hl rfl hm
      obtain ⟨rfl, rfl⟩ : n = n₀ ∧ v = v₀ := by simpa [hl] using hr
      obtain ⟨hlist, hitems⟩ := hc ((State.onSnapshot_mounted s v).trans hm) (by simp [hl])
      simp only [State.stored, State.onSnapshot_db] at hlist hitems
      rw [State.onSnapshot_groceryList s v hm] at hlist
      rw [State.onSnapshot_items] at hitems
      refine ⟨.inr hitems, fun hs => ?_⟩
      cases v with
      | none => exact hlist.trans hs
      | some l => exact absurd (hlist.trans hs) l.2
  | _ => trivial

/-- **Convergence, exactly.**  In every state with no refresh in flight what is displayed and
cached is what is stored, iff whenever the last refresh in flight completes its answer was read
after the last write, or has become what is stored again, and does not find an empty store under
a nonempty display. -/
theorem converged_iff (user : Uid) (s : State) (es : List Event) (hs : Loaded user s) :
    EachState (step user) (Converged user) s es ↔ EachStep (step user) (LastRefreshCurrent user) s es :=
  eachState_iff (Session user) (fun _ _ _ hi hp => session_step hi hp) (fun _ hi => hi.converged)
    (fun _ _ _ _ hn h hc => hn (lastRefreshCurrent_of_converged h hc)) hs.session

instance (user : Uid) (s : State) : ∀ e, Decidable (LastRefreshCurrent user s e)
  | .complete r => match hf : s.inFlight with
      | [.snapshot n v] => decidable_of_iff (r = 0 → s.mounted = true →
          (n = s.writes.length ∨ Items.toList v = s.stored user) ∧ (s.stored user = [] → s.groceryList = []))
          ⟨fun h _ _ hl => by cases hf.symm.trans hl; exact h, fun h => h n v hf⟩
      | [] | [.currentUser] | [.once _] | _ :: _ :: _ => isTrue fun _ _ hl => by simp [hf] at hl
  | .add _ | .remove _ | .currentUser _ | .serve _ | .dispose => isTrue trivial

/-- Eggs are added twice before their first refresh completes.  The one that was read before the
last write completes last, with the list that is stored again.  In the end both are removed. -/
def eggsTwice : List Event :=
  [.add "milk", .currentUser 0, .serve 0, .complete 0, .add "eggs", .currentUser 0, .serve 0,
    .add "eggs", .currentUser 1, .serve 1, .complete 1, .complete 0, .remove "eggs", .currentUser 0,
    .serve 0, .complete 0, .remove "milk", .currentUser 0, .serve 0, .complete 0]

theorem converged_iff_eggs :
    (EachState (step user1) (Converged user1) (emptyPage user1) eggsTwice ↔
      EachStep (step user1) (LastRefreshCurrent user1) (emptyPage user1) eggsTwice) ∧
    EachStep (step user1) (LastRefreshCurrent user1) (emptyPage user1) eggsTwice :=
  ⟨converged_iff user1 (emptyPage user1) eggsTwice (loaded_emptyPage user1), by decide⟩

/-- Convergence, as a property of every run. -/
def Converges : Prop :=
  ∀ (user : Uid) (s t : State) (es : List Event), Loaded user s →
    run (step user) s es = some t → Converged user t

/-- An item is added and removed again before the first refresh completes.  That refresh brings
the item back to the screen; the second one finds nothing stored and does not clear it. -/
theorem not_converges : ¬ Converges := by
  intro h
  let es : List Event := [.add "milk", .currentUser 0, .serve 0, .remove "milk", .complete 0,
    .currentUser 0, .serve 0, .complete 0]
  have hrun : (run (step user1) (emptyPage user1) es).map
      (fun t => (t.mounted, t.inFlight, t.groceryList, t.stored user1)) =
      some (true, [], ["milk"], []) := by decide
  obtain ⟨t, ht, hv⟩ := Option.map_eq_some_iff.mp hrun
  simp only [Prod.mk.injEq] at hv
  obtain ⟨hm, hf, hg, hs⟩ := hv
  have hall := (h user1 (emptyPage user1) t es (loaded_emptyPage user1) ht hm hf).1
  rw [hg, hs] at hall
  exact absurd hall (by decide)

/-! ### One operation at a time -/

/-- An operation is made only when no refresh is in flight. -/
def OneAtATime (s : State) (e : Event) : Prop := e.IsOp → s.inFlight = []

/-- At most one refresh is in flight, its answer was read after the last write, and nothing is
displayed over an empty store. -/
structure Sequential (user : Uid) (s : State) : Prop extends Session user s where
  single : s.inFlight.length ≤ 1
  latest : ∀ n v, .snapshot n v ∈ s.inFlight → n = s.writes.length
  display : s.mounted = true → s.stored user = [] → s.groceryList = []

theorem Loaded.sequential {user : Uid} {s : State} (h : Loaded user s) : Sequential user s where
  toSession := h.session
  single := by simp [h.inFlight]
  latest := by simp [h.inFlight]
  display := fun _ hs => h.groceryList.trans hs

theorem Sequential.lastRefreshCurrent {user : Uid} {s : State} (h : Sequential user s)
    (e : Event) : LastRefreshCurrent user s e := by
  cases e with
  | complete r => exact fun n v hl _ hm => ⟨.inl (h.latest n v (by simp [hl])), h.display hm⟩
  | _ => trivial

theorem sequential_step {user : Uid} {s s' : State} {e : Event} (hi : Sequential user s)
    (hp : OneAtATime s e) (h : step user s e = some s') : Sequential user s' := by
  have hsession := session_step hi.toSession (hi.lastRefreshCurrent e) h
  cases effect_of_step h with
  | add x hm =>
      have hf : s.inFlight = [] := hp trivial
      refine ⟨hsession, by simp [hf], by simp [hf], fun _ hs => ?_⟩
      simp only [State.stored, State.addItemCallback_db, State.stored_set s hi.uid] at hs
      simp at hs
  | remove x hm =>
      have hf : s.inFlight = [] := hp trivial
      obtain ⟨hg, hit⟩ := hi.converged hm hf
      refine ⟨hsession, by simp [hf], by simp [hf], fun _ hs => ?_⟩
      simp only [State.stored, State.deleteButton_db, State.stored_set s hi.uid] at hs
      rw [State.deleteButton_groceryList, hg, ← hit, hs]
  | currentUser r hr =>
      refine ⟨hsession, by simpa using hi.single, fun n v hf => ?_, hi.display⟩
      rcases List.mem_or_eq_of_mem_set hf with hf | hf
      · exact hi.latest n v hf
      · cases hf
  | serve r ref hr =>
      refine ⟨hsession, by simpa using hi.single, fun n v hf => ?_, hi.display⟩
      rcases List.mem_or_eq_of_mem_set hf with hf | hf
      · exact hi.latest n v hf
      · exact (Refresh.snapshot.inj hf).1
  | complete r n v hr =>
      have hmem := List.mem_of_getElem? hr
      have hf : s.inFlight.eraseIdx r = [] := by
        obtain ⟨hlt, -⟩ := List.getElem?_eq_some_iff.mp hr
        have := hi.single
        exact List.eq_nil_of_length_eq_zero (by rw [List.length_eraseIdx_of_lt hlt]; omega)
      refine ⟨hsession, by simp [hf], by simp [hf], fun hm hs => ?_⟩
      exact (hsession.converged hm hf).1.trans hs
  | dispose hm => exact ⟨hsession, hi.single, hi.latest, fun hm' => by cases hm'⟩

/-- A user who waits for each refresh never meets a stale cache. -/
theorem oneAtATime_upToDate {user : Uid} {s : State} {es : List Event} (hs : Loaded user s)
    (h : EachStep (step user) OneAtATime s es) : EachStep (step user) (UpToDate user) s es := by
  refine eachStep_of_inv (Sequential user) (fun _ _ _ hi hp => sequential_step hi hp) ?_ hs.sequential h
  intro s e s' hi hp hstep
  cases effect_of_step hstep with
  | add x hm => exact (hi.converged hm (hp trivial)).2
  | remove x hm => exact congrArg (List.erase · x) (hi.converged hm (hp trivial)).2
  | _ => trivial

/-- Nor does a refresh of theirs complete out of date. -/
theorem oneAtATime_lastRefreshCurrent {user : Uid} {s : State} {es : List Event}
    (hs : Loaded user s) (h : EachStep (step user) OneAtATime s es) :
    EachStep (step user) (LastRefreshCurrent user) s es :=
  eachStep_of_inv (Sequential user) (fun _ _ _ hi hp => sequential_step hi hp)
    (fun _ e _ hi _ _ => hi.lastRefreshCurrent e) hs.sequential h

end EasyGrocery.GroceryList
