import EasyGrocery.App.ListFrame
import EasyGrocery.App.ListSync
import EasyGrocery.Lib.Owned
import EasyGrocery.Lib.Replay

/-! # Several devices over one database

Every device that runs the app has a grocery list page (`list.dart`) of its own, and all devices
use one database, any number of them signed in as the same user.  A `set` is seen at once by the
device that makes it; it reaches the server later, after the earlier ones of that device and in
any order with those of the others (`arrive`).

* `users_apart`: the devices and the data of a user are at every moment as they would be if
  nobody else used the app.
* `nothing_invented`: devices of one user overwrite each other's updates, but all that is ever
  stored is a replay of some of the user's operations, in their order.

The first is for runs in which every operation is made after the id of its page's user is known; an
earlier one writes over the whole database (`ownDataOnly_iff`), whoever makes it.  The second is for
all runs: such a write leaves every other list empty, and nothing is made up by that either. -/

namespace EasyGrocery.Devices

open Firebase Guarded
open GroceryList (State Refresh UidOk UidKnown intended effect_of_step)

/-- A `set` on its way to the server. -/
structure Write where
  ref : Ref
  tempo : List String
deriving DecidableEq

def Write.apply (db : Database) (w : Write) : Database := db.set w.ref w.tempo

/-- A page, and the writes that have not reached the server, oldest first. -/
structure Device where
  page : State
  outbox : List Write

/-- The page with `db` in the place of its data. -/
def onto (s : State) (db : Database) : State := { s with db := db }

/-- What the device reads: the server's data, with its own writes. -/
def Device.view (d : Device) (server : Database) : Database := d.outbox.foldl Write.apply server

/-- The `set` calls that an event of the page makes. -/
def written (s : State) : GroceryList.Event → List Write
  | .add x => [⟨Ref.child [] s.uid, s.items ++ [x]⟩]
  | .remove x => [⟨Ref.child [] s.uid, s.items.erase x⟩]
  | _ => []

/-- A step of the page, or the arrival of the oldest write. -/
inductive Event where
  | page (e : GroceryList.Event)
  | arrive
deriving DecidableEq

instance : DecidableEq Uid := fun u v =>
  decidable_of_iff (u.val = v.val) ⟨fun h => by cases u; cases v; cases h; rfl, congrArg Uid.val⟩

variable {κ : Type*}

/-- A step of the device `k`, over the data of the server. -/
def step (user : κ → Uid) (k : κ) (server : Database) (d : Device) :
    Event → Option (Database × Device)
  | .page e => (GroceryList.step (user k) (onto d.page (d.view server)) e).map fun s =>
      -- between its steps a page holds no data but its copies of the list
      (server, ⟨onto s .empty, d.outbox ++ written d.page e⟩)
  | .arrive => match d.outbox with
      | [] => none
      | w :: outbox => some (w.apply server, { d with outbox := outbox })

/-- The server, and the devices by their names. -/
abbrev World (κ : Type*) := Owned.World κ Database Device

/-- Every page as it is first built. -/
def opened (db : Database) : World κ := ⟨db, fun _ => ⟨.opened .empty, []⟩⟩

/-- What is stored under the node of a user. -/
def data (user : Uid) (db : Database) : Database := fun path => db (user.node ++ path)

/-- The list stored for a user. -/
def World.stored (w : World κ) (user : Uid) : List String := w.memory.list user.itemsRef

/-- When an operation is made, the id of the page's user is known. -/
def Known (d : Device) : Event → Prop
  | .page e => UidKnown d.page e
  | .arrive => True

instance (d : Device) : ∀ e, Decidable (Known d e)
  | .page e => inferInstanceAs (Decidable (e.IsOp → d.page.uid ≠ ""))
  | .arrive => isTrue trivial

/-- A device that reads its user's list, and writes at its user's node or at the root. -/
structure Uses (user : Uid) (d : Device) : Prop where
  uid : UidOk user d.page
  reads : ∀ ref, .once ref ∈ d.page.inFlight → ref = user.itemsRef
  refs : ∀ w ∈ d.outbox, w.ref = user.node ∨ w.ref = []

/-- A device that keeps to its user's data. -/
structure Own (user : Uid) (d : Device) : Prop extends Uses user d where
  writes : ∀ w ∈ d.outbox, w.ref = user.node

/-! ### The page over other data -/

theorem step_of_effect {user : Uid} {s s' : State} {e : GroceryList.Event}
    (h : GroceryList.Effect user s e s') : GroceryList.step user s e = some s' := by
  cases h with
  | add x hm => exact if_pos hm
  | remove x hm => exact if_pos hm
  | currentUser r hr => simp [GroceryList.step, hr]
  | serve r ref hr => simp [GroceryList.step, hr]
  | complete r n v hr => simp [GroceryList.step, hr]
  | dispose hm => exact if_pos hm

/-- A page does the same over any data that it reads the same in. -/
theorem step_of_db {user : Uid} {s s' : State} {e : GroceryList.Event} {db : Database}
    (h : GroceryList.step user (onto s db) e = some s') (db' : Database)
    (hr : ∀ ref, .once ref ∈ s.inFlight → db' ref = db ref) :
    ∃ s'', GroceryList.step user (onto s db') e = some s'' ∧ onto s'' .empty = onto s' .empty := by
  cases effect_of_step h with
  | add x hm => exact ⟨_, step_of_effect (.add x hm), rfl⟩
  | remove x hm => exact ⟨_, step_of_effect (.remove x hm), rfl⟩
  | dispose hm => exact ⟨_, step_of_effect (.dispose hm), rfl⟩
  | currentUser r hf => exact ⟨_, step_of_effect (.currentUser r hf), rfl⟩
  | serve r ref hf =>
      refine ⟨_, step_of_effect (.serve r ref hf), ?_⟩
      simp [onto, hr ref (List.mem_of_getElem? hf)]
  | complete r n v hf =>
      refine ⟨_, step_of_effect (.complete r n v hf), ?_⟩
      cases v <;> cases hm : s.mounted <;> simp [onto, State.onSnapshot, hm]

/-- A page writes at the node of the user whose id it holds. -/
theorem ref_of_written {s : State} {e : GroceryList.Event} {w : Write} (hw : w ∈ written s e) :
    e.IsOp ∧ w.ref = Ref.child [] s.uid := by
  cases e with
  | add x => exact List.mem_singleton.mp hw ▸ ⟨trivial, rfl⟩
  | remove x => exact List.mem_singleton.mp hw ▸ ⟨trivial, rfl⟩
  | _ => exact absurd hw List.not_mem_nil

/-- A page reads only at its user's list; it writes at its user's node, or at the root as long as it
does not know the user. -/
theorem uses_page {user : Uid} {s s' : State} {e : GroceryList.Event} {outbox : List Write}
    (hi : Uses user ⟨s, outbox⟩) {db : Database} (h : GroceryList.step user (onto s db) e = some s') :
    Uses user ⟨onto s' .empty, outbox ++ written s e⟩ where
  uid := by
    have huid : UidOk user (onto s db) := hi.uid
    have huid' : UidOk user s' := GroceryList.uidOk_step huid h
    exact huid'
  reads := by
    have hreads : ∀ ref, .once ref ∈ s.inFlight → ref = user.itemsRef := hi.reads
    intro ref hm
    cases effect_of_step h with
    | add x _ => exact hreads ref (by simpa [onto] using hm)
    | remove x _ => exact hreads ref (by simpa [onto] using hm)
    | dispose _ => exact hreads ref hm
    | currentUser r hf =>
        rcases List.mem_or_eq_of_mem_set hm with hm | hm
        · exact hreads ref hm
        · exact Refresh.once.inj hm
    | serve r ref' hf =>
        rcases List.mem_or_eq_of_mem_set hm with hm | hm
        · exact hreads ref hm
        · cases hm
    | complete r n v hf => exact hreads ref (List.mem_of_mem_eraseIdx hm)
  refs := by
    intro w hw
    rcases List.mem_append.mp hw with hw | hw
    · exact hi.refs w hw
    · obtain ⟨-, href⟩ := ref_of_written hw
      have huid : s.uid = "" ∨ s.uid = user.val := hi.uid
      rcases huid with huid | huid
      · exact .inr (by rw [href, huid, child_empty])
      · exact .inl (by rw [href, huid, child_uid])

/-- Once it knows the user, a page writes at its user's node only. -/
theorem own_page {user : Uid} {s s' : State} {e : GroceryList.Event} {outbox : List Write}
    (hi : Own user ⟨s, outbox⟩) (hp : UidKnown s e) {db : Database}
    (h : GroceryList.step user (onto s db) e = some s') :
    Own user ⟨onto s' .empty, outbox ++ written s e⟩ where
  toUses := uses_page hi.toUses h
  writes := by
    intro w hw
    rcases List.mem_append.mp hw with hw | hw
    · exact hi.writes w hw
    · obtain ⟨hop, href⟩ := ref_of_written hw
      rw [href, hi.uid.resolve_left (hp hop), child_uid]

/-- The oldest write arrives. -/
theorem arrive_eq_some {user : κ → Uid} {k : κ} {server : Database} {d : Device} {r : Database × Device}
    (h : step user k server d .arrive = some r) :
    ∃ w outbox, d.outbox = w :: outbox ∧ r = (w.apply server, { d with outbox := outbox }) := by
  rw [step] at h
  split at h
  · cases h
  · next w outbox ho => exact ⟨w, outbox, ho, (Option.some.inj h).symm⟩

theorem uses_step {user : κ → Uid} {k : κ} {server : Database} {d : Device} {e : Event}
    {r : Database × Device} (hi : Uses (user k) d) (h : step user k server d e = some r) :
    Uses (user k) r.2 := by
  cases e with
  | page e =>
      obtain ⟨s, hs, rfl⟩ := Option.map_eq_some_iff.mp h
      exact uses_page hi hs
  | arrive =>
      obtain ⟨w, outbox, ho, rfl⟩ := arrive_eq_some h
      exact ⟨hi.uid, hi.reads, fun w' hw => hi.refs w' (ho ▸ List.mem_cons_of_mem w hw)⟩

/-! ### Users apart -/

theorem data_apply {user : Uid} {w : Write} (hw : w.ref = user.node) (db : Database) :
    data user (w.apply db) = itemsNode w.tempo := by
  funext path
  rw [data, Write.apply, hw, Database.set, KeyTree.replace_append]

/-- A write leaves the data of everybody else as it is. -/
theorem data_apply_of_ne {user user' : Uid} (h : user' ≠ user) {w : Write} (hw : w.ref = user.node)
    (db : Database) : data user' (w.apply db) = data user' db := by
  have hval : user.val ≠ user'.val := by
    intro he
    cases user
    cases user'
    cases he
    exact h rfl
  funext path
  refine Database.set_of_not_prefix db w.tempo ?_
  rw [hw]
  simp [Uid.node, hval]

/-- The data of the user in what a device of the user reads. -/
theorem data_view {user : Uid} {outbox : List Write} (h : ∀ w ∈ outbox, w.ref = user.node)
    {db db' : Database} (hd : data user db' = data user db) :
    data user (outbox.foldl Write.apply db') = data user (outbox.foldl Write.apply db) := by
  induction outbox generalizing db db' with
  | nil => exact hd
  | cons w outbox ih =>
      obtain ⟨hw, hrest⟩ := List.forall_mem_cons.mp h
      exact ih hrest (by rw [data_apply hw, data_apply hw])

theorem itemsRef_of_data {user : Uid} {db db' : Database} (h : data user db' = data user db) :
    db' user.itemsRef = db user.itemsRef := congrFun h ["items"]

/-- Devices keep to their users' data. -/
theorem devices_apart (user : κ → Uid) : Owned.Apart (step user) user data
    (fun k d => Own (user k) d) Known where
  inv := by
    intro k server d e r hi hp h
    cases e with
    | page e =>
        obtain ⟨s, hs, rfl⟩ := Option.map_eq_some_iff.mp h
        exact own_page hi hp hs
    | arrive =>
        refine ⟨uses_step hi.toUses h, ?_⟩
        obtain ⟨w, outbox, ho, rfl⟩ := arrive_eq_some h
        exact fun w' hw => hi.writes w' (ho ▸ List.mem_cons_of_mem w hw)
  local_step := by
    intro k server d e r hi hp h server' hd
    cases e with
    | page e =>
        obtain ⟨s, hs, rfl⟩ := Option.map_eq_some_iff.mp h
        obtain ⟨s', hs', heq⟩ := step_of_db hs (d.view server') fun ref hm => by
          rw [hi.reads ref hm]
          exact itemsRef_of_data (data_view hi.writes hd)
        exact ⟨_, by rw [step, hs']; rfl, by simp only [heq], hd⟩
    | arrive =>
        obtain ⟨w, outbox, ho, rfl⟩ := arrive_eq_some h
        have hw : w.ref = (user k).node := hi.writes w (ho ▸ List.mem_cons_self)
        refine ⟨(w.apply server', { d with outbox := outbox }), by rw [step, ho], rfl, ?_⟩
        rw [data_apply hw, data_apply hw]
  frame := by
    intro k server d e r hi hp h u hu
    cases e with
    | page e =>
        obtain ⟨s, hs, rfl⟩ := Option.map_eq_some_iff.mp h
        rfl
    | arrive =>
        obtain ⟨w, outbox, ho, rfl⟩ := arrive_eq_some h
        exact data_apply_of_ne hu (hi.writes w (ho ▸ List.mem_cons_self)) server

theorem own_opened (user : Uid) (db : Database) : Own user ⟨.opened db, []⟩ :=
  ⟨⟨.inl rfl, by simp [State.opened], by simp⟩, by simp⟩

variable [DecidableEq κ]

/-- **Users apart.**  Whatever the devices of other users do, and whatever is stored for them, the
data of a user and the pages on the user's devices are what the user's own steps make of them. -/
theorem users_apart (user : κ → Uid) (u : Uid) {db db' : Database} (hd : data u db' = data u db)
    {es : List (κ × Event)} {t : World κ}
    (hp : EachStep (Owned.World.step (step user)) (fun w e => Known (w.component e.1) e.2)
      (opened db) es)
    (h : run (Owned.World.step (step user)) (opened db) es = some t) :
    ∃ t', run (Owned.World.step (step user)) (opened db') (Owned.own user u es) = some t' ∧
      data u t'.memory = data u t.memory ∧
      ∀ k, user k = u → t'.component k = t.component k := by
  obtain ⟨t', ht', hsame⟩ := (devices_apart user).alone (fun k => own_opened (user k) .empty) hp h
    (v := opened db') ⟨hd, fun _ _ => rfl⟩
  exact ⟨t', ht', hsame.memory, hsame.component⟩

/-- A list for each of two users. -/
def twoLists (list1 list2 : List String) : Database :=
  (Database.empty.set user1.node list1).set user2.node list2

/-- One device for each of two users; both load their list and add an item, and the writes arrive. -/
def twoUsers : List (Bool × Event) :=
  [(true, .page (.currentUser 0)), (false, .page (.currentUser 0)), (true, .page (.serve 0)),
    (false, .page (.serve 0)), (true, .page (.complete 0)), (false, .page (.complete 0)),
    (true, .page (.add "tea")), (false, .page (.add "milk")), (true, .arrive), (false, .arrive)]

theorem users_apart_two : ∃ t t' : World Bool,
    run (Owned.World.step (step fun b => if b then user1 else user2))
      (opened (twoLists ["bread"] ["rice"])) twoUsers = some t ∧
    run (Owned.World.step (step fun b => if b then user1 else user2))
      (opened (twoLists ["butter", "jam"] ["rice"]))
      (Owned.own (fun b => if b then user1 else user2) user2 twoUsers) = some t' ∧
    data user2 t'.memory = data user2 t.memory ∧ t.stored user2 = ["rice", "milk"] ∧
    t.stored user1 = ["bread", "tea"] ∧ t'.stored user1 = ["butter", "jam"] := by
  have hrun : (run (Owned.World.step (step fun b => if b then user1 else user2))
      (opened (twoLists ["bread"] ["rice"])) twoUsers).map
        (fun t : World Bool => (t.stored user2, t.stored user1)) =
          some (["rice", "milk"], ["bread", "tea"]) := by decide
  have hrun' : (run (Owned.World.step (step fun b => if b then user1 else user2))
      (opened (twoLists ["butter", "jam"] ["rice"]))
      (Owned.own (fun b => if b then user1 else user2) user2 twoUsers)).map
        (fun t : World Bool => t.stored user1) = some ["butter", "jam"] := by decide
  have hlists : data user2 (twoLists ["butter", "jam"] ["rice"]) = data user2 (twoLists ["bread"] ["rice"]) :=
    (data_apply (w := ⟨user2.node, ["rice"]⟩) rfl _).trans
      (data_apply (w := ⟨user2.node, ["rice"]⟩) rfl _).symm
  obtain ⟨t, ht, hv⟩ := Option.map_eq_some_iff.mp hrun
  obtain ⟨hrice, hbread⟩ := Prod.mk.inj hv
  obtain ⟨t', ht', hdata, -⟩ := users_apart _ user2 hlists (by decide) ht
  rw [ht', Option.map_some, Option.some.injEq] at hrun'
  exact ⟨t, t', ht, ht', hdata, hrice, hbread, hrun'⟩

/-! ### Nothing is invented -/

open Replay (Of)

/-- The operation that an event is. -/
def operation : GroceryList.Event → List GroceryList.Event
  | .add x => [.add x]
  | .remove x => [.remove x]
  | _ => []

/-- The operations on devices of `u`. -/
def made (user : κ → Uid) (u : Uid) : κ × Event → List GroceryList.Event
  | (k, .page e) => if user k = u then operation e else []
  | (_, .arrive) => []

/-- An item of a replay was there at the start or has been added. -/
theorem mem_of_replay {bases : Set (List String)} {log : List GroceryList.Event} {l : List String}
    (h : Of intended bases log l) :
    ∀ x ∈ l, (∃ b ∈ bases, x ∈ b) ∨ GroceryList.Event.add x ∈ log := by
  refine h.induction (Q := fun l => ∀ x ∈ l, (∃ b ∈ bases, x ∈ b) ∨ GroceryList.Event.add x ∈ log)
    (fun b hb x hx => .inl ⟨b, hb, hx⟩) fun l e he hl x hx => ?_
  cases e with
  | add y =>
      rcases List.mem_append.mp hx with hx | hx
      · exact hl x hx
      · rw [List.mem_singleton.mp hx]
        exact .inr he
  | remove y => exact hl x (List.mem_of_mem_erase hx)
  | _ => exact hl x hx

/-- All that a device has is a replay. -/
structure Replayed (bases : Set (List String)) (log : List GroceryList.Event) (d : Device) : Prop where
  items : Of intended bases log d.page.items
  answers : ∀ n v, .snapshot n v ∈ d.page.inFlight → Of intended bases log (Items.toList v)
  outbox : ∀ w ∈ d.outbox, Of intended bases log w.tempo
  shown : ∀ x ∈ d.page.groceryList, (∃ b ∈ bases, x ∈ b) ∨ GroceryList.Event.add x ∈ log

section replay

variable {bases : Set (List String)} {log : List GroceryList.Event}

theorem Replayed.append {d : Device} (h : Replayed bases log d) (log' : List GroceryList.Event) :
    Replayed bases (log ++ log') d where
  items := h.items.append log'
  answers n v hm := (h.answers n v hm).append log'
  outbox w hw := (h.outbox w hw).append log'
  shown x hx := (h.shown x hx).imp_right (List.mem_append_left log')

theorem list_apply {user : Uid} {w : Write} (hw : w.ref = user.node) (db : Database) :
    (w.apply db).list user.itemsRef = w.tempo := by
  rw [Write.apply, hw]
  exact Database.list_set_items db user.node w.tempo

/-- A write at the root leaves nothing of the users' lists. -/
theorem list_apply_root (u : Uid) {w : Write} (hw : w.ref = []) (db : Database) :
    (w.apply db).list u.itemsRef = [] := by
  rw [Write.apply, hw, Database.set, KeyTree.replace_nil]
  simp [Database.list, itemsNode, Uid.itemsRef, Uid.node]

/-- A write of a device of `user`, as it is seen at the list of `u`. -/
theorem replay_apply (hnil : [] ∈ bases) {user u : Uid} {w : Write}
    (hw : w.ref = user.node ∨ w.ref = []) (hof : user = u → Of intended bases log w.tempo) {db : Database}
    (hdb : Of intended bases log (db.list u.itemsRef)) :
    Of intended bases log ((w.apply db).list u.itemsRef) := by
  rcases hw with hw | hw
  · by_cases hu : user = u
    · subst hu
      rw [list_apply hw]
      exact hof rfl
    · rw [Database.list, itemsRef_of_data (data_apply_of_ne (Ne.symm hu) hw db)]
      exact hdb
  · rw [list_apply_root u hw]
    exact .base hnil log

/-- What a device reads of its user's list is a replay. -/
theorem replay_view (hnil : [] ∈ bases) {user : Uid} {outbox : List Write}
    (hrefs : ∀ w ∈ outbox, w.ref = user.node ∨ w.ref = [])
    (h : ∀ w ∈ outbox, Of intended bases log w.tempo) {db : Database}
    (hdb : Of intended bases log (db.list user.itemsRef)) :
    Of intended bases log ((outbox.foldl Write.apply db).list user.itemsRef) := by
  induction outbox generalizing db with
  | nil => exact hdb
  | cons w outbox ih =>
      obtain ⟨hw, hrefs⟩ := List.forall_mem_cons.mp hrefs
      obtain ⟨hof, h⟩ := List.forall_mem_cons.mp h
      exact ih hrefs h (replay_apply hnil hw (fun _ => hof) hdb)

/-- An event that is no operation adds nothing. -/
theorem Replayed.quiet {s p : State} {outbox : List Write} {e : GroceryList.Event}
    (h : Replayed bases log ⟨s, outbox⟩) (ho : operation e = []) (hw : written p e = []) :
    Replayed bases (log ++ operation e) ⟨s, outbox ++ written p e⟩ := by
  rwa [ho, hw, List.append_nil, List.append_nil]

/-- A step of the page. -/
theorem replayed_page (hnil : [] ∈ bases) {user : Uid} {d : Device} {server : Database} {s : State}
    {e : GroceryList.Event} (hi : Uses user d) (hd : Replayed bases log d)
    (hs : Of intended bases log (server.list user.itemsRef))
    (h : GroceryList.step user (onto d.page (d.view server)) e = some s) :
    Replayed bases (log ++ operation e)
      ⟨onto s .empty, d.outbox ++ written d.page e⟩ := by
  cases effect_of_step h with
  | add x hm =>
      have hd' := hd.append [.add x]
      refine ⟨hd'.items, fun n v hv => ?_, fun w hw => ?_, fun y hy => ?_⟩
      · exact hd'.answers n v (by simpa [onto] using hv)
      · rcases List.mem_append.mp hw with hw | hw
        · exact hd'.outbox w hw
        · rw [List.mem_singleton.mp hw]
          exact hd.items.update (.add x)
      · rcases List.mem_cons.mp hy with rfl | hy
        · exact .inr (List.mem_append_right log (List.mem_singleton_self _))
        · exact hd'.shown y hy
  | remove x hm =>
      have hd' := hd.append [.remove x]
      refine ⟨hd'.items, fun n v hv => ?_, fun w hw => ?_, fun y hy => ?_⟩
      · exact hd'.answers n v (by simpa [onto] using hv)
      · rcases List.mem_append.mp hw with hw | hw
        · exact hd'.outbox w hw
        · rw [List.mem_singleton.mp hw]
          exact hd.items.update (.remove x)
      · exact hd'.shown y (List.mem_of_mem_erase hy)
  | currentUser r hf =>
      refine Replayed.quiet ⟨hd.items, fun n v hv => ?_, hd.outbox, hd.shown⟩ rfl rfl
      rcases List.mem_or_eq_of_mem_set hv with hv | hv
      · exact hd.answers n v hv
      · cases hv
  | serve r ref hf =>
      refine Replayed.quiet ⟨hd.items, fun n v hv => ?_, hd.outbox, hd.shown⟩ rfl rfl
      rcases List.mem_or_eq_of_mem_set hv with hv | hv
      · exact hd.answers n v hv
      · obtain ⟨-, rfl⟩ := Refresh.snapshot.inj hv
        obtain rfl : ref = user.itemsRef := hi.reads ref (List.mem_of_getElem? hf)
        exact replay_view hnil hi.refs hd.outbox hs
  | complete r n v hf =>
      have hv := hd.answers n v (List.mem_of_getElem? hf)
      refine Replayed.quiet ⟨by simpa [onto] using hv, fun n' v' hv' => ?_, hd.outbox, fun x hx => ?_⟩
        rfl rfl
      · exact hd.answers n' v' (List.mem_of_mem_eraseIdx hv')
      · -- the page shows the answer, or what it showed before
        have hx' : x ∈ Items.toList v ∨ x ∈ d.page.groceryList := by
          cases v <;> cases hm : d.page.mounted <;> simp_all [onto, State.onSnapshot]
        exact hx'.elim (mem_of_replay hv x) (hd.shown x)
  | dispose hm => exact Replayed.quiet ⟨hd.items, hd.answers, hd.outbox, hd.shown⟩ rfl rfl

/-- What is stored for `u`, and all that the devices of `u` have, are replays. -/
structure AllReplayed (user : κ → Uid) (u : Uid) (bases : Set (List String))
    (log : List GroceryList.Event) (w : World κ) : Prop where
  uses : ∀ k, Uses (user k) (w.component k)
  stored : Of intended bases log (w.stored u)
  device : ∀ k, user k = u → Replayed bases log (w.component k)

omit [DecidableEq κ] in
theorem allReplayed_opened (user : κ → Uid) (u : Uid) (db : Database) :
    AllReplayed user u {db.list u.itemsRef, []} [] (opened db) := by
  refine ⟨fun k => (own_opened (user k) .empty).toUses, .base (.inl rfl) [], fun k _ => ?_⟩
  exact ⟨.base (.inr rfl) [], by simp [opened, State.opened], by simp [opened],
    by simp [opened, State.opened]⟩

theorem allReplayed_step (hnil : [] ∈ bases) {user : κ → Uid} {u : Uid} {w w' : World κ} {e : κ × Event}
    (hi : AllReplayed user u bases log w) (h : Owned.World.step (step user) w e = some w') :
    AllReplayed user u bases (log ++ made user u e) w' := by
  refine ⟨Owned.inv_step (fun k d => Uses (user k) d) hi.uses
    (fun _ hr => uses_step (hi.uses e.1) hr) h, ?_, ?_⟩
  · obtain ⟨r, hr, hm, -⟩ := Owned.step_eq_some h
    obtain ⟨k, e⟩ := e
    rw [World.stored, hm]
    cases e with
    | page e =>
        obtain ⟨s, -, rfl⟩ := Option.map_eq_some_iff.mp hr
        exact hi.stored.append _
    | arrive =>
        obtain ⟨w₁, outbox, ho, rfl⟩ := arrive_eq_some hr
        have hw : w₁ ∈ (w.component k).outbox := by simp [ho]
        refine (replay_apply hnil ((hi.uses k).refs w₁ hw) (fun hu => ?_) hi.stored).append _
        exact (hi.device k hu).outbox w₁ hw
  · intro k hk
    by_cases hke : k = e.1
    · obtain ⟨r, hr, -, hc⟩ := Owned.step_eq_some h
      obtain ⟨k', e⟩ := e
      obtain rfl : k = k' := hke
      rw [hc, Function.update_self]
      cases e with
      | page e =>
          obtain ⟨s, hs, rfl⟩ := Option.map_eq_some_iff.mp hr
          have hstored : Of intended bases log (w.memory.list (user k).itemsRef) := hk ▸ hi.stored
          rw [made, if_pos hk]
          exact replayed_page hnil (hi.uses k) (hi.device k hk) hstored hs
      | arrive =>
          have hd := (hi.device k hk).append (made user u (k, .arrive))
          obtain ⟨w₁, outbox, ho, rfl⟩ := arrive_eq_some hr
          exact ⟨hd.items, hd.answers, fun w' hw' => hd.outbox w' (by simp [ho, hw']), hd.shown⟩
    · rw [Owned.component_of_ne h hke]
      exact (hi.device k hk).append _

end replay

/-- **Nothing is invented.**  However the devices of a user interleave with each other and with
those of other users, and whether or not they know their users yet, what is stored for the user is
what was stored at the start, or nothing, with some of the user's operations in the order in which
they were made; and every item shown to the user was stored at the start or has been added by the
user. -/
theorem nothing_invented (user : κ → Uid) (u : Uid) (db : Database) {es : List (κ × Event)}
    {t : World κ} (h : run (Owned.World.step (step user)) (opened db) es = some t) :
    Of intended {db.list u.itemsRef, []} (es.flatMap (made user u)) (t.stored u) ∧
      ∀ k, user k = u → ∀ x ∈ (t.component k).page.groceryList,
        x ∈ db.list u.itemsRef ∨ GroceryList.Event.add x ∈ es.flatMap (made user u) := by
  have hend := Replay.inv_of_run_log (made user u) (AllReplayed user u {db.list u.itemsRef, []})
    (fun _ _ _ _ hi _ h => allReplayed_step (.inr rfl) hi h) (allReplayed_opened user u db)
    (.of_forall (P := fun _ _ => True) (fun _ _ => trivial) _ _) h
  rw [List.nil_append] at hend
  refine ⟨hend.stored, fun k hk x hx => ?_⟩
  simpa using (hend.device k hk).shown x hx

/-- Two devices of one user.  The second one adds an item before it knows the user, which empties
the database; the first one goes on from its own copy of the list. -/
def twoDevices : List (Bool × Event) :=
  [(true, .page (.currentUser 0)), (true, .page (.add "tea")), (true, .arrive), (true, .page (.serve 0)),
    (true, .page (.complete 0)), (false, .page (.add "milk")), (false, .arrive),
    (true, .page (.add "eggs")), (true, .arrive)]

theorem nothing_invented_two : ∃ t : World Bool,
    run (Owned.World.step (step fun _ => user1)) (opened .empty) twoDevices = some t ∧
      t.stored user1 = ["tea", "eggs"] ∧
      Of intended {[], []} [.add "tea", .add "milk", .add "eggs"] (t.stored user1) := by
  have hrun : (run (Owned.World.step (step fun _ => user1)) (opened .empty) twoDevices).map
      (fun t : World Bool => t.stored user1) = some ["tea", "eggs"] := by decide
  obtain ⟨t, ht, hv⟩ := Option.map_eq_some_iff.mp hrun
  exact ⟨t, ht, hv, (nothing_invented _ user1 .empty ht).1⟩

end EasyGrocery.Devices
