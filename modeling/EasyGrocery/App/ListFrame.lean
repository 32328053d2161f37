import EasyGrocery.App.GroceryList

/-! # What a session may write

`uid` is the empty string until the first `currentUser()` answers, and the add button works
from the first build on.  A write made before that goes to the root of the database and takes
the data of every user with it (`not_onlyOwnData`).  A run stays within the node of the
signed-in user precisely when no operation is made before the id is known
(`ownDataOnly_iff`). -/

namespace EasyGrocery.GroceryList

open Firebase Guarded

/-- Every write so far was at the user's node, and every path outside it is as in `db`. -/
structure OwnDataOnly (user : Uid) (db : Database) (s : State) : Prop where
  writes : ∀ ref ∈ s.writes, ref = user.node
  frame : ∀ path, ¬ user.node <+: path → s.db path = db path

/-- When an operation is made, the user's id is known. -/
def UidKnown (s : State) (e : Event) : Prop := e.IsOp → s.uid ≠ ""

/-- The id field is empty or the user's. -/
def UidOk (user : Uid) (s : State) : Prop := s.uid = "" ∨ s.uid = user.val

theorem uidOk_step {user : Uid} {s s' : State} {e : Event} (hi : UidOk user s)
    (h : step user s e = some s') : UidOk user s' := by
  cases effect_of_step h with
  | currentUser r hr => exact .inr rfl
  | complete r n v hr => simpa only [UidOk, State.onSnapshot_uid] using hi
  | _ => exact hi

/-- A write at the user's node keeps every path outside it. -/
theorem OwnDataOnly.setItems {user : Uid} {db : Database} {s : State} (h : OwnDataOnly user db s)
    (hu : s.uid = user.val) (tempo : List String) : OwnDataOnly user db (s.setItems tempo) where
  writes := by
    intro ref href
    simp only [State.setItems, List.mem_append, List.mem_singleton] at href
    rcases href with href | rfl
    · exact h.writes ref href
    · rw [hu, child_uid]
  frame := by
    intro path hp
    simp only [State.setItems, hu, child_uid]
    rw [Database.set_of_not_prefix _ _ hp]
    exact h.frame path hp

theorem OwnDataOnly.congr {user : Uid} {db : Database} {s t : State} (h : OwnDataOnly user db s)
    (hw : t.writes = s.writes) (hd : t.db = s.db) : OwnDataOnly user db t where
  writes := by rw [hw]; exact h.writes
  frame := by rw [hd]; exact h.frame

theorem ownDataOnly_step {user : Uid} {db : Database} {s s' : State} {e : Event}
    (hu : UidOk user s) (hi : OwnDataOnly user db s) (hp : UidKnown s e)
    (h : step user s e = some s') : OwnDataOnly user db s' := by
  cases effect_of_step h with
  | add x hm => exact (hi.setItems (hu.resolve_left (hp trivial)) _).congr rfl rfl
  | remove x hm => exact (hi.setItems (hu.resolve_left (hp trivial)) _).congr rfl rfl
  | complete r n v hr => exact hi.congr (State.onSnapshot_writes s v) (State.onSnapshot_db s v)
  | _ => exact hi.congr rfl rfl

/-- An operation made before the id is known writes at the root. -/
theorem root_mem_writes {user : Uid} {s s' : State} {e : Event} (hp : ¬ UidKnown s e)
    (h : step user s e = some s') : [] ∈ s'.writes := by
  simp only [UidKnown, Classical.not_imp, not_not] at hp
  obtain ⟨hop, hu⟩ := hp
  cases effect_of_step h with
  | add x hm => simp [hu]
  | remove x hm => simp [hu]
  | _ => exact absurd hop id

/-- **The frame of a session.**  Every write of a run is at the user's node and leaves all
other data as it was, iff every operation of the run is made after `currentUser()` has
answered for the first time. -/
theorem ownDataOnly_iff (user : Uid) (db : Database) (es : List Event) :
    EachState (step user) (OwnDataOnly user db) (.opened db) es ↔
      EachStep (step user) UidKnown (.opened db) es := by
  refine eachState_iff (fun s => UidOk user s ∧ OwnDataOnly user db s)
    (fun _ _ _ hi hp h => ⟨uidOk_step hi.1 h, ownDataOnly_step hi.1 hi.2 hp h⟩)
    (fun _ hi => hi.2) ?_ ⟨.inl rfl, by simp [State.opened], fun _ _ => rfl⟩
  intro s e s' _ hp h hown
  have := hown.writes [] (root_mem_writes hp h)
  simp [Uid.node] at this

/-- In a run of an opened page the id is known from the first answer of `currentUser()` on. -/
theorem uid_known_iff {user : Uid} {s t : State} {es : List Event}
    (h : run (step user) s es = some t) :
    t.uid ≠ "" ↔ s.uid ≠ "" ∨ ∃ r, .currentUser r ∈ es := by
  induction es generalizing s with
  | nil => obtain rfl := Option.some.inj h; simp
  | cons e es ih =>
      obtain ⟨s', hs, ht⟩ := run_cons_eq_some.mp h
      rw [ih ht]
      cases effect_of_step hs with
      | currentUser r hr =>
          have h' : user.val ≠ "" := user.ne_empty
          constructor
          · exact fun _ => .inr ⟨r, by simp⟩
          · exact fun _ => .inl h'
      | complete r n v hr => simp
      | _ => simp

/-- A session only ever writes its user's data, as a property of every run. -/
def OnlyOwnData : Prop :=
  ∀ (user : Uid) (db : Database) (es : List Event),
    EachState (step user) (OwnDataOnly user db) (.opened db) es

/-- One user adds an item before `currentUser()` has answered: the other user's list is gone. -/
theorem not_onlyOwnData : ¬ OnlyOwnData := by
  intro h
  let db : Database := Database.empty.set user2.node ["tea"]
  have hrun : (run (step user1) (.opened db) [.add "milk"]).map (fun t => t.db.list user2.itemsRef) =
      some [] := by decide
  obtain ⟨t, ht, hv⟩ := Option.map_eq_some_iff.mp hrun
  have hframe := ((h user1 db [.add "milk"]).last ht).frame user2.itemsRef (by decide)
  rw [Database.list, hframe] at hv
  exact absurd hv (by decide)

end EasyGrocery.GroceryList
