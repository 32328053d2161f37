import EasyGrocery.App.Firebase
import EasyGrocery.Lib.Transition

/-! # The grocery list page (`list.dart`)

`State` is one `GroceryListState` together with the database it writes to.  The page keeps
three copies of the list: the stored one in `db`, the cached field `items`, and the displayed
`_groceryList`.  An operation of the user rewrites the stored list *from the cache* and starts
a refresh (`initializeVars`); only a refresh updates the cache.

A refresh is suspended first at `await currentUser()` and then at `await once()`.  The answer
to `once()` is fixed at some moment between its start and its completion (`serve`), so a read
started after a `set` returns that write or a later one.  Any number of refreshes may be in
flight, and any of them may take its next step at any time. -/

namespace EasyGrocery.GroceryList

open Firebase Guarded

/-- A call of `initializeVars` in flight, by the `await` it is suspended at. -/
inductive Refresh where
  /-- `await widget.auth.currentUser()` -/
  | currentUser
  /-- `await dbRef.child("$uid/items").once()`, not answered yet -/
  | once (ref : Ref)
  /-- the answer is on its way; `seen` writes had been made when it was read -/
  | snapshot (seen : ℕ) (value : Option Items)
deriving DecidableEq

/-- `GroceryListState` and the database. -/
structure State where
  db : Database
  uid : String
  items : List String
  groceryList : List String
  /-- identity of the list object that `_groceryList` is bound to -/
  listId : ℕ
  mounted : Bool
  /-- the refreshes in flight, in the order they were started -/
  inFlight : List Refresh
  /-- the references of the `set` calls made, in order -/
  writes : List Ref

/-- The page as it is first built: `initState` has called `initializeVars`. -/
def State.opened (db : Database) : State where
  db := db
  uid := ""
  items := []
  groceryList := []
  listId := 0
  mounted := true
  inFlight := [.currentUser]
  writes := []

namespace State

/-- The part of `initializeVars` that runs before its first `await`. -/
def initializeVars (s : State) : State := { s with inFlight := s.inFlight ++ [.currentUser] }

/-- `dbRef.child(uid).set({'items': tempo})`. -/
def setItems (s : State) (tempo : List String) : State :=
  let ref := Ref.child [] s.uid
  { s with db := s.db.set ref tempo, writes := s.writes ++ [ref] }

def addFB (s : State) (itemName : String) : State :=
  let tempo := s.items ++ [itemName]
  (s.setItems tempo).initializeVars

def removeFB (s : State) (itemName : String) : State :=
  let tempo := s.items.erase itemName
  (s.setItems tempo).initializeVars

def addItemCallback (s : State) (item : String) : State :=
  let s := s.addFB item
  { s with groceryList := item :: s.groceryList }

/-- `onPressed` of a row's delete button. -/
def deleteButton (s : State) (item : String) : State :=
  let s := s.removeFB item
  { s with groceryList := s.groceryList.erase item }

/-- The callback of `once().then` in `initializeVars`. -/
def onSnapshot (s : State) : Option Items → State
  | some value =>
      let s := { s with items := value.1 }
      if !s.mounted then s
      else { s with groceryList := value.1, listId := s.listId + 1 }
  | none => { s with items := [] }

/-- The stored list of a user. -/
def stored (s : State) (user : Uid) : List String := s.db.list user.itemsRef

end State

/-- The operations of the user, the steps of the refresh at index `r` of `inFlight`, and the
page going away. -/
inductive Event where
  | add (x : String)
  | remove (x : String)
  | currentUser (r : ℕ)
  | serve (r : ℕ)
  | complete (r : ℕ)
  | dispose
deriving DecidableEq

/-- An operation made by the user. -/
def Event.IsOp : Event → Prop
  | .add _ => True
  | .remove _ => True
  | _ => False

instance : DecidablePred Event.IsOp := fun e => by
  cases e <;> simp only [Event.IsOp] <;> infer_instance

/-- One step of the page, signed in as `user`. -/
def step (user : Uid) (s : State) : Event → Option State
  | .add x => if s.mounted then some (s.addItemCallback x) else none
  | .remove x => if s.mounted then some (s.deleteButton x) else none
  | .currentUser r => match s.inFlight[r]? with
      | some .currentUser =>
          -- `uid` is assigned first, so the read is always at the signed-in user's list
          let s := { s with uid := user.val }
          let ref := Ref.child (Ref.child [] s.uid) "items"
          some { s with inFlight := s.inFlight.set r (.once ref) }
      | _ => none
  | .serve r => match s.inFlight[r]? with
      | some (.once ref) =>
          some { s with inFlight := s.inFlight.set r (.snapshot s.writes.length (s.db ref)) }
      | _ => none
  | .complete r => match s.inFlight[r]? with
      | some (.snapshot _ value) =>
          some { s.onSnapshot value with inFlight := s.inFlight.eraseIdx r }
      | _ => none
  | .dispose => if s.mounted then some { s with mounted := false } else none

/-! ### What each operation changes -/

namespace State

variable (s : State) (x : String) (v : Option Items)

@[simp] theorem addItemCallback_items : (s.addItemCallback x).items = s.items := rfl
@[simp] theorem addItemCallback_uid : (s.addItemCallback x).uid = s.uid := rfl
@[simp] theorem addItemCallback_mounted : (s.addItemCallback x).mounted = s.mounted := rfl
@[simp] theorem addItemCallback_listId : (s.addItemCallback x).listId = s.listId := rfl
@[simp] theorem addItemCallback_groceryList :
    (s.addItemCallback x).groceryList = x :: s.groceryList := rfl
@[simp] theorem addItemCallback_inFlight :
    (s.addItemCallback x).inFlight = s.inFlight ++ [.currentUser] := rfl
@[simp] theorem addItemCallback_db :
    (s.addItemCallback x).db = s.db.set (Ref.child [] s.uid) (s.items ++ [x]) := rfl
@[simp] theorem addItemCallback_writes :
    (s.addItemCallback x).writes = s.writes ++ [Ref.child [] s.uid] := rfl

@[simp] theorem deleteButton_items : (s.deleteButton x).items = s.items := rfl
@[simp] theorem deleteButton_uid : (s.deleteButton x).uid = s.uid := rfl
@[simp] theorem deleteButton_mounted : (s.deleteButton x).mounted = s.mounted := rfl
@[simp] theorem deleteButton_groceryList :
    (s.deleteButton x).groceryList = s.groceryList.erase x := rfl
@[simp] theorem deleteButton_inFlight :
    (s.deleteButton x).inFlight = s.inFlight ++ [.currentUser] := rfl
@[simp] theorem deleteButton_db :
    (s.deleteButton x).db = s.db.set (Ref.child [] s.uid) (s.items.erase x) := rfl
@[simp] theorem deleteButton_writes :
    (s.deleteButton x).writes = s.writes ++ [Ref.child [] s.uid] := rfl

@[simp] theorem onSnapshot_db : (s.onSnapshot v).db = s.db := by
  cases v <;> cases h : s.mounted <;> simp [onSnapshot, h]
@[simp] theorem onSnapshot_uid : (s.onSnapshot v).uid = s.uid := by
  cases v <;> cases h : s.mounted <;> simp [onSnapshot, h]
@[simp] theorem onSnapshot_writes : (s.onSnapshot v).writes = s.writes := by
  cases v <;> cases h : s.mounted <;> simp [onSnapshot, h]
@[simp] theorem onSnapshot_mounted : (s.onSnapshot v).mounted = s.mounted := by
  cases v <;> cases h : s.mounted <;> simp [onSnapshot, h]
@[simp] theorem onSnapshot_items : (s.onSnapshot v).items = Items.toList v := by
  cases v <;> cases h : s.mounted <;> simp [onSnapshot, h]

/-- On a live page a refresh that finds a list displays it; one that finds nothing leaves the
display alone. -/
theorem onSnapshot_groceryList (h : s.mounted = true) :
    (s.onSnapshot v).groceryList = match v with
      | some l => l.1
      | none => s.groceryList := by
  cases v <;> simp [onSnapshot, h]

/-- With the user's id known, a write replaces the user's stored list. -/
@[simp] theorem stored_set {user : Uid} (h : s.uid = user.val) (tempo : List String) :
    (s.db.set (Ref.child [] s.uid) tempo).list user.itemsRef = tempo := by
  rw [h, child_uid]
  exact Database.list_set_items _ _ _

end State

/-! ### What a step can do -/

/-- The effect of a step, one case for each kind of event. -/
inductive Effect (user : Uid) (s : State) : Event → State → Prop
  | add (x : String) : s.mounted = true → Effect user s (.add x) (s.addItemCallback x)
  | remove (x : String) : s.mounted = true → Effect user s (.remove x) (s.deleteButton x)
  | currentUser (r : ℕ) : s.inFlight[r]? = some .currentUser →
      Effect user s (.currentUser r)
        { s with uid := user.val, inFlight := s.inFlight.set r (.once user.itemsRef) }
  | serve (r : ℕ) (ref : Ref) : s.inFlight[r]? = some (.once ref) →
      Effect user s (.serve r)
        { s with inFlight := s.inFlight.set r (.snapshot s.writes.length (s.db ref)) }
  | complete (r : ℕ) (n : ℕ) (v : Option Items) : s.inFlight[r]? = some (.snapshot n v) →
      Effect user s (.complete r) { s.onSnapshot v with inFlight := s.inFlight.eraseIdx r }
  | dispose : s.mounted = true → Effect user s .dispose { s with mounted := false }

theorem effect_of_step {user : Uid} {s s' : State} {e : Event} (h : step user s e = some s') :
    Effect user s e s' := by
  cases e with
  | add x =>
      simp only [step, Option.ite_none_right_eq_some, Option.some.injEq] at h
      obtain ⟨hm, rfl⟩ := h
      exact .add x hm
  | remove x =>
      simp only [step, Option.ite_none_right_eq_some, Option.some.injEq] at h
      obtain ⟨hm, rfl⟩ := h
      exact .remove x hm
  | currentUser r =>
      simp only [step] at h
      split at h
      · next hr =>
        simp only [child_uid, child_node_items, Option.some.injEq] at h
        obtain rfl := h
        exact .currentUser r hr
      · cases h
  | serve r =>
      simp only [step] at h
      split at h
      · next ref hr =>
        obtain rfl := Option.some.inj h
        exact .serve r ref hr
      · cases h
  | complete r =>
      simp only [step] at h
      split at h
      · next n v hr =>
        obtain rfl := Option.some.inj h
        exact .complete r n v hr
      · cases h
  | dispose =>
      simp only [step, Option.ite_none_right_eq_some, Option.some.injEq] at h
      obtain ⟨hm, rfl⟩ := h
      exact .dispose hm

end EasyGrocery.GroceryList
