import EasyGrocery.Lib.KeyTree

/-! # The Firebase database as the app uses it

The realtime database is a tree; what the app keeps in it are lists of item names, one at
`<uid>/items` for each user.  Firebase keeps no empty list, so a stored list is a non-empty
one (`Items`) and a path with nothing stored is the empty list.  `set` replaces the whole
subtree at its reference, and `child ""` is the reference itself. -/

namespace EasyGrocery.Firebase

/-- A reference: the path of keys from the root. -/
abbrev Ref := List String

/-- A stored list of item names; an empty list is never stored. -/
def Items := { l : List String // l ≠ [] }

instance : DecidableEq Items := inferInstanceAs (DecidableEq { l : List String // l ≠ [] })

/-- What a written list is kept as. -/
def Items.ofList (l : List String) : Option Items :=
  if h : l ≠ [] then some ⟨l, h⟩ else none

/-- The list a snapshot value stands for (`null` for no list). -/
def Items.toList : Option Items → List String
  | some l => l.1
  | none => []

@[simp] theorem Items.toList_ofList (l : List String) : Items.toList (Items.ofList l) = l := by
  by_cases h : l = [] <;> simp [Items.ofList, Items.toList, h]

@[simp] theorem Items.toList_some (l : Items) : Items.toList (some l) = l.1 := rfl

@[simp] theorem Items.toList_none : Items.toList none = [] := rfl

/-- The database: the list kept at each path. -/
abbrev Database := KeyTree String Items

/-- A database that holds nothing. -/
def Database.empty : Database := fun _ => none

/-- `ref.child(key)`; the empty key denotes the reference itself. -/
def Ref.child (ref : Ref) (key : String) : Ref := if key = "" then ref else ref ++ [key]

/-- The value written by `ref.set({'items': tempo})`. -/
def itemsNode (tempo : List String) : Database :=
  fun path => if path = ["items"] then Items.ofList tempo else none

/-- `ref.set({'items': tempo})`: the whole subtree at `ref` is replaced. -/
def Database.set (db : Database) (ref : Ref) (tempo : List String) : Database :=
  KeyTree.replace ref (itemsNode tempo) db

/-- The list stored at a path, empty when nothing is stored there. -/
def Database.list (db : Database) (path : Ref) : List String := Items.toList (db path)

@[simp] theorem Database.list_set_items (db : Database) (ref : Ref) (tempo : List String) :
    (db.set ref tempo).list (ref ++ ["items"]) = tempo := by
  simp [Database.list, Database.set, itemsNode]

theorem Database.set_of_not_prefix (db : Database) {ref path : Ref} (tempo : List String)
    (h : ¬ ref <+: path) : db.set ref tempo path = db path :=
  KeyTree.replace_of_not_prefix _ _ h

/-- The id Firebase gives a signed-in user: a key, hence not empty. -/
structure Uid where
  val : String
  ne_empty : val ≠ ""

def user1 : Uid := ⟨"u1", by decide⟩

def user2 : Uid := ⟨"u2", by decide⟩

/-- The node of a user. -/
def Uid.node (user : Uid) : Ref := [user.val]

/-- The path of a user's grocery list, `<uid>/items`. -/
def Uid.itemsRef (user : Uid) : Ref := user.node ++ ["items"]

@[simp] theorem child_uid (user : Uid) : Ref.child [] user.val = user.node := by
  simp [Ref.child, Uid.node, user.ne_empty]

@[simp] theorem child_node_items (user : Uid) : Ref.child user.node "items" = user.itemsRef := by
  simp [Ref.child, Uid.itemsRef]

@[simp] theorem child_empty (ref : Ref) : Ref.child ref "" = ref := by simp [Ref.child]

end EasyGrocery.Firebase
