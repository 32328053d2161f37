import EasyGrocery.Lib.Transition
import EasyGrocery.Server.Encode
import EasyGrocery.Server.Queries
import EasyGrocery.Server.Similarity

/-! # The compare handler (`POST /Easygrocery/api/compare`)

One request, from the moment its handler has returned.  By then every item has issued its two
first queries and started its timer, and the response timer is running.  Everything after that
happens in callbacks, each atomic: a step of the machine is one callback, of any query or timer
that is pending.  Schedules are conditions on runs; the machine allows every order.

The items' captured variables are kept by the position of the item in the list. -/

namespace EasyGrocery.Server

variable {P : Type}

/-- What the script calls: the string function, and the database by the text of the query.  A
failing query brings an error message. -/
structure Env (P : Type) where
  toLowerCase : String → String
  query : String → Except String (List (Row P))

/-- An exception that escapes from a callback. -/
inductive Thrown where
  /-- `if(err) throw err` -/
  | queryError (message : String)
  /-- a total that is not a number -/
  | toFixed
deriving DecidableEq

/-- The variables that the callbacks of one item share. -/
structure ItemVars (P : Type) where
  inSafeway : Bool
  inWalmart : Bool
  safewayTempPrice : P
  walmartTempPrice : P
  safewayTempName : String
  walmartTempName : String
  safewayCategory : String

/-- The queries of an item, by their callbacks. -/
inductive Kind where
  /-- `sql1` -/
  | safeway
  /-- `sql2` -/
  | walmart
  /-- `sql3`, for the row of Walmart most similar to an item of Safeway -/
  | similarWalmart
  /-- `sql4`, for the row of Safeway most similar to an item of Walmart -/
  | similarSafeway
deriving DecidableEq

/-- A query that has been issued, with the position of its item. -/
structure Query where
  kind : Kind
  item : ℕ
  text : String
deriving DecidableEq

structure State (P : Type) where
  globals : Globals P
  vars : ℕ → ItemVars P
  safewayPrice : P
  walmartPrice : P
  safewayList : List (Entry P)
  walmartList : List (Entry P)
  safewayUnknown : ℕ
  walmartUnknown : ℕ
  /-- identity of the next array -/
  nextRef : ℕ
  /-- the queries in flight, in the order they were issued -/
  queries : List Query
  /-- the items whose timer has not fired -/
  timers : List ℕ
  /-- the response timer has not fired -/
  responding : Bool
  /-- the responses sent -/
  sent : List String
  thrown : Option Thrown

def ItemVars.init [Zero P] : ItemVars P where
  inSafeway := false
  inWalmart := false
  safewayTempPrice := 0
  walmartTempPrice := 0
  safewayTempName := ""
  walmartTempName := ""
  safewayCategory := ""

/-- The queries that `forEach` issues for the items from position `i` on. -/
def firstQueries : ℕ → List String → List Query
  | _, [] => []
  | i, item :: list =>
      ⟨.safeway, i, sql1 item⟩ :: ⟨.walmart, i, sql2 item⟩ :: firstQueries (i + 1) list

/-- The state after the handler has returned; `list` holds the items by their texts. -/
def State.start [Zero P] (g : Globals P) (list : List String) : State P where
  globals := g
  vars := fun _ => .init
  safewayPrice := 0
  walmartPrice := 0
  safewayList := []
  walmartList := []
  safewayUnknown := 0
  walmartUnknown := 0
  nextRef := 0
  queries := firstQueries 0 list
  timers := List.range list.length
  responding := true
  sent := []
  thrown := none

namespace State

variable (env : Env P)

def setVars (s : State P) (i : ℕ) (v : ItemVars P) : State P :=
  { s with vars := Function.update s.vars i v }

def issue (s : State P) (q : Query) : State P := { s with queries := s.queries ++ [q] }

def pushSafeway (s : State P) (e : Entry P) : State P :=
  { s with safewayList := s.safewayList ++ [e] }

def pushWalmart (s : State P) (e : Entry P) : State P :=
  { s with walmartList := s.walmartList ++ [e] }

/-- A new array `[name, price]`. -/
def newPair (s : State P) (name : String) (price : P) : State P × Entry P :=
  ({ s with nextRef := s.nextRef + 1 }, .pair s.nextRef name price)

/-! ### Callbacks -/

/-- The callback of `sql1`. -/
def onSafeway (s : State P) (i : ℕ) (result : List (Row P)) : State P :=
  match result with
  | [] => s
  | row :: _ => s.setVars i
      { s.vars i with
        inSafeway := true
        safewayTempPrice := row.ProductPrice
        safewayTempName := row.ProductName
        safewayCategory := row.Category }

/-- The callback of `sql2`. -/
def onWalmart (s : State P) (i : ℕ) (result : List (Row P)) : State P :=
  match result with
  | [] => s
  | row :: _ => s.setVars i
      { s.vars i with
        inWalmart := true
        walmartTempPrice := row.ProductPrice
        walmartTempName := row.ProductName }

/-- `values = findMostSimilar(target, result)` -/
def assignValues (s : State P) (target : String) (result : List (Row P)) : State P :=
  let (g, values) := findMostSimilar env.toLowerCase s.globals target result
  { s with globals := { g with values := values } }

/-- `toAdd = [values[0], values[1]]` -/
def assignToAdd (s : State P) (name : String) (price : P) : State P :=
  let (s, toAdd) := s.newPair name price
  { s with globals := { s.globals with toAdd := toAdd } }

variable [Add P]

/-- The callback of `sql3`. -/
def onSimilarWalmart (s : State P) (i : ℕ) (result : List (Row P)) : State P :=
  let s := s.assignValues env (s.vars i).safewayTempName result
  match s.globals.values with
  | .null => s
  | .values name price =>
      let s := { s with walmartPrice := s.walmartPrice + price }
      let s := s.assignToAdd name price
      s.pushWalmart s.globals.toAdd

/-- The callback of `sql4`. -/
def onSimilarSafeway (s : State P) (i : ℕ) (result : List (Row P)) : State P :=
  let s := s.assignValues env (s.vars i).walmartTempName result
  match s.globals.values with
  | .null => s
  | .values name price =>
      let s := { s with safewayPrice := s.safewayPrice + price }
      let s := s.assignToAdd name price
      s.pushSafeway s.globals.toAdd

/-- The callback of an item's timer. -/
def onTimer (s : State P) (i : ℕ) : State P :=
  let v := s.vars i
  if v.inSafeway && v.inWalmart then
    -- here the names are pushed without their prices
    let s := { s with safewayPrice := s.safewayPrice + v.safewayTempPrice }
    let s := s.pushSafeway (.name v.safewayTempName)
    let s := { s with walmartPrice := s.walmartPrice + v.walmartTempPrice }
    s.pushWalmart (.name v.walmartTempName)
  else if v.inSafeway then
    let s := { s with safewayPrice := s.safewayPrice + v.safewayTempPrice }
    let (s, e) := s.newPair v.safewayTempName v.safewayTempPrice
    let s := s.pushSafeway e
    s.issue ⟨.similarWalmart, i, sql3⟩
  else if v.inWalmart then
    let s := { s with walmartPrice := s.walmartPrice + v.walmartTempPrice }
    let (s, e) := s.newPair v.walmartTempName v.walmartTempPrice
    let s := s.pushWalmart e
    s.issue ⟨.similarSafeway, i, sql4 v.safewayCategory⟩
  else
    { s with
      safewayUnknown := s.safewayUnknown + 1
      walmartUnknown := s.walmartUnknown + 1 }

/-- The callback of a query. -/
def onQuery (s : State P) (q : Query) : Except String (List (Row P)) → State P
  | .error err => { s with thrown := some (.queryError err) }
  | .ok result => match q.kind with
      | .safeway => s.onSafeway q.item result
      | .walmart => s.onWalmart q.item result
      | .similarWalmart => s.onSimilarWalmart env q.item result
      | .similarSafeway => s.onSimilarSafeway env q.item result

/-- The array `info` as it is when the response timer fires. -/
def info (s : State P) : Info P :=
  ⟨s.safewayPrice, s.safewayList, s.safewayUnknown, s.walmartPrice, s.walmartList, s.walmartUnknown⟩

/-- The callback of the response timer. -/
def onResponse [Price P] (s : State P) : State P :=
  match convertToJson s.globals s.info with
  | none => { s with thrown := some .toFixed }
  | some (g, packet) => { s with globals := g, sent := s.sent ++ [packet] }

end State

/-- A callback: of the query at position `k` of those in flight, of an item's timer, or of the
response timer. -/
inductive Event where
  | query (k : ℕ)
  | timer (i : ℕ)
  | respond
deriving DecidableEq

/-- One callback.  After an exception has escaped, the process is gone. -/
def step [Add P] [Price P] (env : Env P) (s : State P) (e : Event) : Option (State P) :=
  if s.thrown.isSome then none
  else match e with
    | .query k => match s.queries[k]? with
        | some q =>
            some ({ s with queries := s.queries.eraseIdx k }.onQuery env q (env.query q.text))
        | none => none
    | .timer i =>
        if i ∈ s.timers then some ({ s with timers := s.timers.erase i }.onTimer i) else none
    | .respond => if s.responding then some ({ s with responding := false }.onResponse) else none

end EasyGrocery.Server
