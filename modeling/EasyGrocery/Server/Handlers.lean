import EasyGrocery.Server.CompareSteps
import EasyGrocery.Server.Request

/-! # The two handlers (`eg_server.js`)

A request from its arrival on: what the synchronous part of its handler leaves behind, and what
each of its callbacks does.  The answers of the database come with the callbacks, so they may be
anything.  The variables of the process are handed to every part and taken from it; what is kept
of a request has none of them.

The item handler catches its own exceptions and answers nothing.  The compare handler leaves its own
to Express; how often Express answers them is a parameter (`Request.responses`). -/

namespace EasyGrocery.Server

variable {P : Type}

/-- What a client sends: the item parameter, `none` when it is missing or not a text; or the array
posted for a comparison. -/
inductive Call where
  | item (item : Option String)
  | compare (body : List Json)

/-- A request to the item handler. -/
structure ItemRequest where
  /-- the text of the query in flight -/
  query : Option String
  /-- the results passed to `res.json` -/
  sent : List (List String)
  thrown : Option Thrown
deriving DecidableEq

/-- A request to the compare handler. -/
structure CompareRequest (P : Type) where
  state : State P
  /-- the handler has thrown before it returned -/
  failed : Bool

inductive Request (P : Type) where
  | item (r : ItemRequest)
  | compare (r : CompareRequest P)

/-- A callback of a request, with the answer of the database: of the item handler's query, of the
compare query at position `k` of those in flight, of an item's timer or the response timer. -/
inductive Callback (P : Type) where
  | result (outcome : Except String (List String))
  | query (k : ℕ) (outcome : Except String (List (Row P)))
  | timer (i : ℕ)
  | respond

/-- A callback of a comparison: what the database answers, if it is one of a query, and the event
of the handler's machine. -/
def Callback.event : Callback P → Option (Except String (List (Row P)) × Event)
  | .result _ => none
  | .query k outcome => some (outcome, .query k)
  | .timer i => some (.ok [], .timer i)
  | .respond => some (.ok [], .respond)

/-! ### The item handler -/

/-- The synchronous part of the item handler. -/
def onItem (g : Globals P) : Option String → Globals P × ItemRequest
  -- `item.split` throws
  | none => (g, ⟨none, [], none⟩)
  | some item =>
      let sql := "SELECT productName FROM Safeway where productName like '%"
      let g := { g with words := split item }
      let sql := appendWords sql g.words
      let sql := sql ++ "'"
      let sql := sql ++ " UNION "
      let sql := sql ++ "SELECT productName FROM Walmart where productName like '%"
      let g := { g with words := split item }
      let sql := appendWords sql g.words
      let sql := sql ++ "'"
      (g, ⟨some sql, [], none⟩)

/-- The callback of its query. -/
def ItemRequest.onResult (r : ItemRequest) : Except String (List String) → ItemRequest
  | .error err => { r with query := none, thrown := some (.queryError err) }
  | .ok result => { r with query := none, sent := r.sent ++ [result] }

/-- The query is the one of `itemSql`, whatever `words` was. -/
theorem onItem_snd (g : Globals P) (item : Option String) :
    (onItem g item).2 = ⟨item.map itemSql, [], none⟩ := by
  cases item with
  | none => rfl
  | some item => rfl

/-! ### The compare handler -/

mutual

/-- The text of a value in a template literal, `none` when it has none: an object with a
`toString` of its own cannot be converted.  `numText` is the text of a number. -/
def textOf (numText : ℚ → String) : Json → Option String
  | .null => some "null"
  | .bool b => some (if b then "true" else "false")
  | .num q => some (numText q)
  | .str s => some s
  | .arr js => (elementTexts numText js).map (String.intercalate ",")
  | .obj ms => if (Json.get? ms "toString").isSome then none else some "[object Object]"

/-- The texts that `join` puts together. -/
def elementTexts (numText : ℚ → String) : List Json → Option (List String)
  | [] => some []
  | j :: js => do
      let text ← match j with
        | .null => some ""
        | _ => textOf numText j
      let texts ← elementTexts numText js
      some (text :: texts)

end

/-- The text of an item; `none` as a value is `undefined`. -/
def itemText (numText : ℚ → String) : Option Json → Option String
  | none => some "undefined"
  | some item => textOf numText item

/-- How far `forEach` gets: the texts of the items whose queries are issued, and whether the next
one threw. -/
def forEachItem (numText : ℚ → String) : List (Option Json) → List String × Bool
  | [] => ([], false)
  | item :: list => match itemText numText item with
      | none => ([], true)
      | some text =>
          let (texts, threw) := forEachItem numText list
          (text :: texts, threw)

/-- The synchronous part of the compare handler. -/
def onCompare [Zero P] (numText : ℚ → String) (body : List Json) : CompareRequest P :=
  match requestList body with
  | none => ⟨{ State.start .init [] with responding := false }, true⟩
  | some list => match forEachItem numText list with
      | (texts, true) =>
          -- the items before have their callbacks, but no response timer is set
          ⟨{ State.start .init texts with responding := false }, true⟩
      | (texts, false) => ⟨.start .init texts, false⟩

/-- What is kept of a state between callbacks. -/
def State.local (s : State P) : State P := { s with globals := .init }

/-! ### Callbacks -/

section step

variable [Add P] [Price P] (toLowerCase : String → String)

/-- One callback of a comparison, in a process with the variables `g`. -/
def CompareRequest.step (g : Globals P) (r : CompareRequest P)
    (outcome : Except String (List (Row P))) (e : Event) : Option (Globals P × CompareRequest P) :=
  (Server.step ⟨toLowerCase, fun _ => outcome⟩ { r.state with globals := g } e).map fun s =>
    (s.globals, { r with state := s.local })

/-- One callback of a request. -/
def Request.step (g : Globals P) : Request P → Callback P → Option (Globals P × Request P)
  | .item r, .result outcome =>
      if r.query.isSome ∧ r.thrown = none then some (g, .item (r.onResult outcome)) else none
  | .item _, _ => none
  | .compare r, c => c.event.bind fun (outcome, e) =>
      (r.step toLowerCase g outcome e).map fun (g, r) => (g, .compare r)

end step

/-- The synchronous part of the handler that a call goes to. -/
def Request.arrive [Zero P] (numText : ℚ → String) (g : Globals P) : Call → Globals P × Request P
  | .item query => ((onItem g query).1, .item (onItem g query).2)
  | .compare body => (g, .compare (onCompare numText body))

namespace Request

/-- An exception has escaped from a callback. -/
def thrown : Request P → Option Thrown
  | .item r => r.thrown
  | .compare r => r.state.thrown

/-- The responses sent; `express` is how many Express sends when the handler has thrown. -/
def responses (express : ℕ) : Request P → ℕ
  | .item r => r.sent.length
  | .compare r => r.state.sent.length + if r.failed then express else 0

/-- A callback is still to come. -/
def Pending : Request P → Prop
  | .item r => r.query ≠ none
  | .compare r => r.state.queries ≠ [] ∨ r.state.timers ≠ [] ∨ r.state.responding = true

end Request

end EasyGrocery.Server
