import EasyGrocery.Lib.Decimal
import EasyGrocery.Server.Strings

/-! # Values of the server script (`eg_server.js`)

Rows, list entries and the variables the script never declares.  Those are one set for the
whole process, so every function that assigns one takes the set and returns it.

The type `P` of prices stays open: the script adds prices with `+`, and turns them into texts
(`Price`). -/

namespace EasyGrocery.Server

/-! ### Prices and rows -/

/-- What is done with a price besides `+`. -/
class Price (P : Type) where
  /-- `toFixed(2)`; `none` when the value has no such method -/
  toFixed2 : P → Option String
  /-- the text of the value in a concatenation -/
  toText : P → String

instance : Price Decimal := ⟨fun d => some d.toFixed2, Decimal.toText⟩

/-- A row of a query result.  `Category` is read only where the query selects it. -/
structure Row (P : Type) where
  ProductName : String
  ProductPrice : P
  Category : String
deriving DecidableEq

/-! ### Entries of the two lists -/

/-- An element of `safewayList` or `walmartList`: a name alone, or the array `[name, price]`,
which has an identity. -/
inductive Entry (P : Type) where
  | name (s : String)
  | pair (ref : ℕ) (name : String) (price : P)
deriving DecidableEq

namespace Entry

variable {P : Type}

/-- The text of `item[0]`; of a name alone this is its first character. -/
def at0 : Entry P → String
  | name s => charAt s 0
  | pair _ n _ => n

/-- The text of `item[1]`. -/
def at1 [Price P] : Entry P → String
  | name s => charAt s 1
  | pair _ _ price => Price.toText price

/-- `===`: strings by value, arrays by identity. -/
def strictEq : Entry P → Entry P → Bool
  | name s, name t => s == t
  | pair r _ _, pair r' _ _ => r == r'
  | _, _ => false

end Entry

/-- What `findMostSimilar` returns: `"NULL"` or `[simName, simPrice]`. -/
inductive MostSimilar (P : Type) where
  | null
  | values (simName : String) (simPrice : P)
deriving DecidableEq

/-- The variables assigned without a declaration. -/
structure Globals (P : Type) where
  /-- in the item handler -/
  words : List String
  /-- in the compare handler -/
  values : MostSimilar P
  toAdd : Entry P
  /-- in `convertToJson`, the last two by their texts -/
  json : String
  name : String
  cost : String
  /-- in `compareSimilarity` -/
  lowerTarget : String
  lowerOther : String
  targetWords : List String
  otherWords : List String
deriving DecidableEq

/-- Some values to start from; no handler reads a variable before it assigns it. -/
def Globals.init {P : Type} : Globals P := ⟨[], .null, .name "", "", "", "", "", "", [], []⟩

end EasyGrocery.Server
