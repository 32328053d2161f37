import EasyGrocery.App.Firebase
import EasyGrocery.Lib.Json

/-! # The price page (`prices.dart`)

What `PricesState` sends to the compare service and how it reads the answer.  `_groceryList`
comes from the constructor, and the home page passes none, so it is `null` until
`initializeVars` finds a stored list.  A Dart exception is `none`. -/

namespace EasyGrocery.Prices

open Firebase

/-- The fields of `PricesState` that hold the list; `none` is `null`. -/
structure State where
  groceryList : Option (List String)
  items : List String
  mounted : Bool
deriving DecidableEq

/-- The state as the home page creates it. -/
def State.init : State := ⟨none, [], true⟩

/-- The callback of `once().then` in `initializeVars`. -/
def State.onSnapshot (s : State) : Option Items → State
  | some value =>
      let s := { s with items := value.1 }
      if !s.mounted then s else { s with groceryList := some value.1 }
  | none => { s with items := [] }

/-- The loop of `encodeListAsJson`, from the text `jsonlist` on. -/
def encodeItems (last : Option String) (jsonlist : String) (groceryList : List String) : String :=
  groceryList.foldl (fun jsonlist item =>
    let jsonlist := jsonlist ++ "\x7b\"itemname\":\""
    let jsonlist := jsonlist ++ item
    let jsonlist := jsonlist ++ "\"\x7d"
    -- the item is compared with the last one by value
    if some item ≠ last then jsonlist ++ ", " else jsonlist) jsonlist

def encodeListAsJson (s : State) : Option String :=
  -- `_groceryList.length` throws on `null`
  s.groceryList.map fun groceryList =>
    let lastIndex := groceryList.length - 1
    encodeItems groceryList[lastIndex]? "[" groceryList ++ "]"

/-- The class `Items` of `shoplist.dart`, as it is filled here. -/
structure Item where
  name : Option String
  price : ℚ
deriving DecidableEq

/-- One round of the loop in `generateItemList`. -/
def itemOf : Json → Option Item
  | .obj part => do
      let name ← match Json.get? part "name" with
        | none => some none
        | some .null => some none
        | some (.str name) => some (some name)
        | _ => none
      match Json.get? part "cost" with
        | some (.num cost) => some ⟨name, cost⟩
        | _ => none
  | _ => none

def generateItemList : Json → Option (List Item)
  | .arr jsonitems => jsonitems.mapM itemOf
  -- a text or a map has a length too, but no element with a name and a cost
  | .str s => if s = "" then some [] else none
  | .obj ms => if ms = [] then some [] else none
  | _ => none

/-- The answer `priceCompare` hands to the compare page. -/
structure PriceCompareReturn where
  safewayCost : ℚ
  safewayList : List Item
  walmartCost : ℚ
  walmartList : List Item
deriving DecidableEq

/-- What `priceCompare` reads of one store. -/
def storeOf : Json → Option (ℚ × List Item)
  | .obj store => do
      let cost ← match Json.get? store "cost" with
        | some (.num cost) => some cost
        | _ => none
      let list ← generateItemList (← Json.get? store "items")
      some (cost, list)
  | _ => none

/-- The part of `priceCompare` after the answer has arrived. -/
def readResponse (body : String) : Option PriceCompareReturn := do
  match ← Json.parse body with
    | .arr (safeway :: walmart :: _) =>
        let (sCost, sList) ← storeOf safeway
        let (wCost, wList) ← storeOf walmart
        some ⟨sCost, sList, wCost, wList⟩
    | _ => none

end EasyGrocery.Prices
