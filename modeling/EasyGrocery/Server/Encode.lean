import EasyGrocery.Server.Values

/-! # The answer of the compare service (`convertToJson`)

The answer is glued together as a text.  The loop over a list puts a comma after every element
that is not the last one, compared with `===`; the count of unknown items is printed from
Walmart's count in both halves. -/

namespace EasyGrocery.Server

variable {P : Type}

/-- The array `info`. -/
structure Info (P : Type) where
  sPrice : P
  sList : List (Entry P)
  sUnk : ℕ
  wPrice : P
  wList : List (Entry P)
  wUnk : ℕ
deriving DecidableEq

/-- One round of the loops over `sList` and `wList`. -/
def itemToJson [Price P] (last : Option (Entry P)) (g : Globals P) (jsonStr : String)
    (item : Entry P) : Globals P × String :=
  let g := { g with name := item.at0 }
  let g := { g with cost := item.at1 }
  let g := { g with json := "\x7b \"name\" : \"" ++ g.name ++ "\", \"cost\" : " ++ g.cost ++ "\x7d" }
  let g := if last.any item.strictEq then g else { g with json := g.json ++ "," }
  (g, jsonStr ++ g.json)

def itemsToJson [Price P] (last : Option (Entry P)) (g : Globals P) (jsonStr : String)
    (list : List (Entry P)) : Globals P × String :=
  list.foldl (fun (g, jsonStr) item => itemToJson last g jsonStr item) (g, jsonStr)

/-- The text of a count. -/
def countText (n : ℕ) : String := (⟨n, 0⟩ : Decimal).toText

/-- `convertToJson`; `none` when a total has no `toFixed`. -/
def convertToJson [Price P] (g : Globals P) (info : Info P) : Option (Globals P × String) := do
  let sPrice ← Price.toFixed2 info.sPrice
  let sList := info.sList
  let wPrice ← Price.toFixed2 info.wPrice
  let wList := info.wList
  let wUnk := info.wUnk
  let jsonStr := ""
  let jsonStr := jsonStr ++ "[\x7b"
  let jsonStr := jsonStr ++ "\"cost\" : "
  let jsonStr := jsonStr ++ sPrice
  let jsonStr := jsonStr ++ ","
  let jsonStr := jsonStr ++ "\"items\" : ["
  let (g, jsonStr) := itemsToJson sList[sList.length - 1]? g jsonStr sList
  let jsonStr := jsonStr ++ "],"
  let jsonStr := jsonStr ++ "\"unknown\" : "
  -- `sUnk` is never printed
  let jsonStr := jsonStr ++ countText wUnk
  let jsonStr := jsonStr ++ "\x7d,"
  let jsonStr := jsonStr ++ "\x7b"
  let jsonStr := jsonStr ++ "\"cost\" : "
  let jsonStr := jsonStr ++ wPrice
  let jsonStr := jsonStr ++ ","
  let jsonStr := jsonStr ++ "\"items\" : ["
  let (g, jsonStr) := itemsToJson wList[wList.length - 1]? g jsonStr wList
  let jsonStr := jsonStr ++ "],"
  let jsonStr := jsonStr ++ "\"unknown\" : "
  let jsonStr := jsonStr ++ countText wUnk
  let jsonStr := jsonStr ++ "\x7d]"
  some (g, jsonStr)

end EasyGrocery.Server
