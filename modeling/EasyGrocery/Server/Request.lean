import EasyGrocery.Lib.Json

/-! # Decoding a compare request (`eg_server.js`)

`bodyParser.json` parses the body; the handler then collects `req.body[i].itemname` for each
element.  `none` as an element is `undefined`, and reading a property of `null` throws. -/

namespace EasyGrocery.Server

/-- `value.itemname` -/
def itemname : Json → Option (Option Json)
  | .null => none
  | .obj ms => some (Json.get? ms "itemname")
  | _ => some none

/-- The list the handler builds from the array it received. -/
def requestList (body : List Json) : Option (List (Option Json)) := body.mapM itemname

end EasyGrocery.Server
