import EasyGrocery.Lib.Json

/-! # The string operations of the server script

A JavaScript string is a sequence of UTF-16 code units; its length and its elements are counted
in those. -/

namespace EasyGrocery.Server

/-- The code units of a character. -/
def units (c : Char) : List ℕ :=
  if c.toNat < 0x10000 then [c.toNat]
  else [0xD800 + (c.toNat - 0x10000) / 0x400, 0xDC00 + (c.toNat - 0x10000) % 0x400]

def utf16 (s : String) : List ℕ := s.toList.flatMap units

/-- `s.length` -/
def length (s : String) : ℕ := (utf16 s).length

/-- The text of `s[i]`.  Half of a surrogate pair is sent as U+FFFD. -/
def charAt (s : String) (i : ℕ) : String :=
  match (utf16 s)[i]? with
  | none => "undefined"
  | some n => String.ofList [if Json.isHigh n || Json.isLow n then Json.replacement else Char.ofNat n]

/-- `s.split(" ")` -/
def split (s : String) : List String := (s.toList.splitOn ' ').map String.ofList

example : length "a😀" = 3 ∧ charAt "a😀" 0 = "a" ∧ charAt "a" 1 = "undefined" := by decide +kernel

end EasyGrocery.Server
