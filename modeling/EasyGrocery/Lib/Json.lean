import EasyGrocery.Lib.Transition
import Mathlib.Algebra.Order.Field.Rat

/-! # A JSON parser

The texts of RFC 8259, read by a pushdown machine one character at a time: `step` gives the
state after a character, or `none` when no valid text continues this way, so `parse` is total
and needs no fuel, and a text put together from pieces is parsed piece by piece
(`Guarded.run_append`).

Numbers are read as exact rationals.  A `\u` escape of a high surrogate waits for its low half;
a half that stays alone reads as U+FFFD, which is what it becomes when it is encoded again.
Of two members with one name the last one counts (`Json.get?`). -/

/-- A JSON value. -/
inductive Json where
  | null
  | bool (b : Bool)
  | num (q : ℚ)
  | str (s : String)
  | arr (js : List Json)
  | obj (ms : List (String × Json))

namespace Json

/-- The member `key` of an object; the last one when the name is repeated. -/
def get? (ms : List (String × Json)) (key : String) : Option Json :=
  (ms.reverse.find? fun m => m.1 == key).map (·.2)

/-! ### Numbers -/

/-- How far a number has been read: its digits `m` so far, `k` of them after the point. -/
inductive NumPhase where
  | minus
  | zero
  | int (m : ℕ)
  | dot (m : ℕ)
  | frac (m k : ℕ)
  | exp (m k : ℕ)
  | expSign (m k : ℕ) (neg : Bool)
  | expDigits (m k : ℕ) (neg : Bool) (e : ℕ)

structure Num where
  neg : Bool
  phase : NumPhase

def digitVal (c : Char) : ℕ := c.toNat - 48

/-- The number after one more character, if it belongs to it. -/
def NumPhase.step : NumPhase → Char → Option NumPhase
  | minus, c =>
      if c = '0' then some zero else if c.isDigit then some (int (digitVal c)) else none
  | zero, c =>
      if c = '.' then some (dot 0) else if c = 'e' ∨ c = 'E' then some (exp 0 0) else none
  | int m, c =>
      if c.isDigit then some (int (10 * m + digitVal c))
      else if c = '.' then some (dot m)
      else if c = 'e' ∨ c = 'E' then some (exp m 0) else none
  | dot m, c => if c.isDigit then some (frac (10 * m + digitVal c) 1) else none
  | frac m k, c =>
      if c.isDigit then some (frac (10 * m + digitVal c) (k + 1))
      else if c = 'e' ∨ c = 'E' then some (exp m k) else none
  | exp m k, c =>
      if c = '+' then some (expSign m k false)
      else if c = '-' then some (expSign m k true)
      else if c.isDigit then some (expDigits m k false (digitVal c)) else none
  | expSign m k neg, c => if c.isDigit then some (expDigits m k neg (digitVal c)) else none
  | expDigits m k neg e, c =>
      if c.isDigit then some (expDigits m k neg (10 * e + digitVal c)) else none

/-- The absolute value of a number that may end here. -/
def NumPhase.value : NumPhase → Option ℚ
  | zero => some 0
  | int m => some m
  | frac m k => some (m / 10 ^ k)
  | expDigits m k neg e => some (if neg then m / 10 ^ k / 10 ^ e else m / 10 ^ k * 10 ^ e)
  | _ => none

def Num.step (n : Num) (c : Char) : Option Num := (n.phase.step c).map fun p => ⟨n.neg, p⟩

def Num.value (n : Num) : Option ℚ := n.phase.value.map fun q => if n.neg then -q else q

/-! ### Strings -/

/-- How far an escape sequence has been read; `hex k n`: after `\u`, with `k + 1` digits to
come and the value `n` so far. -/
inductive Esc where
  | no
  | backslash
  | hex (k n : ℕ)
deriving DecidableEq

/-- A string being read; `high` is a high surrogate waiting for its low half. -/
structure Str where
  acc : List Char
  high : Option ℕ
  esc : Esc

def replacement : Char := Char.ofNat 0xFFFD

def isHigh (n : ℕ) : Bool := 0xD800 ≤ n && n < 0xDC00

def isLow (n : ℕ) : Bool := 0xDC00 ≤ n && n < 0xE000

/-- The character of a code unit that is not half of a pair. -/
def unitChar (n : ℕ) : Char := if isLow n then replacement else Char.ofNat n

/-- The characters read so far, with a lone high surrogate replaced. -/
def Str.flush (s : Str) : List Char :=
  match s.high with
  | none => s.acc
  | some _ => s.acc ++ [replacement]

/-- Add a UTF-16 code unit that was written as an escape. -/
def Str.pushUnit (s : Str) (n : ℕ) : Str :=
  match s.high with
  | none => if isHigh n then ⟨s.acc, some n, .no⟩ else ⟨s.acc ++ [unitChar n], none, .no⟩
  | some h =>
      if isLow n then
        ⟨s.acc ++ [Char.ofNat (0x10000 + (h - 0xD800) * 0x400 + (n - 0xDC00))], none, .no⟩
      else if isHigh n then ⟨s.flush, some n, .no⟩
      else ⟨s.flush ++ [unitChar n], none, .no⟩

/-- The code unit of a two-character escape. -/
def simpleEscape : Char → Option ℕ
  | '"' => some 0x22
  | '\\' => some 0x5C
  | '/' => some 0x2F
  | 'b' => some 8
  | 'f' => some 12
  | 'n' => some 10
  | 'r' => some 13
  | 't' => some 9
  | _ => none

def hexDigit (c : Char) : Option ℕ :=
  if c.isDigit then some (c.toNat - 48)
  else if 'a' ≤ c ∧ c ≤ 'f' then some (c.toNat - 87)
  else if 'A' ≤ c ∧ c ≤ 'F' then some (c.toNat - 55)
  else none

/-- The string after one more character other than its closing quote. -/
def Str.step (s : Str) (c : Char) : Option Str :=
  match s.esc with
  | .no =>
      if c = '\\' then some { s with esc := .backslash }
      else if c.toNat < 0x20 then none
      else some ⟨s.flush ++ [c], none, .no⟩
  | .backslash =>
      if c = 'u' then some { s with esc := .hex 3 0 } else (simpleEscape c).map s.pushUnit
  | .hex k n => (hexDigit c).map fun d =>
      match k with
      | 0 => s.pushUnit (16 * n + d)
      | k + 1 => { s with esc := .hex k (16 * n + d) }

/-! ### The machine -/

/-- An enclosing array or object: what it has so far, and for an object the name whose value
is being read. -/
inductive Frame where
  | elems (js : List Json)
  | member (ms : List (String × Json)) (key : String)

inductive Mode where
  | value
  | arrStart
  | objStart
  | objKey (ms : List (String × Json))
  /-- in a string: a member name after the members `ms`, or a value -/
  | str (key : Option (List (String × Json))) (s : Str)
  | colon (ms : List (String × Json)) (key : String)
  | afterElem (js : List Json)
  | afterMember (ms : List (String × Json))
  | lit (rest : List Char) (j : Json)
  | num (n : Num)
  | done (j : Json)

structure State where
  stack : List Frame
  mode : Mode

def isWs (c : Char) : Bool := c = ' ' || c = '\t' || c = '\n' || c = '\r'

/-- The state once the value `j` is complete. -/
def complete : List Frame → Json → State
  | [], j => ⟨[], .done j⟩
  | .elems js :: st, j => ⟨st, .afterElem (js ++ [j])⟩
  | .member ms key :: st, j => ⟨st, .afterMember (ms ++ [(key, j)])⟩

/-- The first character of a value. -/
def startValue (st : List Frame) (c : Char) : Option State :=
  if c = '{' then some ⟨st, .objStart⟩
  else if c = '[' then some ⟨st, .arrStart⟩
  else if c = '"' then some ⟨st, .str none ⟨[], none, .no⟩⟩
  else if c = 't' then some ⟨st, .lit ['r', 'u', 'e'] (.bool true)⟩
  else if c = 'f' then some ⟨st, .lit ['a', 'l', 's', 'e'] (.bool false)⟩
  else if c = 'n' then some ⟨st, .lit ['u', 'l', 'l'] .null⟩
  else if c = '-' then some ⟨st, .num ⟨true, .minus⟩⟩
  else (NumPhase.minus.step c).map fun p => ⟨st, .num ⟨false, p⟩⟩

/-- A character after a complete value. -/
def stepClosed : State → Char → Option State
  | ⟨st, .afterElem js⟩, c =>
      if isWs c then some ⟨st, .afterElem js⟩
      else if c = ',' then some ⟨.elems js :: st, .value⟩
      else if c = ']' then some (complete st (.arr js))
      else none
  | ⟨st, .afterMember ms⟩, c =>
      if isWs c then some ⟨st, .afterMember ms⟩
      else if c = ',' then some ⟨st, .objKey ms⟩
      else if c = '}' then some (complete st (.obj ms))
      else none
  | ⟨st, .done j⟩, c => if isWs c then some ⟨st, .done j⟩ else none
  | _, _ => none

/-- The closing quote of a string. -/
def closeStr (st : List Frame) (key : Option (List (String × Json))) (s : Str) : State :=
  match key with
  | none => complete st (.str (String.ofList s.flush))
  | some ms => ⟨st, .colon ms (String.ofList s.flush)⟩

/-- One character of the text. -/
def step : State → Char → Option State
  | ⟨st, .value⟩, c => if isWs c then some ⟨st, .value⟩ else startValue st c
  | ⟨st, .arrStart⟩, c =>
      if isWs c then some ⟨st, .arrStart⟩
      else if c = ']' then some (complete st (.arr []))
      else startValue (.elems [] :: st) c
  | ⟨st, .objStart⟩, c =>
      if isWs c then some ⟨st, .objStart⟩
      else if c = '}' then some (complete st (.obj []))
      else if c = '"' then some ⟨st, .str (some []) ⟨[], none, .no⟩⟩
      else none
  | ⟨st, .objKey ms⟩, c =>
      if isWs c then some ⟨st, .objKey ms⟩
      else if c = '"' then some ⟨st, .str (some ms) ⟨[], none, .no⟩⟩
      else none
  | ⟨st, .str key s⟩, c =>
      if s.esc = .no ∧ c = '"' then some (closeStr st key s)
      else (s.step c).map fun s' => ⟨st, .str key s'⟩
  | ⟨st, .colon ms key⟩, c =>
      if isWs c then some ⟨st, .colon ms key⟩
      else if c = ':' then some ⟨.member ms key :: st, .value⟩
      else none
  | ⟨st, .lit rest j⟩, c => match rest with
      | [] => none
      | [d] => if c = d then some (complete st j) else none
      | d :: ds => if c = d then some ⟨st, .lit ds j⟩ else none
  | ⟨st, .num n⟩, c => match n.step c with
      | some n' => some ⟨st, .num n'⟩
      -- a number ends where the next character does not belong to it
      | none => n.value.bind fun q => stepClosed (complete st (.num q)) c
  | s, c => stepClosed s c

/-- The value read, when the text may end here. -/
def finish : State → Option Json
  | ⟨_, .done j⟩ => some j
  | ⟨[], .num n⟩ => n.value.map .num
  | _ => none

def start : State := ⟨[], .value⟩

/-- The value of a JSON text; `none` when the text is not valid. -/
def parse (text : String) : Option Json := (Guarded.run step start text.toList).bind finish

end Json
