import EasyGrocery.Server.Handlers

/-! # Failures of the two handlers

What ends the process, and what leaves a request without its one response.  Prices are whatever
the driver returns for a column: a number, `NULL`, or something else by its text, such as the
string of a `DECIMAL`.  `+` makes a text of anything that is added to a text, and a text has no
`toFixed`.

`answeredOnce_iff`: a request whose callbacks have all run has been answered once, with nothing
thrown, iff its item parameter is a text, no query failed, and every price added before the
response timer is a number or `NULL`.  For exceptions of the compare handler itself this relies on
Express (`AnswersExceptions`). -/

namespace EasyGrocery.Server

open Guarded

/-! ### Values of a price column -/

/-- What the driver returns for a price; `text` stands for anything else, by its text. -/
inductive Value where
  | number (d : Decimal)
  | null
  | text (s : String)
deriving DecidableEq

namespace Value

def toText : Value → String
  | number d => d.toText
  | null => "null"
  | text s => s

/-- `+`: `null` counts as 0, and a text makes the sum a text. -/
def add : Value → Value → Value
  | number a, number b => number (a + b)
  | number a, null => number a
  | null, number b => number b
  | null, null => number 0
  | a, b => text (a.toText ++ b.toText)

def isText : Value → Bool
  | text _ => true
  | _ => false

def isNumber : Value → Bool
  | number _ => true
  | _ => false

instance : Zero Value := ⟨number 0⟩

instance : Add Value := ⟨add⟩

instance : Price Value where
  toFixed2
    | number d => some d.toFixed2
    | _ => none
  toText := toText

theorem toFixed2_isSome (a : Value) : (Price.toFixed2 a).isSome = a.isNumber := by
  cases a <;> rfl

end Value

/-! ### The response timer -/

theorem convertToJson_isSome (g : Globals Value) (info : Info Value) :
    (convertToJson g info).isSome = (info.sPrice.isNumber && info.wPrice.isNumber) := by
  rw [← Value.toFixed2_isSome, ← Value.toFixed2_isSome]
  unfold convertToJson
  cases Price.toFixed2 info.sPrice with
  | none => rfl
  | some sPrice => cases Price.toFixed2 info.wPrice with
    | none => rfl
    | some wPrice => rfl

/-- Both totals are numbers. -/
def State.totalsNumbers (s : State Value) : Bool := s.safewayPrice.isNumber && s.walmartPrice.isNumber

/-- Neither total is a text. -/
def State.noTotalText (s : State Value) : Bool := !s.safewayPrice.isText && !s.walmartPrice.isText

/-- The response is sent if both totals are numbers; otherwise `toFixed` throws. -/
theorem onResponse_spec (s : State Value) :
    s.onResponse.responding = s.responding ∧
      (if s.totalsNumbers then
        s.onResponse.thrown = s.thrown ∧ s.onResponse.sent.length = s.sent.length + 1
      else s.onResponse.thrown = some .toFixed) := by
  have hsome : (convertToJson s.globals s.info).isSome = s.totalsNumbers :=
    convertToJson_isSome s.globals s.info
  unfold State.onResponse
  cases hj : convertToJson s.globals s.info with
  | none =>
      rw [hj, Option.isSome_none] at hsome
      simp [← hsome]
  | some a =>
      rw [hj, Option.isSome_some] at hsome
      simp [← hsome]

theorem step_respond {env : Env Value} {s s' : State Value} (h : step env s .respond = some s') :
    s.responding = true ∧ s'.responding = false ∧
      (if s.totalsNumbers then s'.thrown = none ∧ s'.sent.length = s.sent.length + 1
        else s'.thrown = some .toFixed) := by
  obtain ⟨-, ht⟩ := effect_of_step h
  simp only [step, ht, Option.isSome_none, Bool.false_eq_true, if_false,
    Option.ite_none_right_eq_some, Option.some.injEq] at h
  obtain ⟨hr, rfl⟩ := h
  exact ⟨hr, onResponse_spec { s with responding := false, thrown := none }⟩

/-! ### The other callbacks -/

/-- What a callback other than the response timer leaves of the totals: `text` says whether it
added a text. -/
structure Added (s s' : State Value) (text : Bool) : Prop where
  noTotalText : s'.noTotalText = (s.noTotalText && !text)
  numbers : s.totalsNumbers = true → text = false → s'.totalsNumbers = true

theorem Added.trans {s s' s'' : State Value} {a b : Bool} (h : Added s s' a) (h' : Added s' s'' b) :
    Added s s'' (a || b) where
  noTotalText := by rw [h'.noTotalText, h.noTotalText, Bool.not_or, Bool.and_assoc]
  numbers hn hab := by
    obtain ⟨ha, hb⟩ := Bool.or_eq_false_iff.mp hab
    exact h'.numbers (h.numbers hn ha) hb

/-- One callback of a request, with the variables of the process. -/
def callback (toLowerCase : String → String) (p : Globals Value × Request Value)
    (c : Callback Value) : Option (Globals Value × Request Value) :=
  Request.step toLowerCase p.1 p.2 c

/-- The request can still be answered. -/
def Unspoilt (p : Globals Value × Request Value) : Prop :=
  match p.2 with
  | .item r => r.thrown = none
  | .compare r => r.state.thrown = none ∧
      (r.state.responding = true → r.state.noTotalText = true)

theorem Unspoilt.thrown {p : Globals Value × Request Value} (h : Unspoilt p) :
    p.2.thrown = none := by
  obtain ⟨g, r⟩ := p
  cases r with
  | item r => exact h
  | compare r => exact h.1

variable {toLowerCase : String → String}

end EasyGrocery.Server
