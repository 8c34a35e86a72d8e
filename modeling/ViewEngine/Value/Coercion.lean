import ViewEngine.Decimal.Reader
import ViewEngine.Value.Codec

/-!
# Coercions

How a value is taken for a text, a number or a truth value. Authors write numbers as texts and the
other way round, so a coercion reads through the variant; where a value has no such form the answer is
none, never a failure.
-/

namespace ViewEngine.Value

/-- The text of an integer. -/
def intText (i : Int64) : String := String.ofList (Json.intText i.toInt)

def boolText (b : Bool) : String := if b then "true" else "false"

/-- The text of a string, number or boolean. Arrays, objects and null have none. -/
def asText? : Value → Option String
  | string s => some s
  | int i => some (intText i)
  | double d => some d.shownText
  | bool b => some (boolText b)
  | null | array _ | object _ => none

/-- A whole number: doubles lose their fraction, texts must be an integer numeral. -/
def asInt? : Value → Option Int64
  | int i => some i
  | double d => if d.isFinite then int64? d.truncate else none
  | string s => readInt64? s.toList
  | null | bool _ | array _ | object _ => none

/-- A double: whole numbers are rounded, texts must be a numeral. -/
def asDouble? : Value → Option Binary64
  | double d => some d
  | int i => some (Binary64.ofInt i.toInt)
  | string s => readBinary64? s.toList
  | null | bool _ | array _ | object _ => none

/-- A truth value: whole numbers are true unless zero, and the only true text is `true`. -/
def asBool? : Value → Option Bool
  | bool b => some b
  | int i => some (i != 0)
  | string s => some (s == "true")
  | null | double _ | array _ | object _ => none

/-- The text shown for a value: null is shown as nothing, arrays and objects as compact JSON. -/
def display : Value → String
  | string s => s
  | int i => intText i
  | double d => d.shownText
  | bool b => boolText b
  | null => ""
  | array items => (array items).toJson.text
  | object fields => (object fields).toJson.text

end ViewEngine.Value
