import ViewEngine.Json.Printer
import ViewEngine.Json.Reader
import ViewEngine.Value.Basic

/-!
# Values and JSON

Values are read from JSON text (`decode?`) and written as compact JSON text (`encode`). Reading
refuses what is not well formed or holds an unreadable part. Writing refuses doubles that are not
finite, which JSON cannot carry, and names the first. The conversions to and from `Json` are total:
`toJson` puts null where there is no finite double.
-/

namespace ViewEngine

namespace Value

/-- Integers beyond 64 signed bits are doubles. -/
def ofInt (i : Int) : Value :=
  match int64? i with
  | some i => int i
  | none => double (Binary64.ofInt i)

mutual

/-- The value of a datum; unreadable parts become null. -/
def ofJson : Json → Value
  | .null => null
  | .bool b => bool b
  | .int i => ofInt i
  | .double d => double d
  | .string s => string s
  | .array items => array (ofJsonItems items)
  | .object members => object (Table.ofList (ofJsonMembers members))
  | .unreadable => null

def ofJsonItems : List Json → List Value
  | [] => []
  | j :: rest => ofJson j :: ofJsonItems rest

def ofJsonMembers : List (String × Json) → List (String × Value)
  | [] => []
  | (key, j) :: rest => (key, ofJson j) :: ofJsonMembers rest

end

mutual

/-- The value of a datum, if every part of it is readable. -/
def read? : Json → Option Value
  | .null => some null
  | .bool b => some (bool b)
  | .int i => some (ofInt i)
  | .double d => some (double d)
  | .string s => some (string s)
  | .array items => (readItems? items).map array
  | .object members => (readMembers? members).map fun fields => object (Table.ofList fields)
  | .unreadable => none

def readItems? : List Json → Option (List Value)
  | [] => some []
  | j :: rest => do
    let v ← read? j
    let rest ← readItems? rest
    pure (v :: rest)

def readMembers? : List (String × Json) → Option (List (String × Value))
  | [] => some []
  | (key, j) :: rest => do
    let v ← read? j
    let rest ← readMembers? rest
    pure ((key, v) :: rest)

end

mutual

/-- The datum of a value, with null for a double that is not finite. -/
def toJson : Value → Json
  | null => .null
  | bool b => .bool b
  | int i => .int i.toInt
  | double d => if d.isFinite then .double d else .null
  | string s => .string s
  | array items => .array (toJsonItems items)
  | object fields => .object (toJsonMembers fields)

def toJsonItems : List Value → List Json
  | [] => []
  | v :: rest => toJson v :: toJsonItems rest

def toJsonMembers : List (String × Value) → List (String × Json)
  | [] => []
  | (key, v) :: rest => (key, toJson v) :: toJsonMembers rest

end

/-! ## Text -/

/-- The value that bytes spell. -/
def decode? [NumberReader] (bytes : List UInt8) : Option Value := (Json.read? bytes).bind read?

mutual

/-- The compact text of a value. -/
def compact : Value → List Char
  | null => "null".toList
  | bool b => if b then "true".toList else "false".toList
  | int i => Json.intText i.toInt
  | double d => Json.doubleText d
  | string s => Json.quoted s
  | array [] => ['[', ']']
  | array (v :: rest) => '[' :: compact v ++ compactItems rest
  | object [] => ['{', '}']
  | object ((key, v) :: rest) => '{' :: Json.quoted key ++ ':' :: compact v ++ compactFields rest

/-- The items of an array after the first, and its end. -/
def compactItems : List Value → List Char
  | [] => [']']
  | v :: rest => ',' :: compact v ++ compactItems rest

/-- The fields of an object after the first, and its end. -/
def compactFields : List (String × Value) → List Char
  | [] => ['}']
  | (key, v) :: rest => ',' :: Json.quoted key ++ ':' :: compact v ++ compactFields rest

end

mutual

/-- The first double, in the order of the text, that is not finite. -/
def firstNonFinite? : Value → Option Binary64
  | double d => if d.isFinite then none else some d
  | array items => firstNonFiniteItem? items
  | object fields => firstNonFiniteField? fields
  | _ => none

def firstNonFiniteItem? : List Value → Option Binary64
  | [] => none
  | v :: rest => (firstNonFinite? v).or (firstNonFiniteItem? rest)

def firstNonFiniteField? : List (String × Value) → Option Binary64
  | [] => none
  | (_, v) :: rest => (firstNonFinite? v).or (firstNonFiniteField? rest)

end

/-- A value cannot be written as JSON. -/
structure NonFinite where
  /-- The first double that is not finite. -/
  double : Binary64

/-- The wording of a refusal to write. -/
def NonFinite.message (e : NonFinite) : String :=
  "cannot encode non-finite number " ++
    (if e.double.isNaN then "NaN" else if e.double.negative then "-inf" else "inf")

/-- The compact JSON text of a value without infinite doubles and doubles that are not numbers. -/
def encode (v : Value) : Except NonFinite String :=
  match v.firstNonFinite? with
  | some d => .error { double := d }
  | none => .ok (String.ofList v.compact)

end Value

end ViewEngine
