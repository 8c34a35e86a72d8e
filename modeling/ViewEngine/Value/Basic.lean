import ViewEngine.Binary64.Basic
import ViewEngine.Table

/-!
# Values

The one value type of documents and contexts: JSON's data with whole numbers and doubles kept apart.
Equality (`Value.equal`) compares variant by variant, doubles by their number; so a double that is not
a number differs from itself, and a whole number never equals a double.
-/

namespace ViewEngine

/-- A value. -/
inductive Value where
  | null
  | bool (b : Bool)
  | int (i : Int64)
  | double (d : Binary64)
  | string (s : String)
  | array (items : List Value)
  | object (fields : List (String × Value))
deriving Inhabited

/-- Values by key: the fields of an object, the bindings of a scope, the props of a node. -/
abbrev Fields := Table Value

namespace Value

/-- The name of a value's variant. -/
def typeName : Value → String
  | null => "Null"
  | bool _ => "Bool"
  | int _ => "Int"
  | double _ => "Double"
  | string _ => "String"
  | array _ => "Array"
  | object _ => "Object"

def isNull : Value → Bool
  | null => true
  | _ => false

/-- The text of a string value. -/
def string? : Value → Option String
  | string s => some s
  | _ => none

def array? : Value → Option (List Value)
  | array items => some items
  | _ => none

def object? : Value → Option Fields
  | object fields => some fields
  | _ => none

mutual

/-- Equality of values, doubles compared as numbers. -/
def equal : Value → Value → Bool
  | null, null => true
  | bool a, bool b => a == b
  | int a, int b => a == b
  | double a, double b => a.equal b
  | string a, string b => a == b
  | array as, array bs => equalItems as bs
  | object as, object bs => equalFields as bs
  | _, _ => false

def equalItems : List Value → List Value → Bool
  | [], [] => true
  | a :: as, b :: bs => equal a b && equalItems as bs
  | _, _ => false

def equalFields : List (String × Value) → List (String × Value) → Bool
  | [], [] => true
  | (k, a) :: as, (l, b) :: bs => k == l && equal a b && equalFields as bs
  | _, _ => false

end

/-- Absent and null are empty, and so are texts, arrays and objects without elements. Numbers and
booleans never are. -/
def isEmpty : Option Value → Bool
  | none | some null => true
  | some (string s) => s.isEmpty
  | some (array items) => items.isEmpty
  | some (object fields) => fields.isEmpty
  | some _ => false

/-- Absent, null, false, zero and what is empty are not truthy; everything else is. -/
def isTruthy : Option Value → Bool
  | none | some null => false
  | some (bool b) => b
  | some (int i) => i != 0
  | some (double d) => !d.equal Binary64.zero
  | some (string s) => !s.isEmpty
  | some (array items) => !items.isEmpty
  | some (object fields) => !fields.isEmpty

end Value

end ViewEngine
