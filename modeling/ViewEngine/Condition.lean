import ViewEngine.Context

/-!
# Conditions

When a node is visible. A condition is a test of a path (`$.a | exists`, `$.a | empty`,
`$.a | !empty`), a comparison of two operands, or a path whose value must be truthy; any other text is
false. Of several comparison signs in a text the first in the order of `Comparison.all` counts, not
the leftmost.
-/

namespace ViewEngine

/-- A comparison sign. -/
inductive Comparison where
  | equal
  | notEqual
  | atLeast
  | atMost
  | above
  | below
deriving DecidableEq, Repr

namespace Comparison

/-- In the order in which they are looked for. -/
def all : List Comparison := [equal, notEqual, atLeast, atMost, above, below]

/-- The sign between single spaces. -/
def sign : Comparison → List Char
  | equal => " == ".toList
  | notEqual => " != ".toList
  | atLeast => " >= ".toList
  | atMost => " <= ".toList
  | above => " > ".toList
  | below => " < ".toList

/-- Loose equality: values with a text are equal if their texts are, two absent operands are equal. -/
def looselyEqual : Option Value → Option Value → Bool
  | none, none => true
  | some a, some b =>
    match a.asText?, b.asText? with
    | some s, some t => s == t
    | _, _ => a.equal b
  | _, _ => false

/-- The order of the operands as numbers. Without two numbers they count as equal. -/
def numericOrder (a b : Option Value) : Ordering :=
  match a.bind Value.asDouble?, b.bind Value.asDouble? with
  | some x, some y => if x.less y then .lt else if y.less x then .gt else .eq
  | _, _ => .eq

/-- The comparison holds of the operands. -/
def holds (comparison : Comparison) (a b : Option Value) : Bool :=
  match comparison with
  | equal => looselyEqual a b
  | notEqual => !looselyEqual a b
  | atLeast => numericOrder a b != .lt
  | atMost => numericOrder a b != .gt
  | above => numericOrder a b == .gt
  | below => numericOrder a b == .lt

end Comparison

/-- What a condition says. -/
inductive Condition where
  /-- The path leads to a value that is not null. -/
  | present (path : List Char)
  | empty (path : List Char)
  | notEmpty (path : List Char)
  | compare (comparison : Comparison) (left right : List Char)
  | truthy (path : List Char)
  | never

namespace Condition

/-- A test of a path. -/
def readTest? (cs : List Char) : Option Condition :=
  match splitAt pipe cs with
  | path :: op :: _ =>
    match String.ofList (trim op) with
    | "exists" => some (present (trim path))
    | "empty" => some (empty (trim path))
    | "!empty" => some (notEmpty (trim path))
    | _ => none
  | _ => none

/-- A comparison with one of the given signs. -/
def readComparison? (cs : List Char) (signs : List Comparison) : Option Condition :=
  signs.findSome? fun comparison =>
    (splitFirst? comparison.sign cs).map fun (left, right) =>
      compare comparison (trim left) (trim right)

/-- What a text says as a condition. -/
def read (condition : List Char) : Condition :=
  let cs := trim condition
  match readTest? cs with
  | some test => test
  | none =>
    match readComparison? cs Comparison.all with
    | some comparison => comparison
    | none => if cs.head? = some '$' then truthy cs else never

/-- The text between single quotes; a lone quote opens and closes itself. -/
def quotedText? (operand : List Char) : Option (List Char) :=
  match operand with
  | '\'' :: rest => if operand.getLast? = some '\'' then some rest.dropLast else none
  | _ => none

/-- The value of an operand that is not a binding: a text in single quotes, an integer, a double,
`true`, `false`, or the operand itself as a text. -/
def literal (operand : List Char) : Value :=
  match quotedText? operand with
  | some text => .string (String.ofList text)
  | none =>
    match readInt64? operand with
    | some i => .int i
    | none =>
      match readBinary64? operand with
      | some d => .double d
      | none =>
        if operand = "true".toList then .bool true
        else if operand = "false".toList then .bool false
        else .string (String.ofList operand)

/-- The value of an operand, absent if it is a binding that leads nowhere. -/
def operand (c : Context) (cs : List Char) : Except Fault (Option Value) :=
  if cs.head? = some '$' then c.resolve cs else .ok (some (literal cs))

/-- The condition holds in a context. -/
def holds (condition : Condition) (c : Context) : Except Fault Bool :=
  match condition with
  | present path => (c.resolve path).map fun v => !(v.all Value.isNull)
  | empty path => (c.resolve path).map Value.isEmpty
  | notEmpty path => (c.resolve path).map fun v => !Value.isEmpty v
  | compare comparison left right => do
    let a ← operand c left
    let b ← operand c right
    pure (comparison.holds a b)
  | truthy path => (c.resolve path).map Value.isTruthy
  | never => .ok false

end Condition

/-- The truth of a condition in a context. -/
def evaluate (condition : String) (c : Context) : Except Fault Bool :=
  (Condition.read condition.toList).holds c

end ViewEngine
