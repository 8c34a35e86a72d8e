import ViewEngine.Calendar.Pattern
import ViewEngine.Calendar.Timestamp
import ViewEngine.Text.Blank
import ViewEngine.Text.LetterCase
import ViewEngine.Text.Split
import ViewEngine.Value.Coercion

/-!
# Transforms

The stages that may follow a binding, such as `uppercase` or `truncate:5`. A stage is a name and, after
the first colon, a parameter. A stage never refuses a value: what it cannot work on passes unchanged,
and so does everything at a stage with an unknown name.

One thing can go wrong. A timestamp near the end of the year 9999 may fall into the year after it in
UTC, which the calendar does not have; then there is no result at all, and the fault ends whatever
asked for it.
-/

namespace ViewEngine

/-- The one way in which an evaluation can break off. -/
inductive Fault where
  /-- A date falls after the last year of the calendar. -/
  | yearOutOfRange
deriving DecidableEq, Repr

/-- A transform with its parameter. -/
inductive Transform where
  | date (pattern : List Char)
  | duration (hint : List Char)
  | uppercase
  | lowercase
  | join (separator : List Char)
  | default (text : List Char)
  /-- Cuts texts to a number of characters; without a usable number nothing is cut. -/
  | truncate (length : Option Nat)
  | count
  | identity

namespace Transform

/-- The nonempty pieces of a stage, cut once at its first colon. -/
def pieces (stage : List Char) : List (List Char) :=
  match splitFirst? [':'] stage with
  | some (name, parameter) => [name, parameter].filter (· ≠ [])
  | none => [stage].filter (· ≠ [])

/-- The transform that a name and a parameter denote. -/
def named (name : List Char) (parameter : Option (List Char)) : Transform :=
  match String.ofList (trim name) with
  | "date" => date (parameter.getD "MMM d, yyyy".toList)
  | "duration" => duration (parameter.getD "mm:ss".toList)
  | "uppercase" => uppercase
  | "lowercase" => lowercase
  | "join" => join (parameter.getD [','])
  | "default" => default (parameter.getD [])
  | "truncate" => truncate (parameter.bind (readNatBelow? UInt64.size))
  | "count" => count
  | _ => identity

/-- The transform that a stage denotes. -/
def ofStage (stage : List Char) : Transform :=
  match pieces stage with
  | [] => identity
  | name :: rest => named name rest.head?

/-! ## The transforms -/

/-- Two digits at least; a minus sign counts as one. -/
def twoPlaces (i : Int) : List Char :=
  if i < 0 then '-' :: Calendar.Pattern.padded 1 i.natAbs else Calendar.Pattern.padded 2 i.natAbs

/-- Milliseconds as hours, minutes and seconds, each toward zero. Hours are shown if there are any or
the hint asks for them. -/
def durationText (hint : List Char) (ms : Int) : List Char :=
  let total := ms.tdiv 1000
  let hours := total.tdiv 3600
  let minutes := (total.tmod 3600).tdiv 60
  let seconds := total.tmod 60
  if (splitFirst? ['H', 'H'] hint).isSome || decide (0 < hours) then
    Json.intText hours ++ ':' :: twoPlaces minutes ++ ':' :: twoPlaces seconds
  else Json.intText minutes ++ ':' :: twoPlaces seconds

/-- The text of an instant in UTC. -/
def dateText (pattern : List Char) (i : Calendar.Instant) : Except Fault (List Char) :=
  let t := i.clockTime 0
  if Calendar.lastYear < t.year then .error .yearOutOfRange else .ok (Calendar.format t pattern)

/-- The first `length` characters and an ellipsis. -/
def cut (length : Nat) (cs : List Char) : List Char := cs.take length ++ ['…']

/-- Applies a transform to a value, which may be absent. -/
def apply (transform : Transform) (value : Option Value) : Except Fault (Option Value) :=
  match transform with
  | date pattern =>
    match (value.bind Value.asText?).bind fun s => Calendar.readTimestamp? s.toList with
    | some i => (dateText pattern i).map fun text => some (.string (String.ofList text))
    | none => .ok value
  | duration hint =>
    match value.bind Value.asInt? with
    | some ms => .ok (some (.string (String.ofList (durationText hint ms.toInt))))
    | none => .ok value
  | uppercase =>
    match value with
    | some (.string s) => .ok (some (.string (String.ofList (LetterCase.upper s.toList))))
    | other => .ok other
  | lowercase =>
    match value with
    | some (.string s) => .ok (some (.string (String.ofList (LetterCase.lower s.toList))))
    | other => .ok other
  | join separator =>
    match value with
    | some (.array items) =>
      let texts := items.filterMap Value.string?
      .ok (some (.string (String.ofList (joinWith separator (texts.map String.toList)))))
    | other => .ok other
  | default text =>
    match value with
    | none | some .null => .ok (some (.string (String.ofList text)))
    | other => .ok other
  | truncate length =>
    match value.bind Value.asText?, length with
    | some s, some length =>
      if length < s.toList.length then .ok (some (.string (String.ofList (cut length s.toList))))
      else .ok value
    | _, _ => .ok value
  | count =>
    let length := match value with
      | some (.array items) => items.length
      | _ => 0
    .ok (some (.int (Int64.ofNat length)))
  | identity => .ok value

end Transform

/-- Applies the stage with this text to a value, which may be absent. -/
def applyStage (stage : List Char) (value : Option Value) : Except Fault (Option Value) :=
  (Transform.ofStage stage).apply value

end ViewEngine
