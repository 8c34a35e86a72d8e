import ViewEngine.Table

/-!
# Command lines

What a user can ask for, and how it is written. A command line is a command with its options and plain
arguments; the options of all commands may stand before its name or after it, and those after it count
where both are given. An option is `--name value` or `--name=value`, or `--name` alone for a switch, and
stands at most once on either side. A value that begins with a hyphen needs the form with `=`. After
`--` all arguments are plain.
-/

namespace ViewEngine

/-- The form of output. -/
inductive OutputFormat where
  | text
  | json
deriving DecidableEq, Repr

/-- The options of all commands. -/
structure CommandOptions where
  format : OutputFormat := .text
  isQuiet : Bool := false
  /-- The file of the settings. -/
  settings : Option String := none
deriving DecidableEq, Repr

/-- What a user asks for. -/
inductive Command where
  /-- The value of a binding. -/
  | resolve (binding : String) (data : Option String)
  /-- The truth of a condition. -/
  | eval (condition : String) (data : Option String)
  /-- The action in a file, dispatched. -/
  | dispatch (action : String) (data fixtures : Option String)
  /-- A screen, expanded; a live one after its `onLoad` action. -/
  | render (screen : String) (root data : Option String) (isLive : Bool) (fixtures : Option String)
deriving DecidableEq, Repr

/-- Why a command line has no command. -/
inductive NoCommand where
  /-- It is not understood. -/
  | misused
  | askedHelp
  | askedVersion
deriving DecidableEq, Repr

namespace Command

/-! ## Options -/

/-- What an option is followed by. -/
inductive Takes where
  | nothing
  | text
  /-- A path, which is not empty. -/
  | path
  | oneOf (words : List String)
  /-- Nothing, since no command is wanted. -/
  | answer (reason : NoCommand)

/-- A value may follow the option. -/
def Takes.admits (value : String) : Takes → Bool
  | text => true
  | path => !value.isEmpty
  | oneOf words => words.contains value
  | nothing | answer _ => false

/-- The words for the forms of output. -/
def formats : Table OutputFormat := [("json", .json), ("text", .text)]

/-- The options of all commands. -/
def sharedOptions : Table Takes :=
  [("config", .path), ("help", .answer .askedHelp), ("output", .oneOf formats.keys),
    ("quiet", .nothing)]

/-- The arguments on one side of a command's name, or after it. -/
structure Given where
  /-- Options with their values; that of a switch is empty. -/
  options : List (String × String) := []
  /-- The other arguments. Before the name of a command these are the name and all that follows. -/
  plain : List String := []

namespace Given

def option? (g : Given) (name : String) : Option String := Table.get? g.options name

def has (g : Given) (name : String) : Bool := (g.option? name).isSome

end Given

/-- The name of an option and the value attached to it by `=`. -/
def option? (argument : String) : Option (String × Option String) :=
  match argument.toList with
  | '-' :: '-' :: cs =>
    match cs.span (· ≠ '=') with
    | (name, _ :: value) => some (String.ofList name, some (String.ofList value))
    | (name, []) => some (String.ofList name, none)
  | _ => none

/-- Begins with a hyphen and is more than that. -/
def isHyphened (argument : String) : Bool :=
  match argument.toList with
  | '-' :: _ :: _ => true
  | _ => false

/-- Why an option of one letter leaves no command; there are no others of one letter. -/
def letter (isFirst : Bool) (argument : String) : NoCommand :=
  match argument.toList with
  | _ :: 'h' :: _ => .askedHelp
  | _ :: 'V' :: _ => if isFirst then .askedVersion else .misused
  | _ => .misused

/-- Reads arguments, given the options read before. The first side ends at the first plain
argument. -/
def read (known : Table Takes) (isFirst : Bool) (options : List (String × String)) :
    List String → Except NoCommand Given
  | [] => .ok { options }
  | "--" :: rest => .ok { options, plain := if isFirst then [] else rest }
  | argument :: rest =>
    match option? argument with
    | some (name, attached) =>
      match known.get? name with
      | none => .error .misused
      | some (.answer reason) => .error (if attached.isSome then .misused else reason)
      | some takes =>
        if (Table.get? options name).isSome then .error .misused
        else match takes, attached, rest with
        | .nothing, some _, _ => .error .misused
        | .nothing, none, rest => read known isFirst ((name, "") :: options) rest
        | takes, some value, rest =>
          if takes.admits value then read known isFirst ((name, value) :: options) rest
          else .error .misused
        | takes, none, value :: rest =>
          if !isHyphened value && takes.admits value then
            read known isFirst ((name, value) :: options) rest
          else .error .misused
        | _, none, [] => .error .misused
    | none =>
      if isHyphened argument then .error (letter isFirst argument)
      else if isFirst then .ok { options, plain := argument :: rest }
      else do
        let g ← read known isFirst options rest
        return { g with plain := argument :: g.plain }

/-- The options of all commands among those given. -/
def shared (before after : Given) : CommandOptions :=
  let option? (name : String) : Option String := (after.option? name).or (before.option? name)
  { format := ((option? "output").bind formats.get?).getD .text
    isQuiet := before.has "quiet" || after.has "quiet"
    settings := option? "config" }

/-! ## Commands -/

/-- The options that a command has beside those of all commands. -/
def ownOptions : String → Option (Table Takes)
  | "resolve" | "eval" => some [("data", .text)]
  | "dispatch" => some [("data", .text), ("fixtures", .path)]
  | "render" => some [("data", .text), ("fixtures", .path), ("live", .nothing), ("root", .path)]
  | _ => none

/-- The command of a name, with its one plain argument. -/
def ofGiven? (name : String) (g : Given) : Option Command :=
  match name, g.plain with
  | "resolve", [binding] => some (.resolve binding (g.option? "data"))
  | "eval", [condition] => some (.eval condition (g.option? "data"))
  | "dispatch", [action] =>
    if action.isEmpty then none
    else some (.dispatch action (g.option? "data") (g.option? "fixtures"))
  | "render", [screen] =>
    some (.render screen (g.option? "root") (g.option? "data") (g.has "live") (g.option? "fixtures"))
  | _, _ => none

/-- The command that arguments ask for, with the options of all commands. -/
def ofArguments (arguments : List String) : Except NoCommand (CommandOptions × Command) := do
  let first : Table Takes := sharedOptions.insert "version" (.answer .askedVersion)
  let before ← read first true [] arguments
  match before.plain with
  | [] => .error .misused
  | "help" :: _ => .error .askedHelp
  | name :: rest =>
    match ownOptions name with
    | none => .error .misused
    | some own =>
      let after ← read (Table.overlay own sharedOptions) false [] rest
      match ofGiven? name after with
      | some command => .ok (shared before after, command)
      | none => .error .misused

end Command

end ViewEngine
