import ViewEngine.Command.Outcome
import ViewEngine.Condition
import ViewEngine.Dispatch.Recording
import ViewEngine.Endpoint.Request
import ViewEngine.Expansion
import ViewEngine.Live.Fetching

/-!
# Running commands

What each command answers, given the files, the environment and the network of a machine. Nothing is
said here of what the network does with a request.
-/

namespace ViewEngine

/-- What a command sees of the machine it runs on, whose network has states in `ν`. -/
structure Machine (ν : Type) where
  files : Files
  readVariable : String → Option String
  /-- Sends a request. -/
  send : Network ν
  /-- The state of the network before the command. -/
  network : ν

/-- Who answers the calls of a command, and in which state. -/
inductive Backend (ν : Type) where
  | fixtures (state : Fixtures)
  | network (state : ν)

/-- The endpoint of a command: fixtures answer from memory, and otherwise requests are made. -/
def Backend.call {ν : Type} (s : EndpointSettings) (send : Network ν) : Endpoint (Backend ν)
  | .fixtures state, endpoint, params =>
    let (answer, next) := Fixtures.call state endpoint params
    (answer, .fixtures next)
  | .network state, endpoint, params =>
    let (answer, next) := web s send state endpoint params
    (answer, .network next)

namespace Command

variable {ν : Type}

/-- The result of a computation that may have none. -/
def computed {α : Type} : Except Fault α → Except CommandError α
  | .ok a => .ok a
  | .error f => .error (.fault f)

/-! ## What commands are given -/

/-- The text is an object, and not the path of a file with one. -/
def isInline (data : String) : Bool := (trimStart data.toList).head? = some '{'

/-- The data of a command; none given are none. -/
def loadData (files : Files) : Option String → Except CommandError Fields
  | none => .ok []
  | some data => do
    let (origin, bytes) ←
      if isInline data then .ok ("--data", Utf8.encode data)
      else match files data with
        | .ok bytes => .ok (data, bytes)
        | .error reason => .error (.unreadableData data reason)
    match Value.decode? bytes with
    | some (.object fields) => .ok fields
    | some _ => .error (.notAnObject origin)
    | none => .error (.invalidJson origin)

/-- An action in a file. -/
def loadAction (files : Files) (path : String) : Except CommandError Action := do
  match files path with
  | .error reason => .error (.unreadableAction path reason)
  | .ok bytes =>
    match Value.decode? bytes with
    | none => .error (.invalidJson path)
    | some v =>
      match Action.ofValue? v with
      | some a => .ok a
      | none => .error (.notAnAction path)

/-- Who answers the calls of a command: the fixtures in a file, or the network. -/
def loadBackend (m : Machine ν) : Option String → Except CommandError (Backend ν)
  | none => .ok (.network m.network)
  | some path =>
    match m.files.readText path with
    | .error reason => .error (.unreadableFixtures path reason)
    | .ok text =>
      match (Json.readText? text).bind Json.normal? with
      | none => .error (.invalidJson path)
      | some (.object members) => .ok (.fixtures (Fixtures.ofJson (.object members)))
      | some _ => .error (.notFixtures path)

/-! ## The commands -/

/-- Answers the value of a binding. -/
def runResolve (files : Files) (format : OutputFormat) (binding : String) (data : Option String) :
    Except CommandError Report := do
  let c : Context := { own := ← loadData files data }
  let display ← computed (c.resolveString binding)
  match format with
  | .text => return { answer := [display] }
  | .json =>
    let v ← computed (c.resolve binding.toList)
    let answer : Json := .object
      [("binding", .string binding), ("display", .string display), ("found", .bool v.isSome),
        ("value", (v.map Value.toJson).getD .null)]
    return { answer := [answer.prettyText] }

/-- Answers the truth of a condition. -/
def runEval (files : Files) (format : OutputFormat) (condition : String) (data : Option String) :
    Except CommandError Report := do
  let c : Context := { own := ← loadData files data }
  let result ← computed (evaluate condition c)
  match format with
  | .text => return { answer := [if result then "true" else "false"] }
  | .json =>
    let answer : Json := .object [("condition", .string condition), ("result", .bool result)]
    return { answer := [answer.prettyText] }

/-- Answers the data that an action leaves and what it reports. -/
def runDispatch (m : Machine ν) (s : Settings) (options : CommandOptions) (action : String)
    (data fixtures : Option String) : Except CommandError Report := do
  let a ← loadAction m.files action
  let data ← loadData m.files data
  let backend ← loadBackend m fixtures
  let r ← computed (record s.dispatch a (Backend.call s.endpoint m.send) backend data)
  match options.format with
  | .text =>
    let lines := if options.isQuiet then [] else r.intents.map Intent.line
    return { answer := (Table.toJson r.data).prettyText :: lines, time := r.time }
  | .json =>
    let answer : Json := .object
      [("context", Table.toJson r.data), ("intents", .array (r.intents.map Intent.toJson))]
    return { answer := [answer.prettyText], time := r.time }

/-- The live data of a screen, and how long the pauses are while they are fetched. -/
def fetchData (m : Machine ν) (s : Settings) (source : Source) (screen : String)
    (fixtures : Option String) : Except CommandError (Fields × Nat) := do
  let backend ← loadBackend m fixtures
  let request : FetchRequest := { screen, force := false }
  let (outcome, _, run) ← computed
    (fetch (Backend.call s.endpoint m.send) source { timing := s.dispatch } request {} backend)
  match outcome with
  | .cached data | .fetched data => return (data, run.time)
  | .error reason => .error (.fetch reason)

/-- The warning about a document that cannot be used; that it is not there needs none. -/
def loadWarnings {α : Type} : Except DocumentError α → List String
  | .ok _ => []
  | .error e => if e.isNotFound then [] else ["warning: " ++ e.message]

/-- Answers the view of a screen. -/
def renderScreen (m : Machine ν) (s : Settings) (format : OutputFormat) (theme : Theme)
    (registry : Registry) (source : Source) (screen : String) (data : Option String) (isLive : Bool)
    (fixtures : Option String) : Except CommandError Report := do
  let n ← match source.loadScreen screen with
    | .ok n => .ok n
    | .error e => .error (.document e)
  let data ← loadData m.files data
  let (fetched, time) ←
    if isLive then fetchData m s source screen fixtures else .ok ([], 0)
  let view ← computed (n.expand theme registry { own := Table.overlay data fetched })
  match view, format with
  | some view, .text => return { answer := view.outline 0, time }
  | some view, .json => return { answer := [(Value.ofJson view.toJson).toJson.prettyText], time }
  | none, .text =>
    return { messages := ["screen '" ++ screen ++ "' is hidden by its condition"], time }
  | none, .json => return { answer := ["null"], time }

/-- Runs a command under settings: its warnings, and its report if it does not fail. -/
def run (m : Machine ν) (s : Settings) (options : CommandOptions) :
    Command → List String × Except CommandError Report
  | resolve binding data => ([], runResolve m.files options.format binding data)
  | eval condition data => ([], runEval m.files options.format condition data)
  | dispatch action data fixtures => ([], runDispatch m s options action data fixtures)
  | render screen root data isLive fixtures =>
    let source := Source.ofDirectory m.files (root.getD s.root)
    let (themeLoad, theme) := Theme.load {} source
    let (registryLoad, registry) := Registry.load [] source
    (loadWarnings themeLoad ++ loadWarnings registryLoad,
      renderScreen m s options.format theme registry source screen data isLive fixtures)

/-- How a command ends under settings. -/
def outcomeUnder (m : Machine ν) (s : Settings) (options : CommandOptions) (c : Command) : Outcome :=
  let (warnings, result) := c.run m s options
  Outcome.ofResult options warnings result

/-- The settings of a machine under options. -/
def loadSettings (m : Machine ν) (options : CommandOptions) : Except CommandError Settings := do
  let s ← match options.settings with
    | none => .ok {}
    | some path =>
      match Settings.load m.files path with
      | .ok s => .ok s
      | .error e => .error (.settings e)
  return s.withEnvironment m.readVariable

/-! ## Command lines -/

/-- The files that a command may read under settings. -/
def paths (s : Settings) : Command → List String
  | resolve _ data | eval _ data => (data.filter (!isInline ·)).toList
  | dispatch action data fixtures =>
    action :: (data.filter (!isInline ·)).toList ++ fixtures.toList
  | render screen root data _ fixtures =>
    [Source.themeName, Source.componentsName, screen].filterMap (Source.path? (root.getD s.root))
      ++ (data.filter (!isInline ·)).toList ++ fixtures.toList

/-- The files that a command line may read, as far as the machine knows them: those of its command
are known once the file of the settings is. -/
def linePaths (m : Machine ν) (arguments : List String) : List String :=
  match ofArguments arguments with
  | .error _ => []
  | .ok (options, command) =>
    options.settings.toList ++
      match loadSettings m options with
      | .ok s => command.paths s
      | .error _ => []

/-- What a command line leads to on a machine. -/
def outcome (m : Machine ν) (arguments : List String) : Outcome :=
  match ofArguments arguments with
  | .error reason => Outcome.ofNoCommand reason
  | .ok (options, command) =>
    match loadSettings m options with
    | .error e => Outcome.ofResult options [] (.error e)
    | .ok s => command.outcomeUnder m s options

end Command

end ViewEngine
