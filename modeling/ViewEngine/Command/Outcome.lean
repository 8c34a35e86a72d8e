import ViewEngine.Command.Arguments
import ViewEngine.Json.Printer
import ViewEngine.Live.Cache
import ViewEngine.Settings

/-!
# Outcomes of commands

What a command has to say, why it may fail, and how both are told: an exit status and the texts on the
two output streams.
-/

namespace ViewEngine

/-- Why a command failed. -/
inductive CommandError where
  | settings (reason : SettingsError)
  | unreadableAction (path : String) (reason : ReadError)
  | notAnAction (path : String)
  | unreadableData (path : String) (reason : ReadError)
  /-- The data are no object; they come from a file or from the option itself. -/
  | notAnObject (origin : String)
  | unreadableFixtures (path : String) (reason : ReadError)
  | notFixtures (path : String)
  | invalidJson (origin : String)
  | document (reason : DocumentError)
  | fetch (reason : FetchError)
  /-- A computation has no result. -/
  | fault (reason : Fault)

namespace CommandError

def reason : CommandError → String
  | settings reason => reason.message
  | unreadableAction path reason => "could not read '" ++ path ++ "': " ++ reason.message
  | notAnAction path => path ++ " is not an action (missing actionType?)"
  | unreadableData path reason => "could not read data file '" ++ path ++ "': " ++ reason.message
  | notAnObject origin => origin ++ " must be a JSON object"
  | unreadableFixtures path reason =>
    "could not read fixtures '" ++ path ++ "': " ++ reason.message
  | notFixtures path => "fixtures '" ++ path ++ "' must map endpoints to responses"
  | invalidJson origin => "invalid JSON in " ++ origin
  | document reason => reason.message
  | fetch reason => reason.message
  | fault .yearOutOfRange => "a year is out of range"

def message (e : CommandError) : String := "error: " ++ e.reason

/-- The exit status. -/
def status : CommandError → Nat
  | fault _ => 101
  | _ => 1

end CommandError

/-- What a command has to say. -/
structure Report where
  /-- The texts of its answer, each on lines of its own. -/
  answer : List String := []
  /-- What else the user should know. -/
  messages : List String := []
  /-- How long the command pauses, in milliseconds. -/
  time : Nat := 0

/-- How a command ends. -/
structure Outcome where
  status : Nat
  /-- The standard output. -/
  output : String := ""
  /-- The lines of the error output. -/
  errors : List String := []
  /-- How long the command pauses, in milliseconds. -/
  time : Nat := 0

namespace Outcome

/-- A text and the end of its line. -/
def endLine (text : String) : String := text ++ "\n"

/-- Messages as they are shown: not at all if quiet, and each in an object if JSON is asked for. -/
def shown (options : CommandOptions) (messages : List String) : List String :=
  if options.isQuiet then []
  else match options.format with
    | .text => messages
    | .json => messages.map fun message => (Json.object [("error", .string message)]).text

/-- The end of a command that answers or fails, after some warnings. -/
def ofResult (options : CommandOptions) (warnings : List String) :
    Except CommandError Report → Outcome
  | .ok report =>
    { status := 0
      output := String.join (report.answer.map endLine)
      errors := shown options (warnings ++ report.messages)
      time := report.time }
  | .error e => { status := e.status, errors := shown options (warnings ++ [e.message]) }

/-- The usage of the program. -/
def usage : List String :=
  ["Usage: tessera [--output text|json] [--quiet] [--config FILE] COMMAND",
    "",
    "Commands:",
    "  resolve BINDING [--data DATA]",
    "  eval CONDITION [--data DATA]",
    "  dispatch ACTION [--data DATA] [--fixtures FILE]",
    "  render SCREEN [--root DIRECTORY] [--data DATA] [--live] [--fixtures FILE]"]

/-- The end of a command line without a command. -/
def ofNoCommand : NoCommand → Outcome
  | .misused => { status := 2, errors := usage }
  | .askedHelp => { status := 0, output := String.join (usage.map endLine) }
  | .askedVersion => { status := 0, output := endLine "tessera 0.1.0" }

end Outcome

end ViewEngine
