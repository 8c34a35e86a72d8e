import ViewEngine.Document.Node
import ViewEngine.Files.Basic
import ViewEngine.Text.Split

/-!
# Sources

Where documents come from. A source gives the bytes of a document by name; a document that is not there
is told apart from one that cannot be read or makes no sense, since many documents are optional.
-/

namespace ViewEngine

/-- Why there is no document. -/
inductive DocumentError where
  | notFound (name : String)
  /-- The document's file is there, but cannot be read. -/
  | unreadable (path : String) (reason : ReadError)
  | malformed (name : String)
deriving DecidableEq, Repr

namespace DocumentError

def message : DocumentError → String
  | notFound name => "document '" ++ name ++ "' not found"
  | unreadable path reason => "failed to read '" ++ path ++ "': " ++ reason.message
  | malformed name => "document '" ++ name ++ "' is malformed"

def isNotFound : DocumentError → Bool
  | notFound _ => true
  | _ => false

end DocumentError

/-- A source of documents. -/
abbrev Source := String → Except DocumentError (List UInt8)

namespace Source

def themeName : String := "theme"

def componentsName : String := "components"

/-- Documents held in memory. -/
def ofTable (documents : Table (List UInt8)) : Source := fun name =>
  match documents.get? name with
  | some bytes => .ok bytes
  | none => .error (.notFound name)

/-- A name that stands for a file in a directory, and not for one elsewhere. -/
def isFileName (name : String) : Bool :=
  !name.isEmpty && !name.toList.any (fun c => c = '/' || c = '\\')
    && (splitFirst? ['.', '.'] name.toList).isNone

/-- The file of a document in a directory, called by its name with `.json` after it. -/
def path? (directory name : String) : Option String :=
  if isFileName name then some (Files.joinPath directory (name ++ ".json")) else none

/-- Documents in the files of a directory. -/
def ofDirectory (files : Files) (directory : String) : Source := fun name =>
  match path? directory name with
  | none => .error (.notFound name)
  | some path =>
    match files path with
    | .ok bytes => .ok bytes
    | .error .notFound => .error (.notFound name)
    | .error reason => .error (.unreadable path reason)

/-- Reads a named document. -/
def load {α : Type} (read? : Json → Option α) (source : Source) (name : String) :
    Except DocumentError α := do
  let bytes ← source name
  match (Json.read? bytes).bind read? with
  | some a => .ok a
  | none => .error (.malformed name)

/-- Reads the root node of a screen. -/
def loadScreen (source : Source) (name : String) : Except DocumentError Node :=
  load Node.ofJson? source name

end Source

end ViewEngine
