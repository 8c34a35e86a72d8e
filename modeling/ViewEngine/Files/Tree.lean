import ViewEngine.Files.Basic
import ViewEngine.Table
import ViewEngine.Text.Split

/-!
# File trees

A working directory held in memory. Paths are followed from it name by name: empty names and `.` stay,
`..` goes up. The directory above the working directory and all that is outside is seen as empty.
-/

namespace ViewEngine

/-- A file, or a directory with what it holds by name. -/
inductive FileTree where
  | file (bytes : List UInt8)
  | directory (entries : List (String × FileTree))
deriving Inhabited

namespace FileTree

/-- The names of a path. -/
def names (path : String) : List String := (splitAt ['/'] path.toList).map String.ofList

/-- What a directory holds; a file holds nothing. -/
def entries : FileTree → Table FileTree
  | file _ => []
  | directory entries => entries

/-! ## Building -/

/-- Puts a file with some bytes, or a directory, where names lead to, and opens the directories on the
way. -/
def put (bytes : Option (List UInt8)) : List String → FileTree → FileTree
  | [], t =>
    match bytes with
    | some bytes => file bytes
    | none => directory t.entries
  | name :: rest, t =>
    let inner := (t.entries.get? name).getD (directory [])
    directory (t.entries.insert name (put bytes rest inner))

/-- Puts bytes at a path; a path that ends in a slash is a directory, whatever the bytes. -/
def insert (t : FileTree) (path : String) (bytes : List UInt8) : FileTree :=
  let isDirectory := path.toList.getLast? = some '/'
  put (if isDirectory then none else some bytes) ((names path).filter (· ≠ "")) t

/-- The tree of files by path. -/
def ofList (files : List (String × List UInt8)) : FileTree :=
  files.foldl (fun t f => t.insert f.1 f.2) (directory [])

/-! ## Reading -/

/-- The longest name, in bytes. -/
def maxName : Nat := 255

/-- The longest path, in bytes. -/
def maxPath : Nat := 4095

/-- What names lead to from a place; `above` are the directories above it, nearest first. -/
def follow : List FileTree → FileTree → List String → Except ReadError FileTree
  | _, t, [] => .ok t
  | _, file _, _ :: _ => .error .notADirectory
  | above, directory entries, name :: rest =>
    if name = "" ∨ name = "." then follow above (directory entries) rest
    else if name = ".." then
      match above with
      | [] => follow [] (directory entries) rest
      | up :: above => follow above up rest
    else if maxName < name.utf8ByteSize then .error .nameTooLong
    else match Table.get? entries name with
      | some t => follow (directory entries :: above) t rest
      | none => .error .notFound

/-- What stands at a path, seen from the working directory. -/
def find (t : FileTree) (path : String) : Except ReadError FileTree :=
  let outside := directory []
  match path.toList with
  | [] => .error .notFound
  | '/' :: _ => follow [] outside (names path)
  | _ => follow [outside] t (names path)

/-- The files of a working directory. -/
def files (t : FileTree) : Files := fun path => do
  if path.toList.any (·.toNat = 0) then .error .zeroByte
  else if maxPath < path.utf8ByteSize then .error .nameTooLong
  else match ← t.find path with
    | file bytes => .ok bytes
    | directory _ => .error .isADirectory

end FileTree

end ViewEngine
