import ViewEngine.Text.Utf8

/-!
# Reading files

What a program sees of a file system: the bytes of the file at a path, or the reason why they cannot be
had, in the words of the operating system.
-/

namespace ViewEngine

/-- Why a file could not be read. -/
inductive ReadError where
  | notFound
  | notADirectory
  | isADirectory
  /-- The path, or a name in it, is longer than the system allows. -/
  | nameTooLong
  /-- The path holds a zero byte. -/
  | zeroByte
  /-- The file is not UTF-8 text. -/
  | notText
  | other (reason : String)
deriving DecidableEq, Repr

namespace ReadError

def message : ReadError → String
  | notFound => "No such file or directory (os error 2)"
  | notADirectory => "Not a directory (os error 20)"
  | isADirectory => "Is a directory (os error 21)"
  | nameTooLong => "File name too long (os error 36)"
  | zeroByte => "file name contained an unexpected NUL byte"
  | notText => "stream did not contain valid UTF-8"
  | other reason => reason

end ReadError

/-- The files that there are, by path. -/
abbrev Files := String → Except ReadError (List UInt8)

namespace Files

/-- The text of a file. -/
def readText (files : Files) (path : String) : Except ReadError String := do
  match Utf8.decode? (← files path) with
  | some text => .ok text
  | none => .error .notText

/-- The path of a name in a directory. -/
def joinPath (directory name : String) : String :=
  if directory.isEmpty || directory.toList.getLast? = some '/' then directory ++ name
  else directory ++ "/" ++ name

end Files

end ViewEngine
