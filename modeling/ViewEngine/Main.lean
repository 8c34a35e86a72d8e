import ViewEngine.Command.Run

/-!
# The program

Runs one command line. All that it decides is `Command.outcome`; what is here reads the files and
variables that the command may ask for, waits as long as the command pauses and prints what it says.
There is no network on this machine: a request without fixtures does not leave it.
-/

namespace ViewEngine

/-- The reason that the system gives. -/
def ReadError.ofSystem : IO.Error → ReadError
  | .noFileOrDirectory _ _ _ => .notFound
  | .inappropriateType _ code _ => if code = 21 then .isADirectory else .notADirectory
  | .permissionDenied _ _ _ => .other "Permission denied (os error 13)"
  | e => .other (toString e)

/-- Reads one file. -/
def readFile (path : String) : IO (Except ReadError (List UInt8)) := do
  try
    let bytes ← IO.FS.readBinFile path
    return .ok bytes.toList
  catch e => return .error (ReadError.ofSystem e)

/-- Reads some files; any other is taken to be absent. -/
def readFiles (paths : List String) : IO Files := do
  let table : Table (Except ReadError (List UInt8)) ←
    paths.mapM fun path => do return (path, ← readFile path)
  return fun path => (table.get? path).getD (.error .notFound)

/-- Reads some variables of the environment. -/
def readVariables (names : List String) : IO (String → Option String) := do
  let table : Table (Option String) ← names.mapM fun name => do return (name, ← IO.getEnv name)
  return fun name => (table.get? name).join

/-- The network of a machine without one. -/
def disconnected : Network Unit := fun _ _ => (.failed "no network", ())

end ViewEngine

open ViewEngine in
def main (arguments : List String) : IO UInt32 := do
  let readVariable ← readVariables [Settings.baseUrlVariable, Settings.authTokenVariable]
  let machine (files : Files) : Machine Unit :=
    { files, readVariable, send := disconnected, network := () }
  let files ← readFiles (Command.linePaths (machine fun _ => .error .notFound) arguments)
  let files ← readFiles (Command.linePaths (machine files) arguments)
  let o := Command.outcome (machine files) arguments
  IO.sleep (UInt32.ofNat o.time)
  IO.print o.output
  for line in o.errors do IO.eprintln line
  return UInt32.ofNat o.status
