import DeclaredApi.Command.Run
import Std.Time.DateTime.Timestamp

/-!
# `DeclaredApi.Main`: the program

Runs the command on the files, the environment and the clock of the machine. It prints the
result, and the hint apart from it, and tells by its exit code whether the call succeeded.
It opens no connection: a call that the cache cannot answer fails.
-/

set_option autoImplicit false

namespace DeclaredApi.Command

/-- Whether a directory stands at a path. -/
def isDirectory (path : String) : IO Bool := do
  match ← (IO.FS.realPath path).toBaseIO with
  | .error _ => return false
  | .ok place => place.isDir

/-- The file system of the machine. What is there and cannot be read as text counts as a
directory. -/
def disk : Files IO where
  find path := do
    match ← (IO.FS.realPath path).toBaseIO with
    | .error _ => return .absent
    | .ok place =>
      match ← (IO.FS.readFile place).toBaseIO with
      | .ok text => return .file text
      | .error _ => return .directory
  makeDirectory path := do
    match ← (IO.FS.createDir path).toBaseIO with
    | .ok _ => return true
    | .error _ => isDirectory path
  write path text := do
    match ← (IO.FS.writeFile path text).toBaseIO with
    | .ok _ => return true
    | .error _ => return false

/-- The environment variables that the command and its file of variables may ask for. -/
def given : IO (Dict String) := do
  let named ←
    match ← disk.find variablesFile with
    | .file text => pure (Dotenv.names (Dotenv.assignments text))
    | _ => pure []
  let values ← (variableNames ++ named).filterMapM fun name => do
    return (← IO.getEnv name).map (name, ·)
  return Dict.ofList values

/-- The time in milliseconds since 1970. -/
def now : IO Int64 := do
  return Int64.ofInt (← Std.Time.Timestamp.now).toMillisecondsSinceUnixEpoch.val

end DeclaredApi.Command

open DeclaredApi in
/-- Runs the command. -/
def main : IO UInt32 := do
  let result ← Command.run Command.disk (← Command.given) (← Command.now) {}
  IO.print result.output
  IO.eprint result.hint
  return if result.succeeded then 0 else 1
