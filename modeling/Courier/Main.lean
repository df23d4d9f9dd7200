import Courier.Arguments

/-!
# The command line

Reads the files that the arguments name, runs the command on what it read, prints and exits. Nothing is decided here. Directories
are not listed: a directory among the arguments is handed on as one that cannot be.
-/

namespace Courier

/-- The read fault of a failure of the system. -/
def ReadFault.ofSystem : IO.Error → ReadFault
  | .noFileOrDirectory _ _ _ => .missing
  | .inappropriateType _ code details =>
    if code = 20 then .notDirectory else if code = 21 then .isDirectory else .system details
  | e => .system (toString e)

/-- What lies at a path. -/
def entryAt (path : String) : IO (Except ReadFault DiskEntry) := do
  match ← (IO.FS.readBinFile path).toBaseIO with
  | .ok bytes => return .ok (.ofBytes bytes)
  | .error e =>
    match ReadFault.ofSystem e with
    | .isDirectory => return .ok (.closed .isDirectory)
    | fault => return .error fault

/-- What lies at each of some paths. -/
def diskOf (paths : List String) : IO Disk := do
  let entries ← paths.mapM (fun path => do return (path, ← entryAt path))
  return fun path => (entries.lookup path).getD (.error .missing)

/-- What is printed for words that are no invocation. -/
def usage : String :=
  "usage: courierc [--output text|json] [--quiet] [--trace-states] (lex FILE | parse FILE | check PATH...)"

end Courier

/-- Runs the command that the arguments stand for. -/
def main (line : List String) : IO UInt32 := do
  match Courier.Arguments.invocation? line with
  | some i =>
    let outcome := i.run (← Courier.diskOf i.paths)
    IO.print outcome.stdout
    IO.eprint outcome.stderr
    return outcome.code.toUInt32
  | none =>
    IO.eprintln Courier.usage
    return 2
