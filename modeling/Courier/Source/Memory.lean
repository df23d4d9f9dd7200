import Courier.Path
import Courier.Source.Fault

/-!
# Sources in memory

Texts held under the names of their paths, so that every spelling of a path finds its text.
-/

namespace Courier

/-- Texts in memory, by file name. -/
structure MemorySources where
  texts : List (String × String)
  deriving DecidableEq, Repr, Inhabited

namespace MemorySources

/-- The texts at some paths. Of two paths of one name, the later holds. -/
def ofList (files : List (String × String)) : MemorySources :=
  ⟨(files.map (fun (path, text) => (Path.fileName path, text))).reverse⟩

/-- The text at a path. -/
def read (sources : MemorySources) (path : String) : Except ReadFault String :=
  match sources.texts.lookup (Path.fileName path) with
  | some text => .ok text
  | none => .error (.notInMemory (Path.fileName path))

end MemorySources

end Courier
