import Courier.Path
import Courier.Source.Fault
import Courier.Text.Line

/-!
# Sources on disk

A disk as a tree of directories and files. A path is resolved one piece at a time, as a system does it: only a directory has
anything below it, even itself, so `a/../b` needs a directory `a`. The sources below a directory are the files with the
extension of the language, in the order of their paths, compared piece by piece.
-/

namespace Courier

/-- What a name stands for on a disk. -/
inductive DiskEntry where
  /-- A file: its text, or why that cannot be read. -/
  | file (content : Except ReadFault String)
  /-- A directory and the names in it. -/
  | directory (entries : List (String × DiskEntry))
  /-- A directory whose names cannot be listed. -/
  | closed (fault : ReadFault)
  deriving Inhabited

namespace DiskEntry

/-- The file of some bytes, which must be UTF-8 to be text. -/
def ofBytes (bytes : ByteArray) : DiskEntry :=
  match String.fromUTF8? bytes with
  | some text => .file (.ok text)
  | none => .file (.error .notText)

/-- The text of an entry; a directory has none. -/
def read : DiskEntry → Except ReadFault String
  | file content => content
  | directory _ | closed _ => .error .isDirectory

/-- Whether an entry is a directory. -/
def isDirectory : DiskEntry → Bool
  | file _ => false
  | directory _ | closed _ => true

/-- The names in a directory, none in one that cannot be listed; a file is no directory. -/
def names? : DiskEntry → Option (List (String × DiskEntry))
  | file _ => none
  | directory entries => some entries
  | closed _ => some []

/-- The longest name a directory can hold, in bytes. -/
def maxNameLength : Nat :=
  255

/-- The longest path a system takes, in bytes. -/
def maxPathLength : Nat :=
  4095

/-- The entry that some pieces of a path lead to. `above` are the directories above the one at hand, nearest first; above the
topmost there is nothing known. -/
def resolve (above : List DiskEntry) (here : DiskEntry) : List (List Char) → Except ReadFault DiskEntry
  | [] => .ok here
  | piece :: rest =>
    match here.names? with
    | none => .error .notDirectory
    | some entries =>
      match Path.stepOf? piece with
      | none => resolve above here rest
      | some .up =>
        match above with
        | parent :: higher => resolve higher parent rest
        | [] => resolve [] (.directory []) rest
      | some (.down name) =>
        if maxNameLength < Text.byteLength piece then .error .nameTooLong
        else
          match entries.lookup name with
          | some entry => resolve (here :: above) entry rest
          | none => .error .missing

/-- The entry at a path, seen from a working directory. Outside of that directory no names are known. A path with a NUL in it is
refused before a system sees it, and one that is too long before any piece of it is looked up. -/
def lookup (directory : DiskEntry) (path : String) : Except ReadFault DiskEntry :=
  if path.toList.contains '\x00' then .error .nulInName
  else if maxPathLength < Text.byteLength path.toList then .error .nameTooLong
  else
    match path.toList with
    | [] => .error .missing
    | '/' :: cs => resolve [] (.directory []) (Path.segments cs)
    | cs => resolve [] directory (Path.segments cs)

/-- A path with names behind it. -/
def joinNames (path : String) (names : List String) : String :=
  let tail := String.intercalate "/" names
  if names.isEmpty || path.toList.getLast? = some '/' then path ++ tail else path ++ "/" ++ tail

mutual

/-- An entry as it shows at a path: what lies below it at a path too long for the system cannot be read, and is no directory. -/
def seenAt (path : String) : DiskEntry → DiskEntry
  | directory entries => .directory (entriesSeenAt path entries)
  | entry => entry

/-- The entries of a directory as they show at the path of the directory. -/
def entriesSeenAt (path : String) : List (String × DiskEntry) → List (String × DiskEntry)
  | [] => []
  | (name, entry) :: rest =>
    let place := joinNames path [name]
    let seen := if maxPathLength < Text.byteLength place.toList then .file (.error .nameTooLong) else seenAt place entry
    (name, seen) :: entriesSeenAt path rest

end

/-- The extension of source files. -/
def sourceExtension : List Char :=
  ['.', 'c', 'o', 'u', 'r']

/-- Whether a name is a source's: the extension behind something. -/
def isSourceName (name : String) : Bool :=
  sourceExtension.isSuffixOf name.toList && sourceExtension.length < name.toList.length

/-- A file below a directory, by the names that lead to it, and its text or why that cannot be read. -/
abbrev Below : Type :=
  List String × Except ReadFault String

mutual

/-- The sources at or below an entry that some names lead to, in the order of the listings. A directory that cannot be listed is
named with its fault. -/
def sourcesAt (names : List String) : DiskEntry → Except (List String × ReadFault) (List Below)
  | file content => .ok (if (names.getLast?.map isSourceName).getD false then [(names, content)] else [])
  | directory entries => sourcesIn names entries
  | closed fault => .error (names, fault)

/-- The sources below the entries of a directory. -/
def sourcesIn (names : List String) : List (String × DiskEntry) → Except (List String × ReadFault) (List Below)
  | [] => .ok []
  | (name, entry) :: rest => do
    let here ← sourcesAt (names ++ [name]) entry
    return here ++ (← sourcesIn names rest)

end

/-- Whether some names come before others as a path: the first names that differ decide, and a path comes before what lies below
it. -/
def namesLe : List String → List String → Bool
  | [], _ => true
  | _ :: _, [] => false
  | a :: as, b :: bs => if a = b then namesLe as bs else decide (a < b)

/-- The sources that a path argument stands for, each with its path and its text or why that cannot be read: the argument itself,
whatever its name, or, if it is a directory, the sources that show below it in the order of their paths. -/
def expand (path : String) (found : Except ReadFault DiskEntry) :
    Except (String × ReadFault) (List (String × Except ReadFault String)) :=
  match found with
  | .error fault => .ok [(path, .error fault)]
  | .ok (.file content) => .ok [(path, content)]
  | .ok entry =>
    match sourcesAt [] (entry.seenAt path) with
    | .ok below =>
      .ok ((below.mergeSort (fun a b => namesLe a.1 b.1)).map (fun (names, content) => (joinNames path names, content)))
    | .error (names, fault) => .error (joinNames path names, fault)

end DiskEntry

end Courier
