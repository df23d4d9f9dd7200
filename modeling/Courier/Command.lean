import Courier.Check
import Courier.Json.Pretty
import Courier.Source.Disk
import Courier.Tree.Dump
import Courier.Tree.Json

/-!
# The commands

What the commands print and how they exit, given what lies at a path. `lex` shows the tokens of a file, `parse` its tree, and
`check` says of each file, and of each source below each directory, whether it is a unit. Failures go to the second stream: as
JSON always, as text unless the command is to be quiet.
-/

namespace Courier

/-- The form of what is printed. -/
inductive OutputForm where
  | text | json
  deriving DecidableEq, Repr, Inhabited

/-- What a command is asked to do. -/
inductive Command where
  | lex (path : String)
  | parse (path : String)
  | check (paths : List String)
  deriving DecidableEq, Repr, Inhabited

/-- A command and how it prints. -/
structure Invocation where
  command : Command
  output : OutputForm
  quiet : Bool
  /-- Whether parse failures are asked to tell their constructs. -/
  traceStates : Bool
  deriving DecidableEq, Repr, Inhabited

/-- What a command leaves behind. -/
structure Outcome where
  code : Nat
  stdout : String
  stderr : String
  deriving DecidableEq, Repr, Inhabited

/-- What lies at a path. -/
abbrev Disk : Type :=
  String → Except ReadFault DiskEntry

/-- The text at a path of a disk. -/
def Disk.read (disk : Disk) (path : String) : Except ReadFault String :=
  match disk path with
  | .ok entry => entry.read
  | .error fault => .error fault

/-- The lines of a text, each ended. -/
def unlines (lines : List String) : String :=
  String.join (lines.map (· ++ "\n"))

namespace Invocation

/-- Whether parse failures tell their constructs: where it is asked for, and by default in some builds. -/
def trace (i : Invocation) (build : Build) : Bool :=
  i.traceStates || tracesByDefault build

/-- The paths a command names. -/
def paths (i : Invocation) : List String :=
  match i.command with
  | .lex path | .parse path => [path]
  | .check paths => paths

/-- What is printed of a failure. -/
def complaint (i : Invocation) (f : Failure) : String :=
  match i.output with
  | .json => f.report.toJson.pretty ++ "\n"
  | .text => if i.quiet then "" else f.report.render ++ "\n"

/-- The outcome of a command that fails as a whole. -/
def failed (i : Invocation) (f : Failure) : Outcome :=
  ⟨1, "", i.complaint f⟩

/-- A token as a line. -/
def tokenLine (t : Token) : String :=
  s!"{t.location.line}:{t.location.column}\t{t.kind.name}\t{t.text}"

/-- A token as JSON. -/
def tokenJson (t : Token) : Json :=
  .ofFields [("kind", .text t.kind.name), ("text", .text t.text), ("line", .number t.location.line),
    ("column", .number t.location.column), ("offset", .number t.location.offset)]

/-- What is printed of a stream. -/
def showStream (i : Invocation) (s : Stream) : String :=
  match i.output with
  | .text => unlines (s.tokens.map tokenLine)
  | .json => (Json.ofFields [("file", .text s.file), ("tokens", .array (s.tokens.map tokenJson))]).pretty ++ "\n"

/-- What is printed of a tree. -/
def showTree (i : Invocation) (t : Tree) : String :=
  match i.output with
  | .text => t.dump
  | .json => t.toJson.pretty ++ "\n"

/-- The stream of the file at a path. -/
def readStream (disk : Disk) (path : String) : Except Failure Stream :=
  match disk.read path with
  | .ok text => (Stream.tokenize (Path.fileName path) text).mapError .lexical
  | .error fault => .error (.unreadable path fault)

/-- Shows the tokens of a file. -/
def runLex (i : Invocation) (disk : Disk) (path : String) : Outcome :=
  match readStream disk path with
  | .ok s => ⟨0, i.showStream s, ""⟩
  | .error f => i.failed f

/-- Shows the tree of a file. -/
def runParse (i : Invocation) (build : Build) (disk : Disk) (path : String) : Outcome :=
  match parseFile path (disk.read path) (i.trace build) with
  | .ok t => ⟨0, i.showTree t, ""⟩
  | .error f => i.failed f

/-- The sources that path arguments stand for, in order. -/
def collect (disk : Disk) : List String → Except Failure (List (String × Except ReadFault String))
  | [] => .ok []
  | path :: rest =>
    match DiskEntry.expand path (disk path) with
    | .ok sources => (collect disk rest).map (sources ++ ·)
    | .error (place, fault) => .error (.unreadable place fault)

/-- What a check says of a file, as JSON. -/
def reportJson (r : FileReport) : Json :=
  match r.result with
  | .ok t => .ofFields [("file", .text r.path), ("ok", .bool true), ("nodes", .number t.size)]
  | .error f => .ofFields [("file", .text r.path), ("ok", .bool false), ("error", f.report.toJson)]

/-- The line of a file that is a unit. -/
def okLine (r : FileReport) : String :=
  "ok: " ++ r.path

/-- What is printed of a check, failures apart. -/
def showReports (i : Invocation) (reports : List FileReport) : String :=
  let failed := (reports.filter (fun r => !r.isOk)).length
  match i.output with
  | .text =>
    if i.quiet then ""
    else
      unlines ((reports.filter FileReport.isOk).map okLine
        ++ [s!"{reports.length} file(s) checked, {failed} failed"])
  | .json =>
    (Json.ofFields [("checked", .number reports.length), ("failed", .number failed),
      ("files", .array (reports.map reportJson))]).pretty ++ "\n"

/-- Checks files and directories. -/
def runCheck (i : Invocation) (build : Build) (disk : Disk) (paths : List String) : Outcome :=
  match collect disk paths with
  | .error f => i.failed f
  | .ok sources =>
    let reports := Registry.empty.checkAll (i.trace build) sources
    ⟨if reports.all FileReport.isOk then 0 else 1, i.showReports reports,
      String.join ((reports.filterMap FileReport.failure?).map i.complaint)⟩

/-- Runs a command on a disk. -/
def run (i : Invocation) (disk : Disk) (build : Build := .debug) : Outcome :=
  match i.command with
  | .lex path => i.runLex disk path
  | .parse path => i.runParse build disk path
  | .check paths => i.runCheck build disk paths

end Invocation

end Courier
