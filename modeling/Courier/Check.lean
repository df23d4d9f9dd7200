import Courier.Grammar.Parse
import Courier.Path
import Courier.Report
import Courier.Token.Registry

/-!
# Checking files

A check tokenizes and parses files one by one, each under the name of its path. One registry serves the whole check, so a file
that is named twice is refused the second time, unless its text could not be cut into tokens the first time.
-/

namespace Courier

/-- What a check says of one path: the tree of its file, or its failure. -/
structure FileReport where
  path : String
  result : Except Failure Tree

namespace FileReport

/-- Whether the file is a unit. -/
def isOk (r : FileReport) : Bool :=
  r.result.isOk

/-- The failure of a file that is none. -/
def failure? (r : FileReport) : Option Failure :=
  match r.result with
  | .ok _ => none
  | .error f => some f

end FileReport

/-- Tokenizes and parses a text as the file of a name. -/
def parseSource (file text : String) (trace : Bool) : Except Failure Tree :=
  match Stream.tokenize file text with
  | .ok s => (s.parse trace).1.mapError .parse
  | .error e => .error (.lexical e)

/-- Reads and parses the file at a path, given what reading it gives. -/
def parseFile (path : String) (content : Except ReadFault String) (trace : Bool) : Except Failure Tree :=
  match content with
  | .ok text => parseSource (Path.fileName path) text trace
  | .error fault => .error (.unreadable path fault)

namespace Registry

/-- Checks one file, given what reading it gives. Its stream stays in the registry as the parser left it. -/
def checkOne (r : Registry) (trace : Bool) (path : String) (content : Except ReadFault String) : FileReport × Registry :=
  match content with
  | .error fault => (⟨path, .error (.unreadable path fault)⟩, r)
  | .ok text =>
    let name := Path.fileName path
    match r.tokenize name text with
    | .error e => (⟨path, .error (.lexical e)⟩, r)
    | .ok (s, r) =>
      let (result, rest) := s.parse trace
      (⟨path, result.mapError .parse⟩, r.update name rest)

/-- Checks files in order, given what reading them gives. -/
def checkAll (r : Registry) (trace : Bool) : List (String × Except ReadFault String) → List FileReport
  | [] => []
  | (path, content) :: rest =>
    let (report, r) := r.checkOne trace path content
    report :: r.checkAll trace rest

end Registry

/-- Checks the files at some paths, in order, with one registry. -/
def checkFiles (read : String → Except ReadFault String) (paths : List String) (trace : Bool) : List FileReport :=
  Registry.empty.checkAll trace (paths.map (fun path => (path, read path)))

end Courier
