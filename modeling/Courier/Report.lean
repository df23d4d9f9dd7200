import Courier.Grammar.Fault
import Courier.Json.Basic
import Courier.Source.Fault

/-!
# Reports

What a reader is told of a failure: the line to blame with a caret under the column, the place and the wording. A report is shown
in full (`Report.render`), on one line (`Report.line`) and as JSON.
-/

namespace Courier

/-- What is told of a failure at a place of a file. -/
structure Diagnostic where
  file : String
  location : Location
  message : String
  sourceLine : String
  deriving DecidableEq, Repr, Inhabited

namespace Diagnostic

/-- The characters that put the caret under a column: a tab under a tab and a space under anything else, as far as the line
goes. -/
def caretPad (column : Nat) (sourceLine : List Char) : List Char :=
  (sourceLine.take (column - 1)).map (fun c => if c = '\t' then '\t' else ' ')

/-- The place of a failure, for the reader. -/
def place (d : Diagnostic) : String :=
  s!"{d.file}:{d.location.line}:{d.location.column}"

/-- The source line, the caret and the message. A failure that has no place is told by its message alone. -/
def render (d : Diagnostic) : String :=
  if d.location.line = 0 then s!"{d.file}: error: {d.message}"
  else
    d.sourceLine ++ "\n" ++ String.ofList (caretPad d.location.column d.sourceLine.toList) ++ "^\n"
      ++ d.place ++ ": error: " ++ d.message

/-- The place and the message. -/
def line (d : Diagnostic) : String :=
  d.place ++ ": " ++ d.message

/-- The fields of a diagnostic. -/
def fields (d : Diagnostic) : List (String × Json) :=
  [("file", .text d.file), ("line", .number d.location.line), ("column", .number d.location.column),
    ("offset", .number d.location.offset), ("message", .text d.message), ("source_line", .text d.sourceLine)]

end Diagnostic

/-- What is told of a failure of one file. -/
inductive Report where
  /-- The text cannot be cut into tokens. -/
  | lexical (d : Diagnostic)
  /-- The tokens are no unit. `discarded` is the kind of a node destroyed, `constructs` the chain the parse was inside of. -/
  | parse (d : Diagnostic) (discarded : Option String) (constructs : List String)
  /-- The file cannot be read. -/
  | unreadable (path reason : String)
  deriving DecidableEq, Repr, Inhabited

namespace Report

/-- The report on one line. -/
def line : Report → String
  | lexical d | parse d _ _ => d.line
  | unreadable path reason => s!"cannot read '{path}': {reason}"

/-- The line that tells the constructs a parse was inside of, if any are known. -/
def trail (constructs : List String) : String :=
  if constructs.isEmpty then "" else "\n  while parsing: " ++ String.intercalate " > " constructs

/-- The report in full. -/
def render : Report → String
  | lexical d => d.render
  | parse d _ constructs => d.render ++ trail constructs
  | unreadable path reason => "error: " ++ line (unreadable path reason)

/-- The report as JSON. -/
def toJson : Report → Json
  | lexical d => .ofFields (("kind", .text "lex") :: d.fields)
  | parse d discarded constructs =>
    .ofFields (("kind", .text "parse") :: ("discarded", .ofText? discarded) :: ("states", .ofTexts constructs) :: d.fields)
  | unreadable path reason => .ofFields [("kind", .text "io"), ("file", .text path), ("message", .text reason)]

end Report

/-- A failure of one file, by its cause. -/
inductive Failure where
  | lexical (e : LexError)
  | parse (e : ParseError)
  | unreadable (path : String) (fault : ReadFault)
  deriving DecidableEq, Repr, Inhabited

/-- The report of a lexical failure. -/
def LexError.report (e : LexError) : Report :=
  .lexical ⟨e.file, e.location, e.message, e.sourceLine⟩

/-- The report of a parse failure. -/
def ParseError.report (e : ParseError) : Report :=
  .parse ⟨e.file, e.location, e.message, e.sourceLine⟩ (e.discarded.map Kind.name) (e.constructs.map Construct.name)

/-- The report of a failure. -/
def Failure.report : Failure → Report
  | lexical e => e.report
  | parse e => e.report
  | unreadable path fault => .unreadable path fault.message

end Courier
