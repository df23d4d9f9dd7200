import Courier.Grammar.Construct
import Courier.Token.Stream
import Courier.Tree.Payload

/-!
# Parse failures

Why a stream of tokens is no unit, and what is known about the place and the moment of the failure.
-/

namespace Courier

/-- Why a parse fails. Where something else stands in place of what the grammar asks for, `found` is its text, or none at the end
of the input. -/
inductive ParseFault where
  | expected (what : String) (found : Option String)
  | unclosedReturnType (found : Option String)
  | trailing (found : Option String)
  | unsupportedUnit
  | emptyUnit
  | endOfInput
  | returnAsValue
  | notAValue (text : String)
  | unterminatedArray
  | nestedTooDeeply
  /-- The cursor of the stream was misused. -/
  | cursor (cause : CursorError)
  /-- A production left the chain of constructs other than it found it. -/
  | unbalanced (construct : Construct)
  deriving DecidableEq, Repr, Inhabited

/-- What was found, for the reader. -/
def foundText : Option String → String
  | some text => s!"'{text}'"
  | none => "end of input"

/-- The wording of a fault. -/
def ParseFault.message : ParseFault → String
  | expected what found => s!"expected {what}, found " ++ foundText found
  | unclosedReturnType found => "missing ']' to close the return type, found " ++ foundText found
  | trailing found => "unexpected " ++ foundText found ++ " after the end of the compilation unit"
  | unsupportedUnit => "program and library units are not supported"
  | emptyUnit => "empty compilation unit"
  | endOfInput => "unexpected end of input"
  | returnAsValue => "'return' cannot be used as a value"
  | notAValue text => s!"'{text}' cannot be used as a value"
  | unterminatedArray => "unterminated array literal"
  | nestedTooDeeply => "expression nested too deeply"
  | cursor cause => "token stream: " ++ cause.message
  | unbalanced construct => "parser state corrupted while parsing " ++ construct.name

/-- A parse failure: the fault, the place to blame and its line, the kind of the first node that the innermost production with
nodes of its own destroyed, and the chain of constructs at the moment of the fault, outermost first. -/
structure ParseError where
  file : String
  fault : ParseFault
  location : Location
  sourceLine : String
  discarded : Option Kind
  constructs : List Construct
  deriving DecidableEq, Repr, Inhabited

namespace ParseError

/-- The wording of a parse failure. -/
def message (e : ParseError) : String :=
  e.fault.message

/-- Records what a production destroyed, unless a production inside it destroyed something before. -/
def discarding (e : ParseError) (first : Option Kind) : ParseError :=
  { e with discarded := e.discarded <|> first }

end ParseError

end Courier
