/-!
# Character classes

The classes a text is cut by. Every class holds ASCII characters only, so a character beyond ASCII ends whatever run it meets
and starts nothing. A run (a word or a number) may end only at a terminator: a blank or a reserved character.
-/

namespace Courier.Text

/-- A blank separates tokens and belongs to none: space, tab, line feed, carriage return, vertical tab, form feed. -/
def isBlank (c : Char) : Bool :=
  c == ' ' || c == '\t' || c == '\n' || c == '\r' || c == '\x0b' || c == '\x0c'

/-- A decimal digit. -/
def isDigit (c : Char) : Bool :=
  '0' ≤ c && c ≤ '9'

/-- A letter or an underscore: what a word may start with. -/
def isLetter (c : Char) : Bool :=
  ('a' ≤ c && c ≤ 'z') || ('A' ≤ c && c ≤ 'Z') || c == '_'

/-- What a word may go on with. -/
def isWordChar (c : Char) : Bool :=
  isLetter c || isDigit c

/-- A hexadecimal digit, in either case. -/
def isHexDigit (c : Char) : Bool :=
  isDigit c || ('a' ≤ c && c ≤ 'f') || ('A' ≤ c && c ≤ 'F')

/-- A binary digit. -/
def isBinaryDigit (c : Char) : Bool :=
  c == '0' || c == '1'

/-- The quote that opens and closes a string. -/
def isQuote (c : Char) : Bool :=
  c == '"'

/-- The mark that opens a comment. -/
def isCommentMark (c : Char) : Bool :=
  c == '#'

/-- The characters that end a run and start a token of their own. -/
def reserved : List Char :=
  ['(', ')', '[', ']', '{', '}', ';', '+', '-', '/', '*', ':', '@', '.', '#', ',', '%']

/-- A reserved character ends a run and starts a token of its own. -/
def isReserved (c : Char) : Bool :=
  reserved.contains c

/-- What a word or a number may be followed by. -/
def isTerminator (c : Char) : Bool :=
  isBlank c || isReserved c

end Courier.Text
