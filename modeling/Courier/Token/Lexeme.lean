import Courier.Text.Class
import Courier.Token.Kind
import Courier.Token.Keyword

/-!
# Lexemes

How one token is read off the front of a text. Each class of token has its own reader, and the first character picks the reader
(`Lexeme.read`). A reader splits the text into the lexeme and what is left, or names the fault and the characters that lie
before the place to blame.
-/

namespace Courier

/-- Why a text cannot be cut into tokens. -/
inductive LexFault where
  /-- A character that starts no token, or that runs on from a word. -/
  | invalidCharacter (c : Char)
  /-- A character that runs on from a number. -/
  | invalidInNumber (c : Char)
  /-- A decimal digit that runs on from a binary number. -/
  | invalidBinaryDigit (c : Char)
  /-- Two dots in a row inside a number. -/
  | unexpectedDot
  /-- A radix mark without digits, or a dotted number that ends in its dot. -/
  | malformedNumber
  /-- Two colons in a row. -/
  | reservedColons
  | unterminatedString
  | unterminatedComment
  /-- The file of this name was tokenized before. -/
  | alreadyTokenized (file : String)
  deriving DecidableEq, Repr, Inhabited

/-- The wording of a fault. -/
def LexFault.message : LexFault → String
  | invalidCharacter c => s!"invalid character '{c}'"
  | invalidInNumber c => s!"invalid character '{c}' in numeric literal"
  | invalidBinaryDigit c => s!"invalid binary digit '{c}'"
  | unexpectedDot => "unexpected '.' in numeric literal"
  | malformedNumber => "malformed numeric literal"
  | reservedColons => "'::' is reserved"
  | unterminatedString => "unterminated string literal"
  | unterminatedComment => "unterminated block comment"
  | alreadyTokenized file => s!"file '{file}' has already been tokenized"

/-- What a reader makes of the front of a text. -/
inductive Lexeme where
  /-- A token's kind and text, and the text behind it. -/
  | token (kind : TokenKind) (text rest : List Char)
  /-- A fault, and the characters before the place it is reported at. -/
  | fault (cause : LexFault) (before : List Char)
  deriving DecidableEq, Repr, Inhabited

namespace Lexeme

/-- The kind of a word: a boolean literal, another keyword or an identifier. -/
def wordKind (word : List Char) : TokenKind :=
  match Keyword.ofWord? (String.ofList word) with
  | some .trueWord | some .falseWord => .booleanLiteral
  | some _ => .keyword
  | none => .identifier

/-- A word is taken as long as it goes and must be followed by a terminator. -/
def readWord (cs : List Char) : Lexeme :=
  let word := cs.takeWhile Text.isWordChar
  let rest := cs.dropWhile Text.isWordChar
  match rest with
  | [] => .token (wordKind word) word rest
  | c :: _ => if Text.isTerminator c then .token (wordKind word) word rest else .fault (.invalidCharacter c) word

/-- The end of a number: a terminator must follow it, and only then its own shape is looked at. -/
def closeNumber (kind : TokenKind) (wellFormed : Bool) (number rest : List Char) : Lexeme :=
  match rest.head?.filter (fun c => !Text.isTerminator c) with
  | some c => .fault (.invalidInNumber c) number
  | none => if wellFormed then .token kind number rest else .fault .malformedNumber []

/-- A hexadecimal number, read behind its mark, needs a digit. -/
def readHexadecimal (mark cs : List Char) : Lexeme :=
  let digits := cs.takeWhile Text.isHexDigit
  closeNumber .hexadecimalLiteral (!digits.isEmpty) (mark ++ digits) (cs.dropWhile Text.isHexDigit)

/-- A binary number, read behind its mark, needs a digit, and no other decimal digit may follow. -/
def readBinary (mark cs : List Char) : Lexeme :=
  let digits := cs.takeWhile Text.isBinaryDigit
  let rest := cs.dropWhile Text.isBinaryDigit
  match rest.head?.filter Text.isDigit with
  | some c => .fault (.invalidBinaryDigit c) (mark ++ digits)
  | none => closeNumber .binaryLiteral (!digits.isEmpty) (mark ++ digits) rest

/-- What lies before the second of the first two dots in a row, if there are two in a row. -/
def beforeSecondDot : List Char → Option (List Char)
  | '.' :: '.' :: _ => some ['.']
  | c :: cs => (beforeSecondDot cs).map (c :: ·)
  | [] => none

/-- What a decimal number may hold. -/
def isDigitOrDot (c : Char) : Bool :=
  Text.isDigit c || c == '.'

/-- The kind of a run of digits and dots: one dot makes a decimal, more make a version. -/
def dottedKind (run : List Char) : TokenKind :=
  match run.count '.' with
  | 0 => .integerLiteral
  | 1 => .decimalLiteral
  | _ => .versionLiteral

/-- A number of digits and dots is taken as long as it goes; it holds no two dots in a row and does not end in one. -/
def readDotted (cs : List Char) : Lexeme :=
  let run := cs.takeWhile isDigitOrDot
  match beforeSecondDot run with
  | some before => .fault .unexpectedDot before
  | none => closeNumber (dottedKind run) (run.getLast? != some '.') run (cs.dropWhile isDigitOrDot)

/-- A number: a mark behind a single leading zero picks the radix. -/
def readNumber (cs : List Char) : Lexeme :=
  match cs with
  | '0' :: 'x' :: rest => readHexadecimal ['0', 'x'] rest
  | '0' :: 'X' :: rest => readHexadecimal ['0', 'X'] rest
  | '0' :: 'b' :: rest => readBinary ['0', 'b'] rest
  | '0' :: 'B' :: rest => readBinary ['0', 'B'] rest
  | _ => readDotted cs

/-- A string, read behind its opening quote, goes to the next quote; line feeds are part of it. -/
def readString (cs : List Char) : Lexeme :=
  match cs.dropWhile (fun c => !Text.isQuote c) with
  | [] => .fault .unterminatedString []
  | quote :: rest => .token .stringLiteral ('"' :: (cs.takeWhile (fun c => !Text.isQuote c) ++ [quote])) rest

/-- The text up to and including the first closing mark of a block comment, and what is left. -/
def closeComment : List Char → Option (List Char × List Char)
  | '}' :: '#' :: rest => some (['}', '#'], rest)
  | c :: cs => (closeComment cs).map (fun (body, rest) => (c :: body, rest))
  | [] => none

/-- A block comment, read behind its opening mark. -/
def readBlockComment (cs : List Char) : Lexeme :=
  match closeComment cs with
  | some (body, rest) => .token .blockComment ('#' :: '{' :: body) rest
  | none => .fault .unterminatedComment []

/-- A line comment, read behind its mark, goes to the line feed; one carriage return before that is no part of it. -/
def readLineComment (cs : List Char) : Lexeme :=
  let body := cs.takeWhile (· != '\n')
  let rest := cs.dropWhile (· != '\n')
  if body.getLast? = some '\r' then .token .lineComment ('#' :: body.dropLast) ('\r' :: rest)
  else .token .lineComment ('#' :: body) rest

/-- A comment, read behind its mark: an opening brace right there makes a block comment. -/
def readComment (cs : List Char) : Lexeme :=
  match cs with
  | '{' :: rest => readBlockComment rest
  | _ => readLineComment cs

/-- A colon, read behind it: an equals sign makes an assignment, and a second colon is reserved. -/
def readColon (cs : List Char) : Lexeme :=
  match cs with
  | '=' :: rest => .token .assignment [':', '='] rest
  | ':' :: _ => .fault .reservedColons []
  | _ => .token .colon [':'] cs

/-- A reserved character that is a token of its own; nothing else is left to start a token. -/
def readSingle (c : Char) (cs : List Char) : Lexeme :=
  match TokenKind.ofChar? c with
  | some kind => .token kind [c] cs
  | none => .fault (.invalidCharacter c) []

/-- The lexeme at the front of a text whose first character is `c`, no blank. -/
def read (c : Char) (cs : List Char) : Lexeme :=
  if Text.isLetter c then readWord (c :: cs)
  else if Text.isDigit c then readNumber (c :: cs)
  else if Text.isQuote c then readString cs
  else if Text.isCommentMark c then readComment cs
  else if c = ':' then readColon cs
  else readSingle c cs

end Lexeme

end Courier
