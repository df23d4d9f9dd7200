/-!
# Token kinds

The kinds of token and their names, the kinds that are comments, literals or message operators, and the kinds of the tokens that
are a single reserved character.
-/

namespace Courier

/-- The kind of a token. -/
inductive TokenKind where
  | integerLiteral | decimalLiteral | hexadecimalLiteral | binaryLiteral | versionLiteral | stringLiteral | booleanLiteral
  | identifier | keyword
  | plus | minus | multiply | divide | modulo | assignment
  | colon | comma | dot | atSign | endOfStatement
  | leftParen | rightParen | leftBrace | rightBrace | leftBracket | rightBracket
  | lineComment | blockComment
  deriving DecidableEq, Repr, Inhabited

namespace TokenKind

/-- The name a kind is shown by. -/
def name : TokenKind → String
  | integerLiteral => "INTEGER_LITERAL"
  | decimalLiteral => "DECIMAL_LITERAL"
  | hexadecimalLiteral => "HEXADECIMAL_LITERAL"
  | binaryLiteral => "BINARY_LITERAL"
  | versionLiteral => "VERSION_LITERAL"
  | stringLiteral => "STRING_LITERAL"
  | booleanLiteral => "BOOLEAN_LITERAL"
  | identifier => "IDENTIFIER"
  | keyword => "KEYWORD"
  | plus => "PLUS"
  | minus => "MINUS"
  | multiply => "MULTIPLY"
  | divide => "DIVIDE"
  | modulo => "MODULO"
  | assignment => "ASSIGNMENT"
  | colon => "COLON"
  | comma => "COMMA"
  | dot => "DOT"
  | atSign => "AT"
  | endOfStatement => "END_OF_STATEMENT"
  | leftParen => "LEFT_PAREN"
  | rightParen => "RIGHT_PAREN"
  | leftBrace => "LEFT_BRACE"
  | rightBrace => "RIGHT_BRACE"
  | leftBracket => "LEFT_BRACKET"
  | rightBracket => "RIGHT_BRACKET"
  | lineComment => "LINE_COMMENT"
  | blockComment => "BLOCK_COMMENT"

/-- Comments may stand anywhere and never change what is parsed. -/
def isComment : TokenKind → Bool
  | lineComment | blockComment => true
  | _ => false

/-- The literals, a version among them. -/
def isLiteral : TokenKind → Bool
  | integerLiteral | decimalLiteral | hexadecimalLiteral | binaryLiteral | versionLiteral | stringLiteral
  | booleanLiteral => true
  | _ => false

/-- The operators that may be sent as a message. -/
def isMessageOperator : TokenKind → Bool
  | plus | minus | multiply | divide | modulo | assignment => true
  | _ => false

/-- The kind of the token that is one reserved character. The reserved characters missing here are the colon and the comment
mark, which may start longer tokens. -/
def ofChar? : Char → Option TokenKind
  | '+' => some plus
  | '-' => some minus
  | '*' => some multiply
  | '/' => some divide
  | '%' => some modulo
  | ',' => some comma
  | '.' => some dot
  | '@' => some atSign
  | ';' => some endOfStatement
  | '(' => some leftParen
  | ')' => some rightParen
  | '{' => some leftBrace
  | '}' => some rightBrace
  | '[' => some leftBracket
  | ']' => some rightBracket
  | _ => none

end TokenKind

end Courier
