import Courier.Text.Line
import Courier.Token.Keyword
import Courier.Token.Kind
import Mathlib.Data.List.Infix

/-!
# The lexical grammar

What the lexemes of a text are, said without reading it: `IsLexeme kind text rest` if `text` is a lexeme of a kind in front of `rest`,
and `Lexes n cs spans` if a text that starts at byte `n` is blanks and lexemes with the given kinds, starts and ends. The
classes of characters are listed here once more, so that nothing of the scanner stands behind these definitions.
-/

namespace Courier.Lexical

/-! ## Characters -/

/-- A blank: space, tab, line feed, carriage return, vertical tab, form feed. -/
def Blank (c : Char) : Prop :=
  c ∈ [' ', '\t', '\n', '\r', '\x0b', '\x0c']

/-- A letter or an underscore. -/
def Letter (c : Char) : Prop :=
  ('a' ≤ c ∧ c ≤ 'z') ∨ ('A' ≤ c ∧ c ≤ 'Z') ∨ c = '_'

/-- A decimal digit. -/
def Digit (c : Char) : Prop :=
  '0' ≤ c ∧ c ≤ '9'

/-- A hexadecimal digit, in either case. -/
def HexDigit (c : Char) : Prop :=
  Digit c ∨ ('a' ≤ c ∧ c ≤ 'f') ∨ ('A' ≤ c ∧ c ≤ 'F')

/-- The characters that are tokens of their own, with their kinds. -/
def singles : List (Char × TokenKind) :=
  [('+', .plus), ('-', .minus), ('*', .multiply), ('/', .divide), ('%', .modulo), (',', .comma), ('.', .dot), ('@', .atSign),
    (';', .endOfStatement), ('(', .leftParen), (')', .rightParen), ('{', .leftBrace), ('}', .rightBrace),
    ('[', .leftBracket), (']', .rightBracket)]

/-- A reserved character: one that is a token of its own, a colon or a comment mark. -/
def Reserved (c : Char) : Prop :=
  c ∈ singles.map Prod.fst ∨ c = ':' ∨ c = '#'

/-- A word or a number ends in front of a blank, a reserved character or the end of the text. -/
def EndsRun (rest : List Char) : Prop :=
  ∀ c ∈ rest.head?, Blank c ∨ Reserved c

/-! ## Lexemes -/

/-- The kind of a word, which may be a keyword in any case of its letters. -/
inductive WordKind (word : List Char) : TokenKind → Prop where
  | boolean {k : Keyword} (hk : k = .trueWord ∨ k = .falseWord) (h : word.map Char.toLower = k.text.toList) :
      WordKind word .booleanLiteral
  | keyword {k : Keyword} (hk : k ≠ .trueWord ∧ k ≠ .falseWord) (h : word.map Char.toLower = k.text.toList) :
      WordKind word .keyword
  | identifier (h : ∀ k : Keyword, word.map Char.toLower ≠ k.text.toList) : WordKind word .identifier

/-- Groups of digits with `dots` single dots between them. -/
inductive Dotted : (dots : Nat) → List Char → Prop where
  | digits {ds : List Char} (hne : ds ≠ []) (hds : ∀ d ∈ ds, Digit d) : Dotted 0 ds
  | dot {ds run : List Char} {n : Nat} (hne : ds ≠ []) (hds : ∀ d ∈ ds, Digit d) (hrun : Dotted n run) :
      Dotted (n + 1) (ds ++ '.' :: run)

/-- The kind of a number of digits and dots. -/
def numberKind : (dots : Nat) → TokenKind
  | 0 => .integerLiteral
  | 1 => .decimalLiteral
  | _ => .versionLiteral

/-- The text is a lexeme of the kind in front of the rest. -/
inductive IsLexeme : TokenKind → List Char → List Char → Prop where
  | word {kind : TokenKind} {c : Char} {cs rest : List Char} (hc : Letter c) (hcs : ∀ d ∈ cs, Letter d ∨ Digit d)
      (hkind : WordKind (c :: cs) kind) (hend : EndsRun rest) : IsLexeme kind (c :: cs) rest
  | hexadecimal {x : Char} {ds rest : List Char} (hx : x = 'x' ∨ x = 'X') (hne : ds ≠ []) (hds : ∀ d ∈ ds, HexDigit d)
      (hend : EndsRun rest) : IsLexeme .hexadecimalLiteral ('0' :: x :: ds) rest
  | binary {x : Char} {ds rest : List Char} (hx : x = 'b' ∨ x = 'B') (hne : ds ≠ []) (hds : ∀ d ∈ ds, d = '0' ∨ d = '1')
      (hend : EndsRun rest) : IsLexeme .binaryLiteral ('0' :: x :: ds) rest
  /-- A run of digits and dots is taken as long as it goes, so no dot stands behind it. -/
  | dotted {n : Nat} {run rest : List Char} (hrun : Dotted n run) (hend : EndsRun rest) (hdot : rest.head? ≠ some '.') :
      IsLexeme (numberKind n) run rest
  | string {body rest : List Char} (hbody : '"' ∉ body) : IsLexeme .stringLiteral ('"' :: (body ++ ['"'])) rest
  | assignment {rest : List Char} : IsLexeme .assignment [':', '='] rest
  | colon {rest : List Char} (hrest : rest.head? ≠ some '=' ∧ rest.head? ≠ some ':') : IsLexeme .colon [':'] rest
  /-- A block comment goes to the first closing mark behind its opening mark. -/
  | blockComment {body rest : List Char} (hbody : ¬['}', '#'] <:+: body) :
      IsLexeme .blockComment ('#' :: '{' :: (body ++ ['}', '#'])) rest
  /-- A line comment goes to the line feed or to the end of the text; one carriage return in front of that is left out. -/
  | lineComment {body returns rest : List Char} (hbody : '\n' ∉ body)
      (hreturns : returns = ['\r'] ∨ returns = [] ∧ body.getLast? ≠ some '\r')
      (hrest : rest = [] ∨ rest.head? = some '\n') (hmark : (body ++ (returns ++ rest)).head? ≠ some '{') :
      IsLexeme .lineComment ('#' :: body) (returns ++ rest)
  | single {kind : TokenKind} {c : Char} {rest : List Char} (hc : (c, kind) ∈ singles) : IsLexeme kind [c] rest

/-! ## Texts -/

/-- The kind of a token, the byte it starts at and the byte behind its last one. -/
abbrev Span : Type :=
  TokenKind × Nat × Nat

/-- A text that starts at byte `n` is blanks and lexemes, which have the given spans in order. -/
inductive Lexes : Nat → List Char → List Span → Prop where
  | nil {n : Nat} : Lexes n [] []
  | blank {n : Nat} {c : Char} {cs : List Char} {spans : List Span} (hc : Blank c) (h : Lexes (n + c.utf8Size) cs spans) :
      Lexes n (c :: cs) spans
  | lexeme {n : Nat} {kind : TokenKind} {text rest : List Char} {spans : List Span} (hl : IsLexeme kind text rest)
      (h : Lexes (n + Text.byteLength text) rest spans) :
      Lexes n (text ++ rest) ((kind, n, n + Text.byteLength text) :: spans)

end Courier.Lexical
