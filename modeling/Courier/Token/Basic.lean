import Courier.Text.Line
import Courier.Token.Kind
import Courier.Token.Keyword

/-!
# Tokens

A token: its kind, its text as the source has it, and the place it starts at. The bytes it takes follow from those.
-/

namespace Courier

/-- A token of a text. -/
structure Token where
  kind : TokenKind
  text : String
  location : Location
  deriving DecidableEq, Repr, Inhabited

namespace Token

/-- The byte offset of the token's first character. -/
def spanStart (t : Token) : Nat :=
  t.location.offset

/-- The bytes the token takes. -/
def byteLength (t : Token) : Nat :=
  Text.byteLength t.text.toList

/-- The byte offset behind the token's last character. -/
def spanEnd (t : Token) : Nat :=
  t.spanStart + t.byteLength

/-- Whether the token is a comment. -/
def isComment (t : Token) : Bool :=
  t.kind.isComment

/-- The keyword a token is; a token of another kind is none, even if its text is a keyword's. -/
def keyword? (t : Token) : Option Keyword :=
  if t.kind = .keyword then Keyword.ofWord? t.text else none

theorem kind_of_keyword? {t : Token} {k : Keyword} (h : t.keyword? = some k) : t.kind = .keyword := by
  unfold keyword? at h
  split at h
  · assumption
  · nomatch h

theorem keyword?_eq_none {t : Token} (h : t.kind ≠ .keyword) : t.keyword? = none :=
  if_neg h

end Token

end Courier
