import Courier.Token.Basic
import Courier.Token.Lexeme

/-!
# Scanning

Cutting a whole text into tokens: blanks are skipped, and lexemes are read one behind the other until the text is used up or
one of them is at fault. Every lexeme takes at least one character, so a scan ends.
-/

namespace Courier

/-- A failure to cut a file's text into tokens: the fault, the place to blame and the line that holds it. -/
structure LexError where
  file : String
  fault : LexFault
  location : Location
  sourceLine : String
  deriving DecidableEq, Repr, Inhabited

/-- The wording of a lexical failure. -/
def LexError.message (e : LexError) : String :=
  e.fault.message

/-- The failure of a file that is tokenized a second time; it has no place. -/
def LexError.alreadyTokenized (file : String) : LexError :=
  ⟨file, .alreadyTokenized file, .nowhere, ""⟩

/-- The tokens of a text that starts at `p`, or the first fault and its place. `fuel` bounds the blanks and lexemes passed; the
length of the text is enough. -/
def scan : Nat → Location → List Char → Except (LexFault × Location) (List Token)
  | _, _, [] => .ok []
  | 0, _, _ :: _ => .ok []
  | fuel + 1, p, c :: cs =>
    if Text.isBlank c then scan fuel (p.next c) cs
    else
      match Lexeme.read c cs with
      | .token kind text rest => (scan fuel (p.after text) rest).map (⟨kind, String.ofList text, p⟩ :: ·)
      | .fault cause before => .error (cause, p.after before)

/-- The tokens of a text that starts at a place, or the first fault and its place. -/
def tokensFrom (p : Location) (cs : List Char) : Except (LexFault × Location) (List Token) :=
  scan cs.length p cs

/-- The tokens of a whole text, in order, or the first fault and its place. -/
def tokensOf (text : String) : Except (LexFault × Location) (List Token) :=
  tokensFrom .start text.toList

end Courier
