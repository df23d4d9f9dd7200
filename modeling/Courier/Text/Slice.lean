import Courier.Text.Line

/-!
# Slices

Parts of a text, told by numbers of bytes. A number that lies past the end of the text or inside a character tells no part, so
these lookups may fail. The line that holds a byte is looked up in this way by `walkLine?`: it walks over single bytes from there
to both ends of the line and takes the part in between.
-/

namespace Courier.Text

/-- What is left of a text behind its first `n` bytes. There must be as many, and they must be whole characters. -/
def dropBytes? : Nat → List Char → Option (List Char)
  | 0, cs => some cs
  | _ + 1, [] => none
  | n + 1, c :: cs => if c.utf8Size ≤ n + 1 then dropBytes? (n + 1 - c.utf8Size) cs else none

/-- The first `n` bytes of a text. There must be as many, and they must be whole characters. -/
def takeBytes? : Nat → List Char → Option (List Char)
  | 0, _ => some []
  | _ + 1, [] => none
  | n + 1, c :: cs => if c.utf8Size ≤ n + 1 then (takeBytes? (n + 1 - c.utf8Size) cs).map (c :: ·) else none

/-- The part of a text between two numbers of bytes. -/
def slice? (cs : List Char) (start stop : Nat) : Option (List Char) :=
  if start ≤ stop then (dropBytes? start cs).bind (takeBytes? (stop - start)) else none

/-! ## The line of a byte -/

/-- The start of the line that holds the byte `n`: back from there until a line feed is right before, or the text starts. Each byte
that is passed must be one of the text. -/
def lineStart? (src : ByteArray) : Nat → Option Nat
  | 0 => some 0
  | n + 1 =>
    match src[n]? with
    | some b => if b = 10 then some (n + 1) else lineStart? src n
    | none => none

/-- The end of the line that holds the byte `n`: on from there until a line feed is at hand, or the text ends. -/
def lineEnd (src : ByteArray) (n : Nat) : Nat :=
  if h : n < src.size then
    if src[n] = 10 then n else lineEnd src (n + 1)
  else n
termination_by src.size - n

/-- The line that holds a byte, without one carriage return at its end. A byte past the end is taken for the end of the text. -/
def walkLine? (text : String) (offset : Nat) : Option String := do
  let n := min offset text.toUTF8.size
  let start ← lineStart? text.toUTF8 n
  let line ← slice? text.toList start (lineEnd text.toUTF8 n)
  return String.ofList (dropReturn line.reverse).reverse

end Courier.Text
