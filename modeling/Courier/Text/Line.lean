import Courier.Text.Location

/-!
# Lines

The lines of a text, for the reader of a diagnostic: where they end (`newlineOffsets`), the one that holds a byte offset
(`lineAt`), and the place behind the last character (`endOfText`). Offsets may lie past the end of the text or inside a
character; `lineAt` is total.
-/

namespace Courier.Text

/-- The bytes that a run of characters takes in UTF-8. -/
def byteLength : List Char → Nat
  | [] => 0
  | c :: cs => c.utf8Size + byteLength cs

@[simp] theorem byteLength_append (xs ys : List Char) : byteLength (xs ++ ys) = byteLength xs + byteLength ys := by
  induction xs with
  | nil => simp [byteLength]
  | cons c cs ih => simp [byteLength, ih, Nat.add_assoc]

/-- A location that is moved over a run of characters is as many bytes further as the run takes. -/
theorem offset_after (p : Location) (cs : List Char) : (p.after cs).offset = p.offset + byteLength cs := by
  induction cs generalizing p with
  | nil => rfl
  | cons c cs ih =>
    rw [Location.after_cons, ih, byteLength]
    unfold Location.next
    split
    · rename_i h
      subst h
      exact Nat.add_assoc _ _ _
    · exact Nat.add_assoc _ _ _

/-- The byte offsets of the line feeds of a text that starts at byte `n`, in increasing order. -/
def newlineOffsets (n : Nat) : List Char → List Nat
  | [] => []
  | c :: cs => if c = '\n' then n :: newlineOffsets (n + 1) cs else newlineOffsets (n + c.utf8Size) cs

/-- A line without one carriage return at its end; the line is given and returned last character first. -/
def dropReturn : List Char → List Char
  | '\r' :: cs => cs
  | cs => cs

/-- The line that is `n` bytes ahead, last character first: `seen` is what has been passed of the line at hand. A line feed
that is still `n` or more bytes ahead ends that line, and any other opens the next one. -/
def lineAhead (seen : List Char) (n : Nat) : List Char → List Char
  | [] => seen
  | c :: cs =>
    if c = '\n' then
      match n with
      | 0 => seen
      | m + 1 => lineAhead [] m cs
    else lineAhead (c :: seen) (n - c.utf8Size) cs

/-- The line that holds the byte offset `n`, without its line feed and without one carriage return before it. The offset of
a line feed lies on the line it ends, and an offset past the end lies on the last line. -/
def lineAt (text : String) (n : Nat) : String :=
  String.ofList (dropReturn (lineAhead [] n text.toList)).reverse

/-- The characters behind the last line feed of a text. -/
def lastLine (cs : List Char) : List Char :=
  (cs.reverse.takeWhile (· != '\n')).reverse

/-- The place behind the last character of a text: the line is counted by line feeds, the column by the characters behind the
last of them. -/
def endOfText (text : String) : Location where
  line := (text.toList.filter (· == '\n')).length + 1
  column := (lastLine text.toList).length + 1
  offset := byteLength text.toList

end Courier.Text
