/-!
# Locations

A place in a text: the line and the column a reader counts, both from 1 and in characters, and the offset in bytes of the
text's UTF-8 form. A location is moved over characters (`Location.after`), so the three numbers cannot drift apart.
-/

namespace Courier

/-- A place in a text. -/
structure Location where
  line : Nat
  column : Nat
  offset : Nat
  deriving DecidableEq, Repr, Inhabited

/-- The place before the first character of a text. -/
def Location.start : Location :=
  ⟨1, 1, 0⟩

/-- The place of a failure that is about a whole file and no place in it. -/
def Location.nowhere : Location :=
  ⟨0, 0, 0⟩

/-- The place behind one more character: a line feed opens the next line, any other character takes one column. -/
def Location.next (p : Location) (c : Char) : Location :=
  if c = '\n' then ⟨p.line + 1, 1, p.offset + 1⟩ else ⟨p.line, p.column + 1, p.offset + c.utf8Size⟩

/-- The place behind a run of characters. -/
def Location.after (p : Location) (cs : List Char) : Location :=
  cs.foldl Location.next p

@[simp] theorem Location.after_nil (p : Location) : p.after [] = p := rfl

@[simp] theorem Location.after_cons (p : Location) (c : Char) (cs : List Char) :
    p.after (c :: cs) = (p.next c).after cs := rfl

/-- Moving over two runs is moving over the one and then over the other. -/
theorem Location.after_append (p : Location) (xs ys : List Char) : p.after (xs ++ ys) = (p.after xs).after ys := by
  simp [Location.after, List.foldl_append]

end Courier
