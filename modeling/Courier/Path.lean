/-!
# Paths

Paths by their text alone. Two texts may name the same place; the name of a file is the text of its path's normal form
(`Path.fileName`), in which no step cancels another. Links are not followed, since no file system is asked.
-/

namespace Courier

/-- A step of a path: to the parent, or down to a name. -/
inductive PathStep where
  | up
  | down (name : String)
  deriving DecidableEq, Repr, Inhabited

/-- A path: from the root or from the place one is at, and the steps from there. -/
structure Path where
  absolute : Bool
  steps : List PathStep
  deriving DecidableEq, Repr, Inhabited

namespace Path

/-- The pieces of a text between its slashes. -/
def segments : List Char → List (List Char)
  | [] => [[]]
  | c :: cs =>
    if c = '/' then [] :: segments cs
    else
      match segments cs with
      | piece :: rest => (c :: piece) :: rest
      | [] => [[c]]

/-- The step that a piece stands for. An empty piece and a single dot stand for none. -/
def stepOf? (piece : List Char) : Option PathStep :=
  match piece with
  | [] | ['.'] => none
  | ['.', '.'] => some .up
  | name => some (.down (String.ofList name))

/-- The path a text stands for. -/
def ofText (text : String) : Path :=
  ⟨text.toList.head? = some '/', (segments text.toList).filterMap stepOf?⟩

/-- The text of a step. -/
def stepText : PathStep → String
  | .up => ".."
  | .down name => name

/-- The text of a path, with one slash between steps. -/
def toText (p : Path) : String :=
  (if p.absolute then "/" else "") ++ String.intercalate "/" (p.steps.map stepText)

/-- The normal steps after one more step, last step first: a step up cancels a name before it and is lost at the root. -/
def takeStep (absolute : Bool) (taken : List PathStep) : PathStep → List PathStep
  | .down name => .down name :: taken
  | .up =>
    match taken with
    | .down _ :: rest => rest
    | .up :: rest => .up :: .up :: rest
    | [] => if absolute then [] else [.up]

/-- The normal form of a path: the same place, without a step that a later one cancels. -/
def normalize (p : Path) : Path :=
  ⟨p.absolute, (p.steps.foldl (takeStep p.absolute) []).reverse⟩

/-- The name of the file at a path: the text of the path's normal form. -/
def fileName (text : String) : String :=
  (normalize (ofText text)).toText

end Path

end Courier
