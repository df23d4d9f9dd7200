/-!
# JSON values

The values that trees and reports are shown as. Numbers are natural numbers, the only ones that occur. An object is built from
its fields in any order (`Json.ofFields`) and holds them sorted by key.
-/

namespace Courier

/-- A JSON value. -/
inductive Json where
  | null
  | bool (b : Bool)
  | number (n : Nat)
  | text (s : String)
  | array (items : List Json)
  | object (fields : List (String × Json))
  deriving Repr, Inhabited

namespace Json

/-- A field put in front of the first field with a greater key. -/
def insertField (field : String × Json) : List (String × Json) → List (String × Json)
  | [] => [field]
  | other :: rest => if field.1 < other.1 then field :: other :: rest else other :: insertField field rest

/-- The object with the given fields, sorted by key. -/
def ofFields (fields : List (String × Json)) : Json :=
  .object (fields.foldr insertField [])

/-- A text or, where there is none, null. -/
def ofText? : Option String → Json
  | some s => .text s
  | none => .null

/-- An array of texts. -/
def ofTexts (texts : List String) : Json :=
  .array (texts.map .text)

/-- A field that is only there for a non-empty list. -/
def fieldOfItems (key : String) (items : List Json) : List (String × Json) :=
  if items.isEmpty then [] else [(key, .array items)]

end Json

end Courier
