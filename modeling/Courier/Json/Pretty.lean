import Courier.Json.Basic

/-!
# JSON as indented text

The text form of a JSON value: one item or field a line, two spaces for each level, and the empty array and object closed on the
spot. Quotes, backslashes and control characters are escaped; every other character stands for itself.
-/

namespace Courier.Json

/-- A hexadecimal digit, in lower case. -/
def hexDigit (n : Nat) : Char :=
  (['0', '1', '2', '3', '4', '5', '6', '7', '8', '9', 'a', 'b', 'c', 'd', 'e', 'f'][n]?).getD '0'

/-- A character inside a quoted text. -/
def escapeChar (c : Char) : List Char :=
  if c = '"' then ['\\', '"']
  else if c = '\\' then ['\\', '\\']
  else if c = '\x08' then ['\\', 'b']
  else if c = '\x0c' then ['\\', 'f']
  else if c = '\n' then ['\\', 'n']
  else if c = '\r' then ['\\', 'r']
  else if c = '\t' then ['\\', 't']
  else if c.toNat < 32 then ['\\', 'u', '0', '0', hexDigit (c.toNat / 16), hexDigit (c.toNat % 16)]
  else [c]

/-- A text between quotes. -/
def quote (s : String) : String :=
  String.ofList ('"' :: (s.toList.flatMap escapeChar ++ ['"']))

/-- A line break, and the indent of a level. -/
def newline (level : Nat) : String :=
  String.ofList ('\n' :: List.replicate (2 * level) ' ')

/-- The pieces of an array or object between its brackets, one a line; none leave the brackets together. -/
def bracket (opening closing : String) (level : Nat) (pieces : List String) : String :=
  if pieces.isEmpty then opening ++ closing
  else opening ++ newline (level + 1) ++ String.intercalate ("," ++ newline (level + 1)) pieces ++ newline level ++ closing

mutual

/-- The text of a value at a level of indentation. -/
def layout (level : Nat) : Json → String
  | null => "null"
  | bool b => if b then "true" else "false"
  | number n => toString n
  | text s => quote s
  | array items => bracket "[" "]" level (layoutItems (level + 1) items)
  | object fields => bracket "\x7b" "\x7d" level (layoutFields (level + 1) fields)

/-- The texts of an array's items. -/
def layoutItems (level : Nat) : List Json → List String
  | [] => []
  | item :: rest => layout level item :: layoutItems level rest

/-- The texts of an object's fields. -/
def layoutFields (level : Nat) : List (String × Json) → List String
  | [] => []
  | (key, value) :: rest => (quote key ++ ": " ++ layout level value) :: layoutFields level rest

end

/-- The indented text of a value. -/
def pretty (value : Json) : String :=
  layout 0 value

end Courier.Json
