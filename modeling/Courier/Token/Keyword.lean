/-!
# Keywords

The reserved words. A word is a keyword whatever the case of its letters; the words `true` and `false` are keywords too, but
their tokens are boolean literals.
-/

namespace Courier

/-- A reserved word. -/
inductive Keyword where
  | ifWord | elseWord | trueWord | falseWord
  | moduleWord | program | lib | importWord | namespaceWord
  | classWord | record | inherits | implements
  | privateWord | publicWord | static
  | returnWord | nil | self | super | msg
  deriving DecidableEq, Repr, Inhabited

namespace Keyword

/-- Every keyword, in the order of the language's table. -/
def all : List Keyword :=
  [ifWord, elseWord, trueWord, falseWord, moduleWord, program, lib, importWord, namespaceWord, classWord, record, inherits,
    implements, privateWord, publicWord, static, returnWord, nil, self, super, msg]

/-- The lower-case form of a keyword. -/
def text : Keyword → String
  | ifWord => "if"
  | elseWord => "else"
  | trueWord => "true"
  | falseWord => "false"
  | moduleWord => "module"
  | program => "program"
  | lib => "lib"
  | importWord => "import"
  | namespaceWord => "namespace"
  | classWord => "class"
  | record => "record"
  | inherits => "inherits"
  | implements => "implements"
  | privateWord => "private"
  | publicWord => "public"
  | static => "static"
  | returnWord => "return"
  | nil => "nil"
  | self => "self"
  | super => "super"
  | msg => "msg"

/-- The keyword a word is, whatever the case of its ASCII letters. -/
def ofWord? (word : String) : Option Keyword :=
  all.find? (fun k => k.text.toList == word.toList.map Char.toLower)

end Keyword

end Courier
