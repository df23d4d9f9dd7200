import Courier.Grammar.Rule

/-!
# Units

A unit is one code fragment or one module around a code fragment, and nothing may follow it. A block's body is a run of
namespaces or one block of statements, never both.
-/

namespace Courier.Grammar

open Courier.Parser

/-- A flag's name, which may be a keyword. -/
def flagName : Parser Token := do
  match ← look with
  | (some .identifier, _) | (some .keyword, _) => take
  | _ => failFound (.expected "flag name")

/-- The comma behind a flag's name, if there is one; the list goes on after a comma and ends before its bracket. -/
def flagEnd (flags : List String) (name : Token) : Parser (List String) := do
  match ← look with
  | (some .comma, _) =>
    let _ ← take
    return flags ++ [name.text]
  | (some .rightBracket, _) => return flags ++ [name.text]
  | _ => failFound (.expected "',' or ']' in flag list")

/-- One more flag of a list, with what is behind its name. -/
def flag (flags : List String) : Parser (List String) := do
  flagEnd flags (← flagName)

/-- The flags between their brackets, or none without brackets. -/
def flagList : Parser (List String) := do
  if ← atKind .leftBracket then
    let _ ← take
    let flags ← repeatWhile (not <$> atKind .rightBracket) flag []
    let _ ← take
    return flags
  else return []

/-- Flags: `'@' ('[' flag* ']')?`. They go to the next node made. -/
def flags : Parser Unit := do
  let _ ← expect .atSign "'@'"
  keepFlags (← flagList)

/-- The body of a block: namespaces, or one block of statements. -/
def blockBody (inner : Inner) (owner : NodeId) : Parser Unit := do
  if ← atKeyword .namespaceWord then
    repeatWhile (atKeyword .namespaceWord) (fun _ => do attach owner (← inner.parse .namespaceBlock)) ()
    if ← inBlock then failFound (.expected "'namespace' or '\x7d'")
  else attach owner (← inner.parse .statements)

/-- A namespace: `'namespace' IDENT '{' blockBody '}'`. -/
def namespaceBlock (inner : Inner) : Parser NodeId := do
  let start ← location
  let _ ← expectKeyword .namespaceWord
  let name ← identifier "namespace name"
  let node ← openNode (.namespaceBlock name) start
  let _ ← expect .leftBrace "'\x7b'"
  blockBody inner node
  let _ ← expect .rightBrace "'\x7d'"
  return node

/-- A code fragment: `flags? '{' blockBody '}'`. -/
def codeFragment (inner : Inner) : Parser NodeId := do
  let start ← location
  if ← atKind .atSign then inner.parse .flags
  let fragment ← openNode .codeFragmentBlock start
  let _ ← expect .leftBrace "'\x7b'"
  blockBody inner fragment
  let _ ← expect .rightBrace "'\x7d'"
  return fragment

/-- The version of a module: `(',' version)?`. A decimal or an integer is a version too. -/
def moduleVersion : Parser (Option String) := do
  if ← atKind .comma then
    let _ ← take
    match ← look with
    | (some .versionLiteral, _) | (some .decimalLiteral, _) | (some .integerLiteral, _) => return some (← take).text
    | _ => failFound (.expected "module version")
  else return none

/-- A module: `'module' IDENT moduleVersion '{' codeFragment '}'`. -/
def moduleBlock (inner : Inner) : Parser NodeId := do
  let start ← location
  let _ ← expectKeyword .moduleWord
  let name ← identifier "module name"
  let version ← moduleVersion
  let node ← openNode (.moduleBlock name version) start
  let _ ← expect .leftBrace "'\x7b'"
  attach node (← inner.parse .codeFragment)
  let _ ← expect .rightBrace "'\x7d'"
  return node

/-- The block that a unit is made of. -/
def unitBlock (inner : Inner) : Parser NodeId := do
  match ← look with
  | (some .atSign, _) | (some .leftBrace, _) => inner.parse .codeFragment
  | (_, some .moduleWord) => inner.parse .moduleBlock
  | (_, some .program) | (_, some .lib) => fail .unsupportedUnit
  | (none, _) => fail .emptyUnit
  | _ => failFound (.expected "'\x7b', '@' or 'module'")

/-- A unit: one block, and nothing behind it. -/
def unit (inner : Inner) : Parser NodeId := do
  let root ← unitBlock inner
  if (← current?).isSome then failFound .trailing else return root

end Courier.Grammar
