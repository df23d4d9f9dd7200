import Courier.Command

/-!
# Command line arguments

The words of a command line as an invocation: options anywhere, the command first among the other words, its paths behind it.
Two dashes end the options. Words that are no invocation are answered by none.
-/

namespace Courier

/-- The words of a command line, read so far. -/
structure Arguments where
  output : OutputForm
  quiet : Bool
  traceStates : Bool
  /-- The words that are no options, in order. -/
  words : List String
  deriving DecidableEq, Repr, Inhabited

namespace Arguments

/-- Before any word is read. -/
def none : Arguments :=
  ⟨.text, false, false, []⟩

/-- The form of output a word stands for. -/
def outputForm? (word : String) : Option OutputForm :=
  if word == "text" then some .text else if word == "json" then some .json else Option.none

/-- Reads the words of a command line. -/
def read (a : Arguments) : List String → Option Arguments
  | [] => some a
  | "--" :: rest => some { a with words := a.words ++ rest }
  | "--quiet" :: rest => read { a with quiet := true } rest
  | "--trace-states" :: rest => read { a with traceStates := true } rest
  | "--output" :: form :: rest =>
    match outputForm? form with
    | some output => read { a with output := output } rest
    | Option.none => Option.none
  | word :: rest =>
    if word.toList.head? = some '-' then Option.none else read { a with words := a.words ++ [word] } rest

/-- The command that words name: one path for a command on a file, at least one for a check. -/
def command? (words : List String) : Option Command :=
  match words with
  | ["lex", path] => some (.lex path)
  | ["parse", path] => some (.parse path)
  | "check" :: path :: rest => some (.check (path :: rest))
  | _ => Option.none

/-- The invocation that the words of a command line stand for. -/
def invocation? (line : List String) : Option Invocation := do
  let a ← none.read line
  return ⟨← command? a.words, a.output, a.quiet, a.traceStates⟩

end Arguments

end Courier
