import Courier.Proofs.Parser.Leaves
import Courier.Proofs.Text.Split

/-!
# How productions are put together

A production is put together from operations on the next token and on nodes, from the productions inside it, and from sequences and
loops of those (`Assembled`). Which productions it may enter depends on whether it has taken a token before (`Construct.enters`).
Every body of the grammar is assembled so (`assembled_body`). What holds of the operations and is kept by sequences, loops and the
guard is therefore proved of all productions by one induction, and two parsers that are assembled alike, from inner productions of
their own, are compared by one.
-/

namespace Courier

/-! ## Which productions a production enters -/

/-- The productions that a production enters before it has taken a token. -/
def Construct.first : Construct → List Construct
  | unit => [codeFragment, moduleBlock]
  | codeFragment => [flags]
  | statements => [statement]
  | statement => [classBlock, recordBlock, variableDefinition, assignment, expression]
  | messageBlock => [messageDeclaration]
  | assignment => [variableDefinition, inst]
  | expression => [returnExpression, groupedExpression, arrayLiteral, inst, literal, messageBlock]
  | sendMessage => [message]
  | argument => [expression]
  | _ => []

/-- The productions that a production enters when it has taken a token. -/
def Construct.later : Construct → List Construct
  | codeFragment | namespaceBlock => [statements, namespaceBlock]
  | moduleBlock => [codeFragment]
  | classBlock => [typeDeclaration, scopeBlock, flags, messageBlock]
  | recordBlock => [typeDeclaration, variableDefinition]
  | scopeBlock => [variableDefinition]
  | messageBlock => [statements]
  | messageDeclaration => [param, returnType]
  | param | returnType | variableDefinition => [typeDeclaration]
  | assignment | returnExpression | message => [argument]
  | groupedExpression => [expression]
  | expression => [sendMessage]
  | arrayLiteral => [inst, literal]
  | _ => []

/-- The productions that a production may enter, by whether it has taken a token. -/
def Construct.enters (c : Construct) (moved : Bool) : List Construct :=
  if moved then c.first ++ c.later else c.first

/-- Whether every success of a rule takes a token. Only a block of statements may be empty. -/
def Rule.moves {α : Type} (r : Rule α) : Bool :=
  r.construct != .statements

/-- Faults of the parser itself: its stream was misused, or a production left the chain of constructs other than it found it. -/
def ParseFault.IsInternal : ParseFault → Prop
  | cursor _ | unbalanced _ => True
  | _ => False

/-- Faults that productions blame on the next token, the text of which is `found`: what such a fault tells to be found is this text, and
what it asks for is told on one line. -/
def ParseFault.AtNext (found : Option String) : ParseFault → Prop
  | expected what text => text = found ∧ Text.OneLine what
  | unclosedReturnType text | trailing text => text = found
  | unterminatedArray | notAValue _ | cursor _ | unbalanced _ => False
  | _ => True

/-- Faults that productions blame on a token that was taken before. -/
def ParseFault.AtTaken : ParseFault → Prop
  | unterminatedArray | notAValue _ => True
  | _ => False

/-- Faults of the text, where the text of the next token is `found`. -/
def ParseFault.OfText (found : Option String) (fault : ParseFault) : Prop :=
  fault.AtNext found ∨ fault.AtTaken

theorem ParseFault.OfText.not_internal {fault : ParseFault} {found : Option String} (h : fault.OfText found) : ¬fault.IsInternal := by
  cases fault <;> first | exact id | exact fun _ => h.elim id id

namespace Parser

/-- The operations that productions are made of, by whether a success has taken a token. -/
inductive Elementary : Bool → {α : Type} → Parser α → Prop
  | pure {α : Type} (a : α) : Elementary false (pure a : Parser α)
  | get : Elementary false (get : Parser ParserState)
  | look {α : Type} {m : Parser α} {p : Option Token → α} (h : Looks m p) : Elementary false m
  | take : Elementary true take
  | speculate {scan : Scan} {f : List Token → Option (List Token)} (h : scan.Passes f) : Elementary false (speculate scan)
  | openNode (payload : Payload) (l : Location) : Elementary false (openNode payload l)
  | attach (parent child : NodeId) : Elementary false (attach parent child)
  | keepFlags (flags : List String) : Elementary false (keepFlags flags)
  | fail {α : Type} {moves : Bool} {fault : ParseFault} (h : ∀ found, fault.AtNext found) :
    Elementary moves (fail fault : Parser α)
  | failFound {α : Type} {moves : Bool} {fault : Option String → ParseFault} (h : ∀ found, (fault found).AtNext found) :
    Elementary moves (failFound fault : Parser α)

/-- Two parsers that are put together alike inside a production, the one from the productions of `I` and the other from those of `J`.
The first flag tells whether a token was taken before them, the second whether they take one. -/
inductive Assembled (I J : Inner) (c : Construct) : Bool → Bool → {α : Type} → Parser α → Parser α → Prop
  | elementary {moved moves : Bool} {α : Type} {m : Parser α} (h : Elementary moves m) : Assembled I J c moved moves m m
  /-- Only literals and arrays blame a token that was taken before. -/
  | blame {moved moves : Bool} {α : Type} (h : c = .literal ∨ c = .arrayLiteral) (l : Location) (fault : ParseFault)
    (hfault : fault.AtTaken) : Assembled I J c moved moves (failAt l fault : Parser α) (failAt l fault)
  | call {moved : Bool} {α : Type} (r : Rule α) (h : r.construct ∈ c.enters moved) :
    Assembled I J c moved r.moves (I.parse r) (J.parse r)
  /-- What follows a parser that takes a token. -/
  | seq {moved : Bool} {α β : Type} {m n : Parser α} {f g : α → Parser β} (hm : Assembled I J c moved true m n)
    (hf : ∀ a, Assembled I J c true false (f a) (g a)) : Assembled I J c moved true (m >>= f) (n >>= g)
  /-- What follows a parser that may take none. -/
  | after {moved moves : Bool} {α β : Type} {m n : Parser α} {f g : α → Parser β} (hm : Assembled I J c moved false m n)
    (hf : ∀ a, Assembled I J c moved moves (f a) (g a)) : Assembled I J c moved moves (m >>= f) (n >>= g)
  | loose {moved : Bool} {α : Type} {m n : Parser α} (h : Assembled I J c moved true m n) : Assembled I J c moved false m n

open Grammar

variable {I J : Inner} {c : Construct} {moved moves : Bool} {α β : Type}

/-! ## Sequences and loops -/

theorem assembled_pure {a : α} : Assembled I J c moved false (pure a) (pure a) :=
  .elementary (.pure a)

/-- What may stand before the first token may stand behind it. -/
theorem Assembled.late {m n : Parser α} (h : Assembled I J c moved moves m n) : Assembled I J c true moves m n := by
  induction h with
  | elementary h => exact .elementary h
  | blame h l fault hfault => exact .blame h l fault hfault
  | @call moved _ r h =>
    refine .call r ?_
    cases moved with
    | false => exact List.mem_append_left c.later h
    | true => exact h
  | seq _ hf ih _ => exact .seq ih hf
  | after _ _ ih ihf => exact .after ih ihf
  | loose _ ih => exact .loose ih

theorem Assembled.then {m n : Parser α} {f g : α → Parser β} (hm : Assembled I J c moved moves m n)
    (hf : ∀ a moved, Assembled I J c moved false (f a) (g a)) : Assembled I J c moved moves (m >>= f) (n >>= g) := by
  cases moves with
  | true => exact hm.seq (fun a => hf a true)
  | false => exact hm.after (fun a => hf a moved)

/-- A loop is a sequence of rounds. Each of them takes a token, so the ones behind the first stand behind a token. -/
theorem Assembled.loop {more : Parser Bool} {p : Option Token → Bool} (hmore : Looks more p) {step step' : α → Parser α}
    (hstep : ∀ a, Assembled I J c moved true (step a) (step' a)) (a : α) :
    Assembled I J c moved false (repeatWhile more step a) (repeatWhile more step' a) := by
  have hfor : ∀ (rounds : List Token) (moved : Bool) (a : α), (∀ a, Assembled I J c moved true (step a) (step' a)) →
      Assembled I J c moved false (repeatFor more step rounds a) (repeatFor more step' rounds a) := by
    intro rounds
    induction rounds with
    | nil =>
      intro moved a hstep
      refine .after (.elementary (.look hmore)) (fun goesOn => ?_)
      cases goesOn with
      | false => exact assembled_pure
      | true => exact .loose (hstep a)
    | cons _ rest ih =>
      intro moved a hstep
      refine .after (.elementary (.look hmore)) (fun goesOn => ?_)
      cases goesOn with
      | false => exact assembled_pure
      | true => exact .loose (.seq (hstep a) (fun a' => ih true a' (fun a => (hstep a).late)))
  exact .after (.elementary .get) (fun s => hfor s.stream.ahead moved a hstep)

/-! ## Operations -/

theorem Assembled.result {m n : Parser α} (h : Assembled I J c moved moves m n) (f : α → β) :
    Assembled I J c moved moves (m >>= fun a => pure (f a)) (n >>= fun a => pure (f a)) :=
  h.then (fun _ _ => assembled_pure)

theorem Assembled.map {m n : Parser α} (h : Assembled I J c moved moves m n) (f : α → β) :
    Assembled I J c moved moves (f <$> m) (f <$> n) := by
  rw [← bind_pure_comp, ← bind_pure_comp]
  exact h.result f

theorem assembled_atKind (k : TokenKind) : Assembled I J c moved false (atKind k) (atKind k) :=
  .elementary (.look (looks_atKind k))

theorem assembled_atKeyword (k : Keyword) : Assembled I J c moved false (atKeyword k) (atKeyword k) :=
  .elementary (.look (looks_atKeyword k))

theorem assembled_look : Assembled I J c moved false look look :=
  .elementary (.look looks_look)

theorem assembled_location : Assembled I J c moved false location location := by
  unfold location
  refine .after (.elementary (.look looks_current?)) (fun next => ?_)
  split
  · exact assembled_pure
  · exact .after (.elementary .get) (fun _ => assembled_pure)

theorem assembled_nodeLocation (id : NodeId) : Assembled I J c moved false (nodeLocation id) (nodeLocation id) := by
  unfold nodeLocation
  refine .after (.elementary .get) (fun s => ?_)
  split
  · exact assembled_pure
  · exact assembled_location

theorem assembled_take : Assembled I J c moved true take take :=
  .elementary .take

theorem assembled_openNode (payload : Payload) (l : Location) :
    Assembled I J c moved false (openNode payload l) (openNode payload l) :=
  .elementary (.openNode payload l)

theorem assembled_attach (parent child : NodeId) : Assembled I J c moved false (attach parent child) (attach parent child) :=
  .elementary (.attach parent child)

theorem assembled_fail {fault : ParseFault} (h : ∀ found, fault.AtNext found) :
    Assembled I J c moved moves (fail fault : Parser α) (fail fault) :=
  .elementary (.fail h)

theorem assembled_failFound {fault : Option String → ParseFault} (h : ∀ found, (fault found).AtNext found) :
    Assembled I J c moved moves (failFound fault : Parser α) (failFound fault) :=
  .elementary (.failFound h)

theorem assembled_lookAhead (ks : List TokenKind) : Assembled I J c moved false (lookAhead ks) (lookAhead ks) :=
  .elementary (.speculate (Scan.passes_acceptAll ks))

theorem assembled_expect {k : TokenKind} {what : String} (hwhat : Text.OneLine what) :
    Assembled I J c moved true (expect k what) (expect k what) := by
  unfold expect
  refine (assembled_atKind k).after (fun found => ?_)
  split
  · exact assembled_take
  · exact assembled_failFound (fun _ => ⟨rfl, hwhat⟩)

theorem assembled_expectKeyword {k : Keyword} : Assembled I J c moved true (expectKeyword k) (expectKeyword k) := by
  unfold expectKeyword
  refine (assembled_atKeyword k).after (fun found => ?_)
  split
  · exact assembled_take
  · exact assembled_failFound (fun _ => ⟨rfl, by cases k <;> decide⟩)

theorem assembled_identifier {what : String} (hwhat : Text.OneLine what) :
    Assembled I J c moved true (identifier what) (identifier what) :=
  .result (assembled_expect hwhat) _

/-- A production inside another one, whose node is linked below a node at once. -/
theorem Assembled.attach {m n : Parser NodeId} (h : Assembled I J c moved moves m n) (parent : NodeId) :
    Assembled I J c moved moves (m >>= fun i => attach parent i) (n >>= fun i => attach parent i) :=
  h.then (fun _ _ => assembled_attach _ _)

/-! ## Names, types and literals -/

theorem assembled_dottedRest {what : String} (name : String) (hwhat : Text.OneLine what) :
    Assembled I J c moved false (dottedRest what name) (dottedRest what name) :=
  .loop (looks_atKind _) (fun _ => .seq assembled_take (fun _ => .loose (.result (assembled_identifier hwhat) _))) name

theorem assembled_typeDeclaration : Assembled I J c moved true typeDeclaration typeDeclaration :=
  .seq (assembled_identifier (by decide)) (fun name => assembled_dottedRest name (by decide))

theorem assembled_nameWithType {what : String} (h : .typeDeclaration ∈ c.enters true) (hwhat : Text.OneLine what) :
    Assembled I J c moved true (nameWithType I what) (nameWithType J what) := by
  unfold nameWithType
  refine .seq (assembled_identifier hwhat) (fun name => ?_)
  refine .loose (.seq (assembled_expect (Text.oneLine_append.2 ⟨by decide, hwhat⟩)) (fun _ => ?_))
  exact .loose (.result (.call .typeDeclaration h) _)

theorem assembled_typedNode {what : String} (payload : String → String → Payload) (h : .typeDeclaration ∈ c.enters true)
    (hwhat : Text.OneLine what) :
    Assembled I J c moved true (typedNode I what payload) (typedNode J what payload) := by
  unfold typedNode
  refine .after assembled_location (fun start => ?_)
  exact (assembled_nameWithType h hwhat).seq (fun _ => assembled_openNode _ _)

theorem assembled_inst : Assembled I J .inst false true Grammar.inst Grammar.inst := by
  have hhead : Assembled I J .inst false true instanceHead instanceHead := by
    unfold instanceHead
    refine .after assembled_look (fun next => ?_)
    split
    · exact .result assembled_take _
    · exact .result assembled_take _
    · exact .result assembled_take _
    · exact assembled_failFound (fun _ => ⟨rfl, by decide⟩)
  unfold Grammar.inst
  refine .after assembled_location (fun start => ?_)
  refine hhead.seq (fun name => ?_)
  exact (assembled_dottedRest name (by decide)).after (fun _ => assembled_openNode _ _)

theorem assembled_literal : Assembled I J .literal false true Grammar.literal Grammar.literal := by
  unfold Grammar.literal
  refine .seq assembled_take (fun t => ?_)
  split
  · exact assembled_openNode _ _
  · exact .blame (.inl rfl) _ _ trivial

theorem assembled_element : Assembled I J .arrayLiteral true true (element I) (element J) := by
  unfold element
  refine .after assembled_look (fun next => ?_)
  split
  · exact .call .inst (by decide)
  · exact .call .literal (by decide)
  · split
    · exact .call .literal (by decide)
    · exact assembled_failFound (fun _ => ⟨rfl, by decide⟩)
  · exact assembled_failFound (fun _ => ⟨rfl, by decide⟩)

theorem assembled_elements (array : NodeId) :
    Assembled I J .arrayLiteral true true (elements I array) (elements J array) := by
  unfold elements
  refine .seq assembled_element (fun first => ?_)
  refine (assembled_attach array first).after (fun _ => ?_)
  exact .loop (looks_atKind _) (fun _ => .seq assembled_take (fun _ => .loose (.attach assembled_element array))) ()

theorem assembled_arrayLiteral :
    Assembled I J .arrayLiteral false true (Grammar.arrayLiteral I) (Grammar.arrayLiteral J) := by
  have hclose : ∀ (start : Location) (array : NodeId), Assembled I J .arrayLiteral true false (do
      if ← atKind .rightBracket then
        let _ ← take
        return array
      else failAt start .unterminatedArray) (do
      if ← atKind .rightBracket then
        let _ ← take
        return array
      else failAt start .unterminatedArray) := by
    intro start array
    refine (assembled_atKind _).after (fun closed => ?_)
    split
    · exact .loose (.result assembled_take _)
    · exact .blame (.inr rfl) _ _ trivial
  unfold Grammar.arrayLiteral
  refine .after assembled_location (fun start => ?_)
  refine .seq (assembled_expect (by decide)) (fun _ => ?_)
  refine (assembled_openNode _ _).after (fun array => ?_)
  refine (assembled_atKind _).after (fun empty => ?_)
  dsimp only
  split
  · exact (assembled_elements array).loose.after (fun _ => hclose start array)
  · exact hclose start array

/-! ## Declarations -/

theorem assembled_superclass (h : .typeDeclaration ∈ c.enters true) :
    Assembled I J c true false (superclass I) (superclass J) := by
  unfold superclass
  refine (assembled_atKeyword _).after (fun inherits => ?_)
  split
  · refine .loose (.seq assembled_take (fun _ => ?_))
    exact .loose (.result (.call .typeDeclaration h) _)
  · exact assembled_pure

theorem assembled_variableDefinition :
    Assembled I J .variableDefinition false true (variableDefinition I) (variableDefinition J) :=
  assembled_typedNode _ (by decide) (by decide)

theorem assembled_param : Assembled I J .param false true (param I) (param J) :=
  assembled_typedNode _ (by decide) (by decide)

theorem assembled_memberVariables (owner : NodeId) (h : .variableDefinition ∈ c.enters true) :
    Assembled I J c true false (memberVariables I owner) (memberVariables J owner) := by
  unfold memberVariables
  refine .loop looks_inBlock (fun _ => ?_) ()
  refine .seq (.call .variableDefinition h) (fun member => ?_)
  exact .loose (.seq (assembled_expect (by decide)) (fun _ => assembled_attach owner member))

theorem assembled_scopeBlock : Assembled I J .scopeBlock false true (scopeBlock I) (scopeBlock J) := by
  have hvisibility : Assembled I J .scopeBlock false false visibility visibility := by
    unfold visibility
    refine .after assembled_look (fun next => ?_)
    split
    · exact assembled_pure
    · exact assembled_pure
    · exact assembled_failFound (fun _ => ⟨rfl, by decide⟩)
  unfold scopeBlock
  refine .after assembled_location (fun start => ?_)
  refine hvisibility.after (fun seen => ?_)
  refine .seq assembled_take (fun _ => ?_)
  refine (assembled_openNode _ _).after (fun scope => ?_)
  refine .loose (.seq (assembled_expect (by decide)) (fun _ => ?_))
  refine (assembled_memberVariables scope (by decide)).after (fun _ => ?_)
  exact .loose (.result (assembled_expect (by decide)) _)

theorem assembled_recordBlock : Assembled I J .recordBlock false true (recordBlock I) (recordBlock J) := by
  unfold recordBlock
  refine .after assembled_location (fun start => ?_)
  refine .seq assembled_expectKeyword (fun _ => ?_)
  refine .loose (.seq (assembled_identifier (by decide)) (fun name => ?_))
  refine (assembled_superclass (by decide)).after (fun parent => ?_)
  refine (assembled_openNode _ _).after (fun record => ?_)
  refine .loose (.seq (assembled_expect (by decide)) (fun _ => ?_))
  refine (assembled_memberVariables record (by decide)).after (fun _ => ?_)
  exact .loose (.result (assembled_expect (by decide)) _)

theorem assembled_classMember : Assembled I J .classBlock true true (classMember I) (classMember J) := by
  unfold classMember
  refine .after assembled_look (fun next => ?_)
  split
  · exact .call .scopeBlock (by decide)
  · exact .call .scopeBlock (by decide)
  · exact .seq (.call .flags (by decide)) (fun _ => .loose (.call .messageBlock (by decide)))
  · exact .call .messageBlock (by decide)
  · exact assembled_failFound (fun _ => ⟨rfl, by decide⟩)

theorem assembled_classBlock : Assembled I J .classBlock false true (classBlock I) (classBlock J) := by
  unfold classBlock
  refine .after assembled_location (fun start => ?_)
  refine .seq assembled_expectKeyword (fun _ => ?_)
  refine .loose (.seq (assembled_identifier (by decide)) (fun name => ?_))
  refine (assembled_superclass (by decide)).after (fun parent => ?_)
  refine (assembled_openNode _ _).after (fun node => ?_)
  refine .loose (.seq (assembled_expect (by decide)) (fun _ => ?_))
  refine Assembled.after (.loop looks_inBlock (fun _ => .attach assembled_classMember node) ()) (fun _ => ?_)
  exact .loose (.result (assembled_expect (by decide)) _)

theorem assembled_messageBlock : Assembled I J .messageBlock false true (messageBlock I) (messageBlock J) := by
  unfold messageBlock
  refine .after assembled_location (fun start => ?_)
  refine (assembled_openNode _ _).after (fun block => ?_)
  refine .seq (.call .messageDeclaration (by decide)) (fun declaration => ?_)
  refine (assembled_attach block declaration).after (fun _ => ?_)
  refine .loose (.seq (assembled_expect (by decide)) (fun _ => ?_))
  refine .after (.call .statements (by decide)) (fun body => ?_)
  refine (assembled_attach block body).after (fun _ => ?_)
  exact .loose (.result (assembled_expect (by decide)) _)

theorem assembled_params (declaration : NodeId) :
    Assembled I J .messageDeclaration true true (params I declaration) (params J declaration) := by
  unfold params
  refine .seq (.call .param (by decide)) (fun first => ?_)
  refine (assembled_attach declaration first).after (fun _ => ?_)
  exact .loop (looks_atKind _) (fun _ => .seq assembled_take (fun _ => .loose (.attach (.call .param (by decide)) declaration))) ()

theorem assembled_paramList (declaration : NodeId) :
    Assembled I J .messageDeclaration true false (paramList I declaration) (paramList J declaration) := by
  have hclose : Assembled I J .messageDeclaration true false (do
      let _ ← expect .rightParen "')' after parameters"
      return ()) (do
      let _ ← expect .rightParen "')' after parameters"
      return ()) := .loose (.result (assembled_expect (by decide)) _)
  unfold paramList
  refine .after assembled_look (fun next => ?_)
  split
  · exact .loose (.seq assembled_take (fun _ => .loose (assembled_params declaration)))
  · refine .loose (.seq assembled_take (fun _ => ?_))
    refine (assembled_atKind _).after (fun empty => ?_)
    dsimp only
    split
    · exact (assembled_params declaration).loose.after (fun _ => hclose)
    · exact hclose
  · exact assembled_pure

theorem assembled_messageDeclaration :
    Assembled I J .messageDeclaration false true (messageDeclaration I) (messageDeclaration J) := by
  have hrest : ∀ (start : Location) (name : Option String), Assembled I J .messageDeclaration true false (do
      let declaration ← openNode (.messageDeclaration name) start
      paramList I declaration
      if ← atKind .leftBracket then attach declaration (← I.parse .returnType)
      return declaration) (do
      let declaration ← openNode (.messageDeclaration name) start
      paramList J declaration
      if ← atKind .leftBracket then attach declaration (← J.parse .returnType)
      return declaration) := by
    intro start name
    refine (assembled_openNode _ _).after (fun declaration => ?_)
    refine (assembled_paramList declaration).after (fun _ => ?_)
    refine (assembled_atKind _).after (fun returns => ?_)
    dsimp only
    split
    · refine .loose (.seq (.call .returnType (by decide)) (fun type => ?_))
      exact (assembled_attach declaration type).result _
    · exact assembled_pure
  unfold messageDeclaration
  refine .after assembled_location (fun start => ?_)
  refine .seq assembled_expectKeyword (fun _ => ?_)
  refine (assembled_atKind _).after (fun named => ?_)
  dsimp only
  split
  · exact (Assembled.map (assembled_identifier (by decide)) some).loose.after (fun name => hrest start name)
  · exact .after assembled_pure (fun name => hrest start name)

theorem assembled_separated {item item' : Parser α} (h : Assembled I J c true true item item') :
    Assembled I J c true true (separated item) (separated item') := by
  unfold separated
  refine h.seq (fun first => ?_)
  exact .loop (looks_atKind _) (fun _ => .seq assembled_take (fun _ => .loose (h.result _))) [first]

theorem assembled_returnType : Assembled I J .returnType false true (returnType I) (returnType J) := by
  have hpayload : Assembled I J .returnType true true (returnPayload I) (returnPayload J) := by
    unfold returnPayload
    refine (assembled_lookAhead _).after (fun named => ?_)
    split
    · exact (assembled_separated (assembled_nameWithType (by decide) (by decide))).map _
    · exact (assembled_separated (.call .typeDeclaration (by decide))).map _
  unfold returnType
  refine .after assembled_location (fun start => ?_)
  refine .seq (assembled_expect (by decide)) (fun _ => ?_)
  refine .loose (hpayload.seq (fun payload => ?_))
  refine (assembled_atKind _).after (fun closed => ?_)
  split
  · exact .loose (.seq assembled_take (fun _ => assembled_openNode _ _))
  · exact assembled_failFound (fun _ => rfl)

/-! ## Expressions -/

theorem assembled_primary : Assembled I J .expression false true (primary I) (primary J) := by
  unfold primary
  refine .after assembled_look (fun next => ?_)
  split
  · exact .call .groupedExpression (by decide)
  · exact .call .arrayLiteral (by decide)
  · exact .call .inst (by decide)
  · exact .call .literal (by decide)
  · exact .call .messageBlock (by decide)
  · exact .call .inst (by decide)
  · exact .call .inst (by decide)
  · split
    · exact .call .literal (by decide)
    · exact assembled_failFound (fun _ => ⟨rfl, by decide⟩)
  · exact assembled_failFound (fun _ => ⟨rfl, by decide⟩)

theorem assembled_sent (value : NodeId) :
    Assembled I J .expression true false (do
      if ← startsMessage then I.parse (.sendMessage value) else return value) (do
      if ← startsMessage then J.parse (.sendMessage value) else return value) := by
  refine Assembled.after (.elementary (.look looks_startsMessage)) (fun sends => ?_)
  split
  · exact .loose (.call (.sendMessage value) (show Construct.sendMessage ∈ Construct.expression.enters true by decide))
  · exact assembled_pure

theorem assembled_expression : Assembled I J .expression false true (expression I) (expression J) := by
  unfold expression
  refine (assembled_atKeyword _).after (fun returns => ?_)
  split
  · exact .call .returnExpression (by decide)
  · exact .seq assembled_primary (fun value => assembled_sent value)

theorem assembled_argument : Assembled I J .argument false true (argument I) (argument J) := by
  unfold argument
  refine (assembled_atKeyword _).after (fun returns => ?_)
  split
  · exact assembled_fail (fun _ => trivial)
  · exact .call .expression (by decide)

theorem assembled_returnExpression :
    Assembled I J .returnExpression false true (returnExpression I) (returnExpression J) := by
  have hreturned : Assembled I J .returnExpression true false (returned I) (returned J) := by
    unfold returned
    refine (assembled_atKind _).after (fun bare => ?_)
    split
    · exact .after assembled_location (fun l => assembled_openNode _ l)
    · exact .loose (.call .argument (by decide))
  unfold returnExpression
  refine .after assembled_location (fun start => ?_)
  refine .seq assembled_expectKeyword (fun _ => ?_)
  refine (assembled_openNode _ _).after (fun node => ?_)
  refine hreturned.after (fun value => ?_)
  exact (assembled_attach node value).result _

theorem assembled_groupedExpression :
    Assembled I J .groupedExpression false true (groupedExpression I) (groupedExpression J) := by
  unfold groupedExpression
  refine .after assembled_location (fun start => ?_)
  refine .seq (assembled_expect (by decide)) (fun _ => ?_)
  refine (assembled_openNode _ _).after (fun group => ?_)
  refine .loose (.seq (.call .expression (by decide)) (fun value => ?_))
  refine (assembled_attach group value).after (fun _ => ?_)
  exact .loose (.result (assembled_expect (by decide)) _)

theorem assembled_sendMessage (receiver : NodeId) :
    Assembled I J .sendMessage false true (sendMessage I receiver) (sendMessage J receiver) := by
  unfold sendMessage
  refine .after (assembled_nodeLocation receiver) (fun l => ?_)
  refine (assembled_openNode _ _).after (fun send => ?_)
  refine .seq (.call .message (by decide)) (fun message => ?_)
  refine (assembled_attach send receiver).after (fun _ => ?_)
  exact (assembled_attach send message).result _

theorem assembled_message : Assembled I J .message false true (message I) (message J) := by
  unfold message
  refine .after assembled_location (fun start => ?_)
  refine .after assembled_look (fun next => ?_)
  split
  · split
    · refine .seq (assembled_identifier (by decide)) (fun name => ?_)
      refine (assembled_openNode _ _).after (fun node => ?_)
      refine Assembled.result (.loop (looks_atKind _) (fun _ => ?_) ()) _
      exact .seq assembled_take (fun _ => .loose (.attach (.call .argument (by decide)) node))
    · split
      · refine .seq assembled_take (fun operator => ?_)
        refine (assembled_openNode _ _).after (fun node => ?_)
        refine .loose (.seq (.call .argument (by decide)) (fun value => ?_))
        exact (assembled_attach node value).result _
      · exact assembled_failFound (fun _ => ⟨rfl, by decide⟩)
  · exact assembled_failFound (fun _ => ⟨rfl, by decide⟩)

/-! ## Statements -/

theorem assembled_assignment : Assembled I J .assignment false true (assignment I) (assignment J) := by
  have hrest : ∀ (node target : NodeId), Assembled I J .assignment true false (do
      let operator ← expect .assignment "':='"
      let message ← openNode (.message ":=" none) operator.location
      let value ← I.parse .argument
      attach message value
      attach node target
      attach node message
      return node) (do
      let operator ← expect .assignment "':='"
      let message ← openNode (.message ":=" none) operator.location
      let value ← J.parse .argument
      attach message value
      attach node target
      attach node message
      return node) := by
    intro node target
    refine .loose (.seq (assembled_expect (by decide)) (fun operator => ?_))
    refine (assembled_openNode _ _).after (fun message => ?_)
    refine .loose (.seq (.call .argument (by decide)) (fun value => ?_))
    refine (assembled_attach message value).after (fun _ => ?_)
    refine (assembled_attach node target).after (fun _ => ?_)
    exact (assembled_attach node message).result _
  unfold assignment
  refine .after assembled_location (fun start => ?_)
  refine (assembled_openNode _ _).after (fun node => ?_)
  refine (assembled_lookAhead _).after (fun typed => ?_)
  dsimp only
  split
  · exact .seq (.call .variableDefinition (by decide)) (fun target => hrest node target)
  · exact .seq (.call .inst (by decide)) (fun target => hrest node target)

theorem assembled_namedStatement : Assembled I J .statement false true (namedStatement I) (namedStatement J) := by
  unfold namedStatement
  refine Assembled.after (.elementary (.speculate Scan.passes_definition)) (fun defines => ?_)
  split
  · exact .call .variableDefinition (by decide)
  refine (assembled_lookAhead _).after (fun typed => ?_)
  split
  · exact .call .assignment (by decide)
  refine Assembled.after (.elementary (.speculate Scan.passes_target)) (fun assigns => ?_)
  split
  · exact .call .assignment (by decide)
  · exact .call .expression (by decide)

theorem assembled_statement : Assembled I J .statement false true (statement I) (statement J) := by
  unfold statement
  refine .after assembled_look (fun next => ?_)
  split
  · exact .call .classBlock (by decide)
  · exact .call .recordBlock (by decide)
  · unfold closedStatement
    refine (assembled_atKind _).after (fun named => ?_)
    dsimp only
    split
    · exact .seq assembled_namedStatement (fun _ => .loose (.result (assembled_expect (by decide)) _))
    · exact .seq (.call .expression (by decide)) (fun _ => .loose (.result (assembled_expect (by decide)) _))

theorem assembled_statements : Assembled I J .statements false false (statements I) (statements J) := by
  unfold statements
  refine .after assembled_location (fun start => ?_)
  refine (assembled_openNode _ _).after (fun block => ?_)
  exact Assembled.result (.loop looks_inBlock (fun _ => .attach (.call .statement (by decide)) block) ()) _

/-! ## Units -/

theorem assembled_flag (flags : List String) : Assembled I J .flags true true (flag flags) (flag flags) := by
  unfold flag
  refine Assembled.seq ?_ (fun name => ?_)
  · unfold flagName
    refine .after assembled_look (fun next => ?_)
    split
    · exact assembled_take
    · exact assembled_take
    · exact assembled_failFound (fun _ => ⟨rfl, by decide⟩)
  · unfold flagEnd
    refine .after assembled_look (fun next => ?_)
    split
    · exact .loose (.result assembled_take _)
    · exact assembled_pure
    · exact assembled_failFound (fun _ => ⟨rfl, by decide⟩)

theorem assembled_flags : Assembled I J .flags false true Grammar.flags Grammar.flags := by
  have hlist : Assembled I J .flags true false flagList flagList := by
    unfold flagList
    refine (assembled_atKind _).after (fun opened => ?_)
    split
    · refine .loose (.seq assembled_take (fun _ => ?_))
      refine Assembled.after (.loop ((looks_atKind _).map not) assembled_flag []) (fun flags => ?_)
      exact .loose (.result assembled_take _)
    · exact assembled_pure
  unfold Grammar.flags
  refine .seq (assembled_expect (by decide)) (fun _ => ?_)
  exact hlist.after (fun flags => .elementary (.keepFlags flags))

theorem assembled_blockBody (owner : NodeId) (hnamespace : .namespaceBlock ∈ c.enters true)
    (hstatements : .statements ∈ c.enters true) : Assembled I J c true false (blockBody I owner) (blockBody J owner) := by
  unfold blockBody
  refine (assembled_atKeyword _).after (fun nested => ?_)
  split
  · refine Assembled.after (.loop (looks_atKeyword _) (fun _ => .attach (.call .namespaceBlock hnamespace) owner) ())
      (fun _ => ?_)
    refine Assembled.after (.elementary (.look looks_inBlock)) (fun goesOn => ?_)
    split
    · exact assembled_failFound (fun _ => ⟨rfl, by decide⟩)
    · exact assembled_pure
  · exact .attach (.call .statements hstatements) owner

theorem assembled_namespaceBlock : Assembled I J .namespaceBlock false true (namespaceBlock I) (namespaceBlock J) := by
  unfold namespaceBlock
  refine .after assembled_location (fun start => ?_)
  refine .seq assembled_expectKeyword (fun _ => ?_)
  refine .loose (.seq (assembled_identifier (by decide)) (fun name => ?_))
  refine (assembled_openNode _ _).after (fun node => ?_)
  refine .loose (.seq (assembled_expect (by decide)) (fun _ => ?_))
  refine (assembled_blockBody node (by decide) (by decide)).after (fun _ => ?_)
  exact .loose (.result (assembled_expect (by decide)) _)

theorem assembled_codeFragment : Assembled I J .codeFragment false true (codeFragment I) (codeFragment J) := by
  have hblock : ∀ start, Assembled I J .codeFragment false true (do
      let fragment ← openNode .codeFragmentBlock start
      let _ ← expect .leftBrace "'\x7b'"
      blockBody I fragment
      let _ ← expect .rightBrace "'\x7d'"
      return fragment) (do
      let fragment ← openNode .codeFragmentBlock start
      let _ ← expect .leftBrace "'\x7b'"
      blockBody J fragment
      let _ ← expect .rightBrace "'\x7d'"
      return fragment) := by
    intro start
    refine (assembled_openNode _ _).after (fun fragment => ?_)
    refine .seq (assembled_expect (by decide)) (fun _ => ?_)
    refine (assembled_blockBody fragment (by decide) (by decide)).after (fun _ => ?_)
    exact .loose (.result (assembled_expect (by decide)) _)
  unfold codeFragment
  refine .after assembled_location (fun start => ?_)
  refine (assembled_atKind _).after (fun flagged => ?_)
  dsimp only
  split
  · exact .after (.loose (.call .flags (by decide))) (fun _ => hblock start)
  · exact hblock start

theorem assembled_moduleBlock : Assembled I J .moduleBlock false true (moduleBlock I) (moduleBlock J) := by
  have hversion : Assembled I J .moduleBlock true false moduleVersion moduleVersion := by
    unfold moduleVersion
    refine (assembled_atKind _).after (fun versioned => ?_)
    split
    · refine .loose (.seq assembled_take (fun _ => ?_))
      refine .after assembled_look (fun next => ?_)
      split
      · exact .loose (.result assembled_take _)
      · exact .loose (.result assembled_take _)
      · exact .loose (.result assembled_take _)
      · exact assembled_failFound (fun _ => ⟨rfl, by decide⟩)
    · exact assembled_pure
  unfold moduleBlock
  refine .after assembled_location (fun start => ?_)
  refine .seq assembled_expectKeyword (fun _ => ?_)
  refine .loose (.seq (assembled_identifier (by decide)) (fun name => ?_))
  refine hversion.after (fun version => ?_)
  refine (assembled_openNode _ _).after (fun node => ?_)
  refine .loose (.seq (assembled_expect (by decide)) (fun _ => ?_))
  refine .loose (.seq (.call .codeFragment (by decide)) (fun fragment => ?_))
  refine (assembled_attach node fragment).after (fun _ => ?_)
  exact .loose (.result (assembled_expect (by decide)) _)

theorem assembled_unit : Assembled I J .unit false true (unit I) (unit J) := by
  have hblock : Assembled I J .unit false true (unitBlock I) (unitBlock J) := by
    unfold unitBlock
    refine .after assembled_look (fun next => ?_)
    split
    · exact .call .codeFragment (by decide)
    · exact .call .codeFragment (by decide)
    · exact .call .moduleBlock (by decide)
    · exact assembled_fail (fun _ => trivial)
    · exact assembled_fail (fun _ => trivial)
    · exact assembled_fail (fun _ => trivial)
    · exact assembled_failFound (fun _ => ⟨rfl, by decide⟩)
  unfold Grammar.unit
  refine hblock.seq (fun root => ?_)
  refine Assembled.after (.elementary (.look looks_current?)) (fun next => ?_)
  split
  · exact assembled_failFound (fun _ => rfl)
  · exact assembled_pure

/-! ## The grammar -/

/-- The body of every rule is assembled from the productions inside it. -/
theorem assembled_body (r : Rule α) : Assembled I J r.construct false r.moves (r.body I) (r.body J) := by
  cases r with
  | unit => exact assembled_unit
  | codeFragment => exact assembled_codeFragment
  | flags => exact assembled_flags
  | moduleBlock => exact assembled_moduleBlock
  | namespaceBlock => exact assembled_namespaceBlock
  | statements => exact assembled_statements
  | statement => exact assembled_statement
  | classBlock => exact assembled_classBlock
  | scopeBlock => exact assembled_scopeBlock
  | recordBlock => exact assembled_recordBlock
  | messageBlock => exact assembled_messageBlock
  | messageDeclaration => exact assembled_messageDeclaration
  | param => exact assembled_param
  | returnType => exact assembled_returnType
  | typeDeclaration => exact assembled_typeDeclaration
  | variableDefinition => exact assembled_variableDefinition
  | assignment => exact assembled_assignment
  | expression => exact assembled_expression
  | returnExpression => exact assembled_returnExpression
  | groupedExpression => exact assembled_groupedExpression
  | sendMessage receiver => exact assembled_sendMessage receiver
  | message => exact assembled_message
  | argument => exact assembled_argument
  | literal => exact assembled_literal
  | arrayLiteral => exact assembled_arrayLiteral
  | inst => exact assembled_inst

end Parser

end Courier
