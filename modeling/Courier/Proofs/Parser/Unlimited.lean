import Courier.Proofs.Parser.Assembly
import Courier.Proofs.Syntax.Accepts

/-!
# The parser without a limit on nesting

A production inside another one has fewer tokens ahead or a smaller rank, so the productions that a parse nests are bounded by the
tokens ahead (`Rule.need`). A parser with more room than that does not depend on its room (`parse_eq_parse`). `Rule.run` is that
parser. It satisfies the equations of the grammar with no room in them (`Rule.run_eq`), and it is the only one that does
(`Rule.eq_run`).
-/

namespace Courier

/-! ## Ranks of constructs -/

/-- The rank of the rules of a construct. -/
def Construct.rank : Construct → Nat
  | messageBlock | sendMessage | assignment | codeFragment => 1
  | expression | unit => 2
  | argument | statement => 3
  | statements => 4
  | _ => 0

theorem Rule.rank_eq {α : Type} (r : Rule α) : r.rank = r.construct.rank := by
  cases r <;> rfl

/-- A production that is entered before a token was taken has a smaller rank. -/
theorem Construct.rank_lt {c d : Construct} (h : d ∈ c.first) : d.rank < c.rank := by
  have hall : ∀ d ∈ c.first, d.rank < c.rank := by
    cases c <;> decide
  exact hall d h

namespace Parser

open ParserState

variable {I J : Inner} {c : Construct} {moved moves : Bool} {α β : Type} {m n : Parser α} {s t : ParserState}

/-! ## What a success keeps -/

/-- The state `t` is inside of the constructs that `s` is inside of, and its failures tell them where those of `s` do. -/
structure Within (s t : ParserState) : Prop where
  constructs : t.constructs = s.constructs
  traces : t.traces = s.traces

theorem Within.rfl : Within s s :=
  ⟨Eq.refl _, Eq.refl _⟩

theorem Within.trans {u : ParserState} (h : Within s t) (h' : Within t u) : Within s u :=
  ⟨h'.constructs.trans h.constructs, h'.traces.trans h.traces⟩

theorem Within.chain_eq (h : Within s t) : t.chain = s.chain := by
  rw [chain, chain, h.constructs, h.traces]

theorem within_settle (s : ParserState) : Within s s.settle :=
  ⟨constructs_settle s, traces_settle s⟩

/-- The state `t` is one that a success leads to from `s`: the chain of constructs is as it was, no production that was entered is
forgotten, and a token is taken if `moves` says so. -/
structure Leads (moves : Bool) (s t : ParserState) : Prop extends Within s t where
  entered : s.entered <:+ t.entered
  shorter : t.significant.length + moves.toNat ≤ s.significant.length

theorem Leads.loose (h : Leads moves s t) : Leads false s t :=
  ⟨h.toWithin, h.entered, Nat.le_trans (Nat.add_le_add_left (Nat.zero_le _) _) h.shorter⟩

theorem Leads.then {u : ParserState} (h : Leads moves s t) (h' : Leads false t u) : Leads moves s u := by
  have hshorter := h.shorter
  have hshorter' := h'.shorter
  exact ⟨h.toWithin.trans h'.toWithin, h.entered.trans h'.entered, by simp at hshorter'; omega⟩

theorem Leads.after {u : ParserState} (h : Leads false s t) (h' : Leads moves t u) : Leads moves s u := by
  have hshorter := h.shorter
  have hshorter' := h'.shorter
  exact ⟨h.toWithin.trans h'.toWithin, h.entered.trans h'.entered, by simp at hshorter; omega⟩

/-- A parser that only leads onward. A failure, too, forgets no production that was entered. -/
def Advances (moves : Bool) (m : Parser α) : Prop :=
  ∀ s, Yields m s (fun _ t => Leads moves s t) (fun _ t => s.entered <:+ t.entered)

/-- The productions only lead onward, and take a token where their rule says so. -/
def Inner.Advances (I : Inner) : Prop :=
  ∀ {α : Type} (r : Rule α), Parser.Advances r.moves (I.parse r)

/-- An operation enters no production, and it fails inside of the constructs it began in. -/
theorem Elementary.yields (h : Elementary moves m) (s : ParserState) :
    Yields m s (fun _ t => t.entered = s.entered ∧ Leads moves s t)
      (fun e t => t.entered = s.entered ∧ Within s t ∧ e.constructs = s.chain) := by
  have hok : ∀ {a : α} {t : ParserState}, m s = .ok a t → t.entered = s.entered → Within s t →
      t.significant.length + moves.toNat ≤ s.significant.length →
      Yields m s (fun _ t => t.entered = s.entered ∧ Leads moves s t)
        (fun e t => t.entered = s.entered ∧ Within s t ∧ e.constructs = s.chain) := by
    intro a t hm hentered hwithin hshorter
    exact (yields_of_eq_ok hm).2 ⟨hentered, hwithin, hentered.symm ▸ List.suffix_rfl, hshorter⟩
  cases h with
  | pure a => exact hok rfl rfl .rfl (Nat.le_refl _)
  | get => exact hok rfl rfl .rfl (Nat.le_refl _)
  | look h => exact hok (h s) (entered_settle s) (within_settle s) (by simp)
  | take =>
    cases hs : s.significant with
    | nil => exact (yields_of_eq_error (take_eq_fail hs)).2 ⟨entered_settle s, within_settle s, (within_settle s).chain_eq⟩
    | cons t v =>
      exact hok (take_eq hs) (entered_taken s) ⟨constructs_taken s, traces_taken s⟩ (by simp [significant_taken hs, hs])
  | @speculate scan f hscan =>
    cases hsaved : s.stream.saved with
    | none => exact hok (speculate_eq hscan hsaved) rfl .rfl (Nat.le_refl _)
    | some mark => exact (yields_of_eq_error (speculate_eq_error scan hsaved)).2 ⟨rfl, .rfl, rfl⟩
  | openNode p l =>
    exact hok (t := (s.openNode p l).2) rfl (entered_openNode s p l) ⟨constructs_openNode s p l, traces_openNode s p l⟩ (by simp)
  | attach parent child => exact hok (a := ()) rfl rfl ⟨rfl, rfl⟩ (Nat.le_refl _)
  | keepFlags flags => exact hok (a := ()) rfl rfl ⟨rfl, rfl⟩ (Nat.le_refl _)
  | @fail _ _ fault _ => exact (yields_of_eq_error (m := Parser.fail fault) rfl).2 ⟨rfl, .rfl, rfl⟩
  | @failFound _ _ fault _ => exact (yields_of_eq_error (m := Parser.failFound fault) rfl).2 ⟨rfl, .rfl, rfl⟩

theorem Elementary.advances (h : Elementary moves m) : Advances moves m := by
  intro s
  exact (h.yields s).mono (fun _ _ ht => ht.2) (fun _ t ht => ht.1.symm ▸ List.suffix_rfl)

/-- A second parser goes on from where the first one ends. -/
theorem Advances.bind {moves' : Bool} {f : α → Parser β} (hm : Advances moves m) (hf : ∀ a, Advances moves' (f a))
    {moves'' : Bool} (hthen : ∀ {s t u : ParserState}, Leads moves s t → Leads moves' t u → Leads moves'' s u) :
    Advances moves'' (m >>= f) := by
  intro s
  refine yields_bind.2 ((hm s).mono (fun a t ht => ?_) (fun _ _ he => he))
  exact (hf a t).mono (fun _ _ hu => hthen ht hu) (fun _ _ he => ht.entered.trans he)

/-- What is put together from productions that lead onward leads onward. -/
theorem Assembled.advances (h : Assembled I J c moved moves m n) (hI : Inner.Advances I) : Advances moves m := by
  induction h with
  | elementary h => exact h.advances
  | blame _ l fault => exact fun s => (yields_of_eq_error (m := failAt l fault) rfl).2 List.suffix_rfl
  | call r _ => exact hI r
  | seq _ _ ih ihf => exact ih.bind ihf Leads.then
  | after _ _ ih ihf => exact ih.bind ihf Leads.after
  | loose _ ih => exact fun s => (ih s).mono (fun _ _ ht => ht.loose) (fun _ _ he => he)

/-- The guard leads onward where its body does. -/
theorem Advances.guarded (h : Advances moves m) : Advances moves (guarded c m) := by
  intro s
  have hentered : s.entered <:+ (s.enter c).entered := List.suffix_cons _ _
  refine yields_guarded ((h (s.enter c)).mono (fun a t ht => ⟨ht.constructs, ?_⟩) (fun e t he => hentered.trans he))
  exact ⟨⟨rfl, ht.traces⟩, hentered.trans ht.entered, ht.shorter⟩

/-! ## Room enough -/

theorem advances_parse (room : Nat) : Inner.Advances ⟨fun r => Rule.parse room r⟩ := by
  induction room with
  | zero => exact fun r => (Elementary.fail (show ∀ found, ParseFault.nestedTooDeeply.AtNext found from fun _ => trivial)).advances
  | succ room ih => exact fun r => ((assembled_body (J := ⟨fun r => Rule.parse room r⟩) r).advances ih).guarded

theorem bind_eq_bind {f g : α → Parser β} (hm : m s = n s) (hf : ∀ a t, m s = .ok a t → f a t = g a t) :
    (m >>= f) s = (n >>= g) s := by
  simp only [Bind.bind, EStateM.bind, ← hm]
  cases hs : m s with
  | ok a t => exact hf a t hs
  | error e t => rfl

theorem guarded_congr (h : m (s.enter c) = n (s.enter c)) : guarded c m s = guarded c n s := by
  unfold guarded
  simp only [h]

/-- Parsers that are put together alike from productions that agree on shorter runs agree themselves. -/
theorem Assembled.eq_of_agree (h : Assembled I J c moved moves m n) (hI : Inner.Advances I) {length : Nat}
    (hagree : ∀ {α : Type} (r : Rule α) (t : ParserState), r.need t.significant.length < 5 * length + c.rank →
      I.parse r t = J.parse r t)
    (s : ParserState) (hs : s.significant.length + moved.toNat ≤ length) : m s = n s := by
  induction h generalizing s with
  | elementary _ => rfl
  | blame _ _ _ => rfl
  | @call moved _ r hr =>
    refine hagree r s ?_
    have hrank := r.rank_le
    unfold Rule.need
    cases moved with
    | false =>
      have hlt := Construct.rank_lt hr
      rw [← Rule.rank_eq] at hlt
      simp at hs
      omega
    | true =>
      simp at hs
      omega
  | seq hm _ ih ihf =>
    refine bind_eq_bind (ih s hs) (fun a t ht => ihf a t ?_)
    have hshorter := ((hm.advances hI s).ok ht).shorter
    simp at hshorter ⊢
    omega
  | after hm _ ih ihf =>
    refine bind_eq_bind (ih s hs) (fun a t ht => ihf a t ?_)
    have hshorter := ((hm.advances hI s).ok ht).shorter
    simp at hshorter
    omega
  | loose _ ih => exact ih s hs

/-- Parsers of a rule with more room than it needs agree. -/
theorem parse_eq_parse {room room' : Nat} (r : Rule α) (s : ParserState) (h : r.need s.significant.length < room)
    (h' : r.need s.significant.length < room') : Rule.parse room r s = Rule.parse room' r s := by
  induction room generalizing α room' s with
  | zero => exact absurd h (Nat.not_lt_zero _)
  | succ room ih =>
    obtain ⟨room', rfl⟩ := Nat.exists_eq_succ_of_ne_zero (Nat.ne_of_gt (Nat.zero_lt_of_lt h'))
    refine guarded_congr ?_
    refine (assembled_body r).eq_of_agree (advances_parse room) (fun r' t ht => ?_) (s.enter r.construct) (Nat.le_refl _)
    rw [← Rule.rank_eq] at ht
    exact ih r' t (Nat.lt_of_lt_of_le ht (Nat.le_of_lt_succ h)) (Nat.lt_of_lt_of_le ht (Nat.le_of_lt_succ h'))

end Parser

/-! ## Without a limit -/

open Courier.Parser

/-- The parser of a rule without a limit on nesting: there is room for every production that the tokens ahead can nest. -/
def Rule.run {α : Type} (r : Rule α) : Parser α :=
  fun s => r.parse (r.need s.significant.length + 1) s

/-- The productions without a limit on nesting. -/
def Inner.unlimited : Inner :=
  ⟨Rule.run⟩

namespace Rule

variable {α : Type}

theorem run_eq_parse (r : Rule α) {room : Nat} {s : ParserState} (h : r.need s.significant.length < room) :
    r.run s = Rule.parse room r s :=
  parse_eq_parse r s (Nat.lt_succ_self _) h

theorem advances_run : Inner.Advances .unlimited :=
  fun r s => advances_parse (r.need s.significant.length + 1) r s

/-- Without a limit, a production runs its body inside a guard, and its body enters productions without a limit. -/
theorem run_eq (r : Rule α) : r.run = guarded r.construct (r.body .unlimited) := by
  funext s
  refine guarded_congr ?_
  refine (assembled_body r).eq_of_agree (advances_parse _) (fun r' t ht => ?_) (s.enter r.construct) (Nat.le_refl _)
  rw [← Rule.rank_eq] at ht
  exact (run_eq_parse r' ht).symm

/-- The equations of the grammar without a limit have one solution. -/
theorem eq_run {I : Inner} (h : ∀ {α : Type} (r : Rule α), I.parse r = guarded r.construct (r.body I)) (r : Rule α) :
    I.parse r = r.run := by
  have hall : ∀ (need : Nat) {α : Type} (r : Rule α) (s : ParserState), r.need s.significant.length < need →
      r.run s = I.parse r s := by
    intro need
    induction need with
    | zero => exact fun _ _ hneed => absurd hneed (Nat.not_lt_zero _)
    | succ need ih =>
      intro α r s hneed
      rw [run_eq, h]
      refine guarded_congr ?_
      refine (assembled_body r).eq_of_agree advances_run (fun r' t ht => ?_) (s.enter r.construct) (Nat.le_refl _)
      rw [← Rule.rank_eq] at ht
      exact ih r' t (Nat.lt_of_lt_of_le ht (Nat.le_of_lt_succ hneed))
  funext s
  exact (hall _ r s (Nat.lt_succ_self _)).symm

end Rule

/-- The productions without a limit are the solution of those equations. -/
theorem Inner.eq_unlimited_iff {I : Inner} :
    (∀ {α : Type} (r : Rule α), I.parse r = guarded r.construct (r.body I)) ↔ I = .unlimited := by
  constructor
  · intro h
    obtain ⟨parse⟩ := I
    have hparse : @parse = @Rule.run := by
      funext α r
      exact Rule.eq_run h r
    rw [hparse]
    rfl
  · rintro rfl
    exact Rule.run_eq

end Courier
