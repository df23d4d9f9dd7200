import Courier.Proofs.Parser.Leaves
import Courier.Proofs.Syntax.Prefix

/-!
# Parsers that read forms

A parser reads a form if every run of tokens it takes, when it succeeds, is derived from the form, and if what it takes before it
fails starts the form (`Reads`). So what stands before the place of a failure can be completed. Parsers in sequence read forms in
sequence, a loop reads a repeated form, and each operation that takes a token reads a class of tokens.
-/

namespace Courier.Syntax

open Courier.Parser

/-- Whatever the fault is, the tokens from the blamed one on stand behind a run that starts the form. -/
def Starting (f : Form Symbol) (v : List Token) : Blame :=
  fun _ v' => ∃ w, Starts f w ∧ v = w ++ v'

/-- Where the tokens ahead that are no comments are `v`, the parser takes a run of them that the form derives, or fails behind a run
that starts the form. -/
def Reads {α : Type} (v : List Token) (m : Parser α) (f : Form Symbol) : Prop :=
  Leaves (Starting f v) m v (fun v' => ∃ w, Spells f w ∧ v = w ++ v')

section

variable {α β : Type} {m : Parser α} {k : α → Parser β} {v : List Token} {f g : Form Symbol}

/-! ## What is taken before a failure -/

/-- Nothing was taken before a failure at the first token. -/
theorem starting_here {fault : ParseFault} : Starting f v fault v :=
  ⟨[], starts_nil, rfl⟩

/-- What starts one form at these tokens starts another. -/
theorem Starting.mono {fault : ParseFault} {v' : List Token} (h : Starting f v fault v')
    (hfg : ∀ w, Starts f w → v = w ++ v' → Starts g w) : Starting g v fault v' := by
  obtain ⟨w, hw, hv⟩ := h
  exact ⟨w, hfg w hw hv, hv⟩

/-- A failure behind a run of tokens, once these are put in front. -/
theorem Starting.append {fault : ParseFault} {w v₁ v' : List Token} (h : Starting f v₁ fault v') (hv : v = w ++ v₁)
    (hfg : ∀ u, Starts f u → Starts g (w ++ u)) : Starting g v fault v' := by
  obtain ⟨u, hu, hv₁⟩ := h
  exact ⟨w ++ u, hfg u hu, by rw [hv, hv₁, List.append_assoc]⟩

/-! ## Reading -/

theorem reads_pure {a : α} : Reads v (pure a) .empty :=
  leaves_pure ⟨[], .empty, rfl⟩

theorem Reads.mono (h : Reads v m f) (hfg : ∀ w, Spells f w → Spells g w) : Reads v m g :=
  Leaves.mono h (fun _ _ he => he.mono (fun _ hw _ => hw.mono hfg)) (fun _ ⟨w, hw, hv⟩ => ⟨w, hfg w hw, hv⟩)

/-- Parsers in sequence read forms in sequence. -/
theorem Reads.seq (hm : Reads v m f) (hk : ∀ a v', Reads v' (k a) g) : Reads v (m >>= k) (.seq f g) := by
  refine Leaves.bind (Leaves.mono hm (fun _ _ he => he.mono (fun _ hw _ => hw.seq_left)) (fun _ hv => hv)) ?_
  intro a v₁ ⟨w₁, hw₁, hv⟩
  refine Leaves.mono (hk a v₁) (fun _ _ he => he.append hv (fun _ hu => hu.seq_right hw₁)) (fun v₂ ⟨w₂, hw₂, hv₁⟩ => ?_)
  exact ⟨w₁ ++ w₂, .seq hw₁ hw₂, by rw [hv, hv₁, List.append_assoc]⟩

/-- A parser that leaves the tokens as they are reads nothing. -/
theorem reads_silent_bind (hm : Silent m) (hk : ∀ a, Reads v (k a) f) : Reads v (m >>= k) f :=
  hm.leaves_bind hk

theorem reads_look_bind {p : Option Token → α} (hm : Looks m p) (hk : Reads v (k (p v.head?)) f) : Reads v (m >>= k) f :=
  hm.leaves_bind hk

theorem reads_probe_bind {p : List Token → α} (hm : Probes m p) (hk : Reads v (k (p v)) f) : Reads v (m >>= k) f :=
  hm.leaves_bind hk

/-- Two ways to begin that go on alike. -/
theorem Reads.ite_seq {n : Parser α} {b : Bool} (hm : b = true → Reads v m f) (hn : b = false → Reads v n f)
    (hk : ∀ a v', Reads v' (k a) g) : Reads v (if b = true then m >>= k else n >>= k) (.seq f g) := by
  cases b with
  | true => exact (hm rfl).seq hk
  | false => exact (hn rfl).seq hk

theorem Reads.result (hm : Reads v m f) {b : α → β} : Reads v (m >>= fun a => pure (b a)) f :=
  Leaves.result hm

/-- A parser that ends without taking a token adds nothing to what was read. -/
theorem Reads.silent_end (hm : Reads v m f) (hk : ∀ a, Silent (k a)) : Reads v (m >>= k) f := by
  refine Leaves.bind hm (fun a v₁ h => ?_)
  exact leaves_silent (hk a) h

theorem Reads.map (hm : Reads v m f) {b : α → β} : Reads v (b <$> m) f :=
  Leaves.map hm

theorem Reads.left (hm : Reads v m f) : Reads v m (.alt f g) :=
  hm.mono (fun _ => .left)

theorem Reads.right (hm : Reads v m g) : Reads v m (.alt f g) :=
  hm.mono (fun _ => .right)

theorem Reads.some (hm : Reads v m f) : Reads v m f.opt :=
  hm.mono (fun _ => .left)

theorem reads_none {a : α} : Reads v (pure a) f.opt :=
  reads_pure.mono (fun _ => .right)

/-- A beginning that may be missing. -/
theorem Reads.opt_seq {m : Parser Unit} {k : Unit → Parser β} {b : Bool} (hm : b = true → Reads v m f)
    (hk : ∀ a v', Reads v' (k a) g) : Reads v (if b = true then m >>= k else k ()) (.seq f.opt g) := by
  cases b with
  | true => exact (hm rfl).some.seq hk
  | false =>
    refine (hk () v).mono (fun w hw => ?_)
    exact derives_seq.2 ⟨[], w, .right .empty, hw, rfl⟩

theorem Reads.symbol {n : Symbol} (hm : Reads v m (production n)) : Reads v m (.symbol n) :=
  hm.mono (fun _ => .symbol)

theorem reads_fail {fault : ParseFault} : Reads v (fail fault : Parser α) f :=
  leaves_fail starting_here

theorem reads_failFound {fault : Option String → ParseFault} : Reads v (failFound fault : Parser α) f :=
  leaves_failFound (fun _ => starting_here)

/-- Where no token is left, a failure to take one blames the end. -/
theorem leaves_take_bind_nil {E : Blame} {k : Token → Parser β} {S : List Token → Prop} (h : E .endOfInput []) :
    Leaves E (take >>= k) [] S := by
  intro s _ hs
  obtain ⟨e, he, hfault, hplace⟩ := take_eq_error hs
  rw [yields_bind]
  exact (yields_of_eq_error he).2 ⟨[], .inr (hs ▸ hplace), hfault ▸ h⟩

/-- The next token is taken, whatever class it is known to be of. -/
theorem reads_take {c : Terminal} (h : ∀ t ∈ v.head?, c.Matches t) : Reads v take (.token c) := by
  cases v with
  | nil =>
    have htake : Leaves (Starting (.token c) []) (take >>= pure) [] (fun v' => ∃ w, Spells (.token c) w ∧ [] = w ++ v') :=
      leaves_take_bind_nil starting_here
    rwa [bind_pure] at htake
  | cons t v => exact leaves_take ⟨[t], .token (h t (by simp)), rfl⟩

/-- The next token is taken, and what follows depends on it. -/
theorem leaves_take_any {E : Blame} {k : Token → Parser β} {S : List Token → Prop} (hE : v = [] → E .endOfInput [])
    (h : ∀ t v', v = t :: v' → Leaves E (k t) v' S) : Leaves E (take >>= k) v S := by
  cases v with
  | nil => exact leaves_take_bind_nil (hE rfl)
  | cons t v => exact leaves_take_bind (h t v rfl)

/-- A token that is expected and is not there is missed at the next one. -/
theorem leaves_expect_here {c : TokenKind} {what : String} : Leaves (fun _ v' => v' = v) (expect c what) v
    (fun v' => ∃ t : Token, t.kind = c ∧ v = t :: v') := by
  by_cases h : ∃ t ∈ v.head?, t.kind = c
  · obtain ⟨t, ht, hc⟩ := h
    cases v with
    | nil => simp at ht
    | cons u v =>
      obtain rfl : u = t := by simpa using ht
      exact leaves_expect hc ⟨u, hc, rfl⟩
  · intro s _ hs
    obtain ⟨e, found, he, -, hplace⟩ := expect_eq_error (k := c) (s := s) (fun t ht hc => h ⟨t, hs ▸ ht, hc⟩) what
    exact (yields_of_eq_error he).2 ⟨v, .inr (hs ▸ hplace), rfl⟩

theorem reads_expect {c : TokenKind} {what : String} : Reads v (expect c what) (.kind c) :=
  Leaves.mono leaves_expect_here (fun _ _ hv' => hv' ▸ starting_here) (fun _ ⟨t, ht, hv⟩ => ⟨[t], .token ht, hv⟩)

theorem reads_expectKeyword {c : Keyword} : Reads v (expectKeyword c) (.word c) := by
  by_cases h : ∃ t ∈ v.head?, t.keyword? = some c
  · obtain ⟨t, ht, hc⟩ := h
    cases v with
    | nil => simp at ht
    | cons u v =>
      obtain rfl : u = t := by simpa using ht
      exact leaves_expectKeyword hc ⟨[u], .token hc, rfl⟩
  · intro s _ hs
    obtain ⟨e, found, he, -, hplace⟩ := expectKeyword_eq_error (k := c) (s := s) (fun t ht hc => h ⟨t, hs ▸ ht, hc⟩)
    exact (yields_of_eq_error he).2 ⟨v, .inr (hs ▸ hplace), starting_here⟩

theorem reads_identifier {what : String} : Reads v (identifier what) (.kind .identifier) :=
  reads_expect.result

/-- A loop reads a repeated form, if every run that the form derives has a first token, and ends where its condition says no. -/
theorem leaves_loop {more : Parser Bool} {p : Option Token → Bool} {step : α → Parser α} (hm : Looks more p)
    {P : Token → Prop} (hf : Begins P f) (hstep : ∀ a v, p v.head? = true → Reads v (step a) f) (a : α) :
    Leaves (Starting (.star f) v) (repeatWhile more step a) v
      (fun v' => (∃ w, Spells (.star f) w ∧ v = w ++ v') ∧ p v'.head? = false) := by
  have hround : ∀ (a : α) (v₁ : List Token), (∃ w, Spells (.star f) w ∧ v = w ++ v₁) → p v₁.head? = true →
      Leaves (Starting (.star f) v) (step a) v₁
        (fun v₂ => (∃ w, Spells (.star f) w ∧ v = w ++ v₂) ∧ v₂.length < v₁.length) := by
    intro a v₁ ⟨w, hw, hv⟩ hp
    refine Leaves.mono (hstep a v₁ hp) (fun _ _ he => he.append hv (fun _ hu => hu.star hw)) ?_
    intro v₂ ⟨u, hu, hv₁⟩
    have hpos := List.length_pos_iff.2 (hf.ne_nil u hu)
    refine ⟨⟨w ++ u, derives_star_append hw hu, by rw [hv, hv₁, List.append_assoc]⟩, ?_⟩
    rw [hv₁, List.length_append]
    omega
  exact leaves_repeatWhile _ hm hround a ⟨[], .starNil, rfl⟩

theorem reads_repeatWhile {more : Parser Bool} {p : Option Token → Bool} {step : α → Parser α} (hm : Looks more p)
    {P : Token → Prop} (hf : Begins P f) (hstep : ∀ a v, p v.head? = true → Reads v (step a) f) (a : α) :
    Reads v (repeatWhile more step a) (.star f) :=
  Leaves.mono (leaves_loop hm hf hstep a) (fun _ _ he => he) (fun _ hv => hv.1)

theorem Reads.guarded {c : Construct} (h : Reads v m f) : Reads v (guarded c m) f :=
  Leaves.guarded h

end

end Courier.Syntax
