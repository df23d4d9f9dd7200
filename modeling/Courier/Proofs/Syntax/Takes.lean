import Courier.Proofs.Parser.Leaves
import Courier.Proofs.Syntax.Grammar

/-!
# Parsers that take a run of tokens

Where a run of tokens stands before the rest of a stream, a parser takes the run if it leaves exactly the rest; it may fail only as
it is granted. Parsers in sequence take runs in sequence, and a loop takes the runs that its rounds take, provided that
its condition tells each of them from what stands behind the last.
-/

namespace Courier.Syntax

open Courier.Parser

/-- Where the tokens ahead that are no comments are `w` and `rest` behind it, the parser leaves exactly `rest`, or fails and blames
some tokens as `E` grants. -/
def Takes {α : Type} (E : Blame) (m : Parser α) (w rest : List Token) : Prop :=
  Leaves E m (w ++ rest) (· = rest)

section

variable {α β : Type} {E : Blame} {m n : Parser α} {k : α → Parser β} {w u rest : List Token}

theorem takes_pure {a : α} : Takes E (pure a) [] rest :=
  leaves_pure rfl

/-- Parsers in sequence take runs in sequence. -/
theorem Takes.seq (hm : Takes E m w (u ++ rest)) (hk : ∀ a, Takes E (k a) u rest) : Takes E (m >>= k) (w ++ u) rest := by
  unfold Takes
  rw [List.append_assoc]
  refine Leaves.bind hm (fun a v hv => ?_)
  subst hv
  exact hk a

theorem takes_silent_bind (hm : Silent m) (hk : ∀ a, Takes E (k a) w rest) : Takes E (m >>= k) w rest :=
  hm.leaves_bind hk

theorem takes_look_bind {p : Option Token → α} (hm : Looks m p) {a : α} (ha : p (w ++ rest).head? = a)
    (hk : Takes E (k a) w rest) : Takes E (m >>= k) w rest :=
  hm.leaves_bind (ha ▸ hk)

theorem takes_probe_bind {p : List Token → α} (hm : Probes m p) {a : α} (ha : p (w ++ rest) = a)
    (hk : Takes E (k a) w rest) : Takes E (m >>= k) w rest :=
  hm.leaves_bind (ha ▸ hk)

/-- A beginning that may be missing, where the answer `b` says whether it is. -/
theorem takes_opt_seq {m : Parser Unit} {k : Unit → Parser β} {b : Bool} (hnil : w = [] → b = false)
    (hne : w ≠ [] → b = true ∧ Takes E m w (u ++ rest)) (hk : ∀ a, Takes E (k a) u rest) :
    Takes E (if b = true then m >>= k else k ()) (w ++ u) rest := by
  by_cases hw : w = []
  · subst hw
    rw [hnil rfl, if_neg (by decide)]
    exact hk ()
  · obtain ⟨hb, hm⟩ := hne hw
    rw [hb, if_pos rfl]
    exact hm.seq hk

/-- Two ways to begin that go on alike. -/
theorem Takes.ite_seq {b : Bool} (hm : b = true → Takes E m w (u ++ rest)) (hn : b = false → Takes E n w (u ++ rest))
    (hk : ∀ a, Takes E (k a) u rest) : Takes E (if b = true then m >>= k else n >>= k) (w ++ u) rest := by
  cases b with
  | true => exact (hm rfl).seq hk
  | false => exact (hn rfl).seq hk

/-- A parser that ends without taking a token adds nothing to what was taken. -/
theorem Takes.silent_end (hm : Takes E m w rest) (hk : ∀ a, Silent (k a)) : Takes E (m >>= k) w rest := by
  have h : Takes E (m >>= k) (w ++ []) rest := hm.seq (fun a => leaves_silent (hk a) rfl)
  rwa [List.append_nil] at h

theorem Takes.result (hm : Takes E m w rest) {b : α → β} : Takes E (m >>= fun a => pure (b a)) w rest :=
  hm.silent_end (fun a => silent_pure (b a))

theorem Takes.map (hm : Takes E m w rest) {b : α → β} : Takes E (b <$> m) w rest :=
  Leaves.map hm

theorem takes_take {t : Token} : Takes E take [t] rest :=
  leaves_take rfl

theorem takes_expect {t : Token} {c : TokenKind} {what : String} (h : t.kind = c) : Takes E (expect c what) [t] rest :=
  leaves_expect h rfl

theorem takes_expectKeyword {t : Token} {c : Keyword} (h : t.keyword? = some c) : Takes E (expectKeyword c) [t] rest :=
  leaves_expectKeyword h rfl

theorem takes_identifier {t : Token} {what : String} (h : t.kind = .identifier) : Takes E (identifier what) [t] rest :=
  leaves_identifier h rfl

theorem Takes.guarded {c : Construct} (hm : Takes E m w rest) : Takes E (guarded c m) w rest :=
  Leaves.guarded hm

/-- What holds of the tokens from every first token of a form on, and of the rest, holds behind a repeated form too. -/
theorem follow_star {f : Form Symbol} {P : Token → Prop} (hf : Begins P f) (F : List Token → Prop)
    (hF : ∀ t v, P t → F (t :: v)) (hw : Spells (.star f) w) (hrest : F rest) : F (w ++ rest) := by
  obtain ⟨ws, hws, rfl⟩ := derives_star.1 hw
  cases ws with
  | nil => exact hrest
  | cons u us =>
    obtain ⟨t, v, rfl, ht⟩ := hf u (hws u (by simp))
    exact hF t _ ht

theorem follow_opt {f : Form Symbol} {P : Token → Prop} (hf : Begins P f) (F : List Token → Prop)
    (hF : ∀ t v, P t → F (t :: v)) (hw : Spells f.opt w) (hrest : F rest) : F (w ++ rest) := by
  rcases derives_opt.1 hw with hw | rfl
  · obtain ⟨t, v, rfl, ht⟩ := hf w hw
    exact hF t _ ht
  · exact hrest

/-- A loop takes a run of a repeated form, if its condition holds before every run of the form and not before the rest. `F` is what
the rounds ask of the tokens behind what they take. -/
theorem takes_repeatWhile {more : Parser Bool} {p : Option Token → Bool} {step : α → Parser α} (hm : Looks more p)
    {f : Form Symbol} {P : Token → Prop} (hf : Begins P f) (hp : ∀ t, P t → p (some t) = true) (F : List Token → Prop)
    (hF : ∀ t v, P t → F (t :: v)) (hw : Spells (.star f) w)
    (hstep : ∀ a u v, Spells f u → u.length ≤ w.length → F v → Takes E (step a) u v)
    (hrest : F rest) (hend : p rest.head? = false) (a : α) : Takes E (repeatWhile more step a) w rest := by
  obtain ⟨ws, hws, rfl⟩ := derives_star.1 hw
  have hfollow : ∀ us : List (List Token), us ⊆ ws → F (us.flatten ++ rest) := fun us hus =>
    follow_star hf F hF (derives_star.2 ⟨us, fun u hu => hws u (hus hu), rfl⟩) hrest
  have hround : ∀ (a : α) (v : List Token), (∃ us : List (List Token), us ⊆ ws ∧ v = us.flatten ++ rest) →
      p v.head? = true →
      Leaves E (step a) v (fun v' => (∃ us : List (List Token), us ⊆ ws ∧ v' = us.flatten ++ rest) ∧ v'.length < v.length) := by
    intro a v ⟨us, hus, hv⟩ hmore
    cases us with
    | nil =>
      rw [hv, List.flatten_nil, List.nil_append, hend] at hmore
      nomatch hmore
    | cons u us =>
      have hu : u ∈ ws := hus (by simp)
      have hus' : us ⊆ ws := fun x hx => hus (by simp [hx])
      have hlength : u.length ≤ ws.flatten.length := (List.sublist_flatten_of_mem hu).length_le
      rw [List.flatten_cons, List.append_assoc] at hv
      subst hv
      refine Leaves.mono (hstep a u _ (hws u hu) hlength (hfollow us hus')) (fun _ _ he => he) (fun v' hv' => ?_)
      subst hv'
      have hpos := List.length_pos_iff.2 (hf.ne_nil u (hws u hu))
      refine ⟨⟨us, hus', rfl⟩, ?_⟩
      simp only [List.length_append]
      omega
  refine Leaves.mono (leaves_repeatWhile _ hm hround a ⟨ws, fun _ h => h, rfl⟩) (fun _ _ he => he) ?_
  intro v' ⟨⟨us, hus, hv'⟩, hno⟩
  cases us with
  | nil => exact hv'
  | cons u us =>
    obtain ⟨t, x, rfl, ht⟩ := hf u (hws u (hus (by simp)))
    rw [hv', List.flatten_cons, List.cons_append, List.cons_append, List.head?_cons, hp t ht] at hno
    nomatch hno

end

end Courier.Syntax
