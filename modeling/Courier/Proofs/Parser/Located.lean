import Courier.Proofs.Parser.Assembly
import Courier.Proofs.Syntax.Soundness

/-!
# Where a failure is and where the stream is left

A parser only moves the cursor of its stream on (`Stream.Passed`), and a failure is located by the cursor that it leaves
(`ParseError.LocatedIn`): at the next token that is no comment, but for two faults that blame a token taken before. A literal that is
no value is the token just taken; an array that is not closed is blamed on its bracket, and no other bracket was taken since. `Locates`
is kept by everything a production is made of, so one induction proves it of all productions but the three that lead to those faults.
-/

namespace Courier

/-! ## Passing over tokens -/

/-- The stream `t` is `s` with the cursor moved on over some tokens. No mark is saved. -/
structure Stream.Passed (s : Stream) (passed : List Token) (t : Stream) : Prop where
  saved : s.saved = none
  ahead : s.ahead = passed ++ t.ahead
  eq : t = s.moveTo ⟨passed.reverse ++ s.cursor.behind, t.ahead⟩

namespace Stream.Passed

variable {s t u : Stream} {ts us : List Token}

theorem refl (h : s.saved = none) : s.Passed [] s :=
  ⟨h, rfl, rfl⟩

theorem trans (h : s.Passed ts t) (h' : t.Passed us u) : s.Passed (ts ++ us) u := by
  have hbehind : t.cursor.behind = ts.reverse ++ s.cursor.behind := congrArg (fun x => x.cursor.behind) h.eq
  refine ⟨h.saved, by rw [h.ahead, h'.ahead, List.append_assoc], ?_⟩
  rw [List.reverse_append, List.append_assoc, ← hbehind, h'.eq]
  nth_rewrite 1 [h.eq]
  rfl

/-- The cursor passes over the next token. -/
theorem next (h : s.saved = none) {t : Token} {rest : List Token} (hs : s.ahead = t :: rest) :
    s.Passed [t] (s.moveTo ⟨t :: s.cursor.behind, rest⟩) :=
  ⟨h, hs, rfl⟩

theorem behind (h : s.Passed ts t) : t.cursor.behind = ts.reverse ++ s.cursor.behind :=
  congrArg (fun x => x.cursor.behind) h.eq

theorem saved_eq (h : s.Passed ts t) : t.saved = none := by
  rw [h.eq]
  exact h.saved

theorem source_eq (h : s.Passed ts t) : t.source = s.source :=
  congrArg (fun x => x.source) h.eq

theorem file_eq (h : s.Passed ts t) : t.file = s.file :=
  congrArg (fun x => x.file) h.eq

theorem tokens_eq (h : s.Passed ts t) : t.tokens = s.tokens := by
  have hs : s.cursor.ahead = ts ++ t.ahead := h.ahead
  have ht : t.cursor = ⟨ts.reverse ++ s.cursor.behind, t.ahead⟩ := congrArg Stream.cursor h.eq
  unfold tokens Cursor.toList
  rw [ht, hs, List.reverse_append, List.reverse_reverse, List.append_assoc]

end Stream.Passed

/-! ## Located failures -/

/-- The kind is that of a square bracket. -/
def TokenKind.isBracket (k : TokenKind) : Bool :=
  k == .leftBracket || k == .rightBracket

/-- A failure is located by the stream as it is left. An array that is not closed is blamed on its opening bracket, the last bracket
that was taken, and a literal that is no value on itself, the last token that was taken. It is a version. Every other failure is located
at the next token that is no comment, or at the end of the text. -/
def ParseError.LocatedIn (e : ParseError) (s : Stream) : Prop :=
  match e.fault with
  | .unterminatedArray => ∃ since t before, s.cursor.behind = since ++ t :: before ∧ t.kind = .leftBracket ∧
      e.location = t.location ∧ ∀ u ∈ since, u.kind.isBracket = false
  | .notAValue text => ∃ t before, s.cursor.behind = t :: before ∧ t.kind = .versionLiteral ∧ t.text = text ∧
      e.location = t.location
  | _ => e.location = placeIn s.source (significant s.ahead)

theorem ParseError.locatedIn_of_atNext {e : ParseError} {s : Stream} (found : Option String) (h : e.fault.AtNext found)
    (hlocation : e.location = placeIn s.source (significant s.ahead)) : e.LocatedIn s := by
  unfold LocatedIn
  cases hfault : e.fault <;> rw [hfault] at h <;> first | exact hlocation | exact h.elim

namespace Parser

open ParserState Grammar

variable {I J : Inner} {c : Construct} {moved moves : Bool} {α β : Type} {m n : Parser α} {f : α → Parser β} {s : ParserState}
  {o : Stream}

/-! ## Settling and taking -/

theorem passed_settle {ts : List Token} (h : o.Passed ts s.stream) : ∃ ts, o.Passed ts s.settle.stream := by
  refine settle_induction (I := fun u => ∃ ts, o.Passed ts u.stream) (fun u t rest hu _ ⟨ts, hts⟩ => ?_) ⟨ts, h⟩
  refine ⟨ts ++ [t], ?_⟩
  rw [stream_placeComment]
  exact hts.trans (.next hts.saved_eq hu)

theorem passed_taken {ts : List Token} (h : o.Passed ts s.stream) : ∃ ts, o.Passed ts s.taken.stream := by
  obtain ⟨us, hus⟩ := passed_settle h
  unfold taken
  split
  · rename_i t rest hrest
    exact ⟨us ++ [t], hus.trans (.next hus.saved_eq hrest)⟩
  · exact ⟨us, hus⟩

/-! ## Parsers that locate their failures -/

/-- The stream was reached from `o`. -/
def ReachedFrom (o : Stream) (s : ParserState) : Prop :=
  ∃ ts, o.Passed ts s.stream

/-- From this state a parser ends in a state whose stream was reached from `o`, and a failure is located by that stream. -/
def LocatesAt (o : Stream) (m : Parser α) (s : ParserState) : Prop :=
  Yields m s (fun _ t => ReachedFrom o t) (fun e t => ReachedFrom o t ∧ e.LocatedIn t.stream)

/-- From every state whose stream was reached from `o`, a parser ends in such a state and locates its failure. -/
def Locates (o : Stream) (m : Parser α) : Prop :=
  ∀ s, ReachedFrom o s → LocatesAt o m s

theorem locatesAt_bind (hm : LocatesAt o m s) (hf : ∀ a t, m s = .ok a t → ReachedFrom o t → LocatesAt o (f a) t) :
    LocatesAt o (m >>= f) s := by
  refine yields_bind.2 ?_
  unfold LocatesAt Yields at hm
  unfold Yields
  cases hs : m s with
  | ok a t =>
    rw [hs] at hm
    exact hf a t hs hm
  | error e t =>
    rw [hs] at hm
    exact hm

theorem Locates.bind (hm : Locates o m) (hf : ∀ a, Locates o (f a)) : Locates o (m >>= f) :=
  fun s hs => locatesAt_bind (hm s hs) (fun a t _ ht => hf a t ht)

theorem locatesAt_look_bind {p : Option Token → α} (hm : Looks m p) (hs : ReachedFrom o s)
    (hf : ReachedFrom o s.settle → LocatesAt o (f (p s.significant.head?)) s.settle) : LocatesAt o (m >>= f) s := by
  obtain ⟨ts, hts⟩ := hs
  exact yields_bind.2 ((yields_of_eq_ok (hm s)).2 (hf (passed_settle hts)))

theorem locatesAt_fail {fault : ParseFault} (h : ∀ found, fault.AtNext found) (hs : ReachedFrom o s) :
    LocatesAt o (fail fault : Parser α) s :=
  (yields_of_eq_error (m := fail fault) rfl).2 ⟨hs, ParseError.locatedIn_of_atNext none (h none) s.here_eq⟩

theorem locatesAt_failFound {fault : Option String → ParseFault} (h : ∀ found, (fault found).AtNext found) (hs : ReachedFrom o s) :
    LocatesAt o (failFound fault : Parser α) s :=
  (yields_of_eq_error (m := failFound fault) rfl).2 ⟨hs, ParseError.locatedIn_of_atNext _ (h _) s.here_eq⟩

theorem Elementary.locates (h : Elementary moves m) : Locates o m := by
  intro s hs
  have hok : ∀ {a : α} {t : ParserState}, m s = .ok a t → ReachedFrom o t → LocatesAt o m s := fun hm ht => (yields_of_eq_ok hm).2 ht
  have hs' := hs
  obtain ⟨ts, hts⟩ := hs'
  cases h with
  | pure a => exact hok rfl hs
  | get => exact hok rfl hs
  | look h => exact hok (h s) (passed_settle hts)
  | take =>
    cases hsig : s.significant with
    | nil =>
      obtain ⟨e, he, hfault, hlocation⟩ := take_eq_error hsig
      refine (yields_of_eq_error he).2 ⟨passed_settle hts, ParseError.locatedIn_of_atNext none (by rw [hfault]; trivial) ?_⟩
      rw [hlocation, ← source_settle, ← significant_settle]
      rfl
    | cons t v => exact hok (take_eq hsig) (passed_taken hts)
  | speculate h => exact hok (speculate_eq h hts.saved_eq) hs
  | openNode p l => exact hok (t := (s.openNode p l).2) rfl ⟨ts, by rw [stream_openNode]; exact hts⟩
  | attach parent child => exact hok (a := ()) rfl hs
  | keepFlags flags => exact hok (a := ()) rfl hs
  | fail h => exact locatesAt_fail h hs
  | failFound h => exact locatesAt_failFound h hs

/-- A guard moves no cursor, and a chain of constructs that is not as it was would be blamed on the next token. -/
theorem locatesAt_guarded (h : LocatesAt o m (s.enter c)) : LocatesAt o (guarded c m) s := by
  unfold LocatesAt Yields at h
  unfold LocatesAt Yields guarded
  cases hm : m (s.enter c) with
  | error e t =>
    rw [hm] at h
    exact h
  | ok a t =>
    rw [hm] at h
    dsimp only
    split
    · rename_i hend
      split at hend
      · obtain ⟨-, rfl⟩ := EStateM.Result.ok.inj hend
        exact h
      · nomatch hend
    · rename_i hend
      split at hend
      · nomatch hend
      · obtain ⟨rfl, rfl⟩ := EStateM.Result.error.inj hend
        exact ⟨h, t.here_eq⟩

/-! ## Productions in general -/

/-- A value may stand here: a literal or nil is next. -/
def AtValue (s : ParserState) : Prop :=
  ∃ t v, s.significant = t :: v ∧ (t.kind.isLiteral = true ∨ t.keyword? = some .nil)

/-- The productions locate their failures. A literal does where a value may stand. -/
structure Inner.Locates (o : Stream) (I : Inner) : Prop where
  rule {α : Type} (r : Rule α) (h : r.construct ≠ .literal) : Parser.Locates o (I.parse r)
  literal (s : ParserState) (hs : ReachedFrom o s) (h : AtValue s) : LocatesAt o (I.parse .literal) s

/-- What is put together from productions that locate their failures locates its own, if it enters no literal and blames no token that
was taken. -/
theorem Assembled.locates (h : Assembled I J c moved moves m n) (hI : Inner.Locates o I) (hc : .literal ∉ c.enters true)
    (harray : c ≠ .arrayLiteral) (hliteral : c ≠ .literal) : Locates o m := by
  induction h with
  | elementary h => exact h.locates
  | blame h _ _ => exact absurd h (by simp [harray, hliteral])
  | @call moved _ r hr =>
    refine hI.rule r (fun hr' => hc ?_)
    rw [hr'] at hr
    cases moved with
    | false => exact List.mem_append_left c.later hr
    | true => exact hr
  | seq _ _ ih ihf => exact ih.bind ihf
  | after _ _ ih ihf => exact ih.bind ihf
  | loose _ ih => exact ih

/-! ## Literals and what enters them -/

/-- A value that is no literal token is a version. -/
theorem version_of_literalPayload? {t : Token} (h : literalPayload? t = none)
    (hvalue : t.kind.isLiteral = true ∨ t.keyword? = some .nil) : t.kind = .versionLiteral := by
  rcases hvalue with hvalue | hnil
  · unfold literalPayload? at h
    cases hk : t.kind <;> simp [hk, TokenKind.isLiteral] at h hvalue
    rfl
  · have hk := Token.kind_of_keyword? hnil
    simp [literalPayload?, hk, hnil] at h

theorem locatesAt_literal (hs : ReachedFrom o s) (h : AtValue s) : LocatesAt o Grammar.literal s := by
  obtain ⟨t, v, hsig, hvalue⟩ := h
  obtain ⟨rest, hrest, -, htaken⟩ := taken_eq hsig
  obtain ⟨ts, hts⟩ := hs
  unfold Grammar.literal
  refine yields_bind.2 ((yields_of_eq_ok (take_eq hsig)).2 ?_)
  split
  · exact (Elementary.openNode _ _).locates _ (passed_taken hts)
  · rename_i hpayload
    refine (yields_of_eq_error (m := failAt t.location (.notAValue t.text)) rfl).2 ⟨passed_taken hts, ?_⟩
    exact ⟨t, s.settle.stream.cursor.behind, by rw [htaken]; rfl, version_of_literalPayload? hpayload hvalue, rfl, rfl⟩

theorem atValue_of_isLiteral {k : TokenKind} (h : s.significant.head?.map Token.kind = some k) (hk : k.isLiteral = true) :
    AtValue s.settle := by
  obtain ⟨t, ht, rfl⟩ := Option.map_eq_some_iff.1 h
  obtain ⟨v, hv⟩ := List.head?_eq_some_iff.1 ht
  exact ⟨t, v, by rw [significant_settle, hv], .inl hk⟩

theorem atValue_of_nil (h : s.significant.head?.bind Token.keyword? = some .nil) : AtValue s.settle := by
  obtain ⟨t, ht, hnil⟩ := Option.bind_eq_some_iff.1 h
  obtain ⟨v, hv⟩ := List.head?_eq_some_iff.1 ht
  exact ⟨t, v, by rw [significant_settle, hv], .inr hnil⟩

theorem Locates.repeatWhile {more : Parser Bool} {p : Option Token → Bool} {step : α → Parser α} (hmore : Looks more p)
    (hstep : ∀ a, Locates o (step a)) (a : α) : Locates o (repeatWhile more step a) := by
  have hfor : ∀ (rounds : List Token) (a : α), Locates o (repeatFor more step rounds a) := by
    intro rounds
    induction rounds with
    | nil =>
      intro a
      refine (Elementary.look hmore).locates.bind (fun goesOn => ?_)
      cases goesOn with
      | false => exact (Elementary.pure a).locates
      | true => exact hstep a
    | cons _ rest ih =>
      intro a
      refine (Elementary.look hmore).locates.bind (fun goesOn => ?_)
      cases goesOn with
      | false => exact (Elementary.pure a).locates
      | true => exact (hstep a).bind ih
  exact Elementary.get.locates.bind (fun s => hfor s.stream.ahead a)

section

variable (hI : Inner.Locates o I)

include hI

theorem locates_element : Locates o (element I) := by
  intro s hs
  unfold element
  refine locatesAt_look_bind looks_look hs (fun hs => ?_)
  split
  · exact hI.rule .inst (by decide) _ hs
  · rename_i hlook
    exact hI.literal _ hs (atValue_of_nil (Prod.mk.inj hlook).2)
  · rename_i hlook
    split
    · rename_i hkind
      exact hI.literal _ hs (atValue_of_isLiteral (Prod.mk.inj hlook).1 hkind)
    · exact locatesAt_failFound (fun _ => ⟨rfl, by decide⟩) hs
  · exact locatesAt_failFound (fun _ => ⟨rfl, by decide⟩) hs

theorem locates_elements (array : NodeId) : Locates o (elements I array) := by
  unfold elements
  refine (locates_element hI).bind (fun first => ?_)
  refine (Elementary.attach array first).locates.bind (fun _ => ?_)
  refine Locates.repeatWhile (looks_atKind _) (fun _ => ?_) ()
  refine Elementary.take.locates.bind (fun _ => ?_)
  exact (locates_element hI).bind (fun element => (Elementary.attach array element).locates)

theorem locates_primary : Locates o (primary I) := by
  intro s hs
  unfold primary
  refine locatesAt_look_bind looks_look hs (fun hs => ?_)
  split
  · exact hI.rule .groupedExpression (by decide) _ hs
  · exact hI.rule .arrayLiteral (by decide) _ hs
  · exact hI.rule .inst (by decide) _ hs
  · rename_i hlook
    exact hI.literal _ hs (atValue_of_nil (Prod.mk.inj hlook).2)
  · exact hI.rule .messageBlock (by decide) _ hs
  · exact hI.rule .inst (by decide) _ hs
  · exact hI.rule .inst (by decide) _ hs
  · rename_i hlook
    split
    · rename_i hkind
      exact hI.literal _ hs (atValue_of_isLiteral (Prod.mk.inj hlook).1 hkind)
    · exact locatesAt_failFound (fun _ => ⟨rfl, by decide⟩) hs
  · exact locatesAt_failFound (fun _ => ⟨rfl, by decide⟩) hs

theorem locates_expression : Locates o (expression I) := by
  unfold expression
  refine (Elementary.look (looks_atKeyword _)).locates.bind (fun returns => ?_)
  split
  · exact hI.rule .returnExpression (by decide)
  · refine (locates_primary hI).bind (fun value => ?_)
    refine (Elementary.look looks_startsMessage).locates.bind (fun sends => ?_)
    split
    · exact hI.rule (.sendMessage value) (show Construct.sendMessage ≠ .literal by decide)
    · exact (Elementary.pure _).locates

end

/-! ## Arrays -/

section

open Syntax

/-- Every token of every run of the form is one of `P`. -/
def Every (P : Token → Prop) (f : Form Symbol) : Prop :=
  ∀ w, Spells f w → ∀ t ∈ w, P t

variable {P : Token → Prop} {f g : Form Symbol} {d : Terminal} {k : Symbol}

theorem every_token (h : ∀ t, d.Matches t → P t) : Every P (.token d) := by
  intro w hw t ht
  obtain ⟨u, hu, rfl⟩ := derives_token.1 hw
  rw [List.mem_singleton.1 ht]
  exact h u hu

theorem Every.seq (hf : Every P f) (hg : Every P g) : Every P (.seq f g) := by
  intro w hw t ht
  obtain ⟨u, v, hu, hv, rfl⟩ := derives_seq.1 hw
  exact (List.mem_append.1 ht).elim (hf u hu t) (hg v hv t)

theorem Every.alt (hf : Every P f) (hg : Every P g) : Every P (.alt f g) :=
  fun w hw => (derives_alt.1 hw).elim (hf w) (hg w)

theorem Every.star (hf : Every P f) : Every P (.star f) := by
  intro w hw t ht
  obtain ⟨ws, hws, rfl⟩ := derives_star.1 hw
  obtain ⟨u, hu, htu⟩ := List.mem_flatten.1 ht
  exact hf u (hws u hu) t htu

theorem Every.symbol (h : Every P (production k)) : Every P (.symbol k) :=
  fun w hw => h w (spells_symbol.1 hw)

/-- The elements of an array are written without brackets. -/
theorem every_elements : Every (fun t => t.kind.isBracket = false) (.commaList (.symbol .element)) := by
  have hkind : ∀ k : TokenKind, k.isBracket = false → Every (fun t => t.kind.isBracket = false) (.kind k) :=
    fun k hk => every_token (fun t ht => (show t.kind = k from ht) ▸ hk)
  have hnil : Every (fun t => t.kind.isBracket = false) (.word .nil) :=
    every_token (fun t ht => (Token.kind_of_keyword? ht) ▸ rfl)
  have hliteral : Every (fun t => t.kind.isBracket = false) (.symbol .literal) :=
    .symbol (.alt (hkind _ rfl) (.alt (hkind _ rfl) (.alt (hkind _ rfl) (.alt (hkind _ rfl) (.alt (hkind _ rfl) (hkind _ rfl))))))
  have hname : Every (fun t => t.kind.isBracket = false) (.symbol .typeName) :=
    .symbol (.seq (hkind _ rfl) (.star (.seq (hkind _ rfl) (hkind _ rfl))))
  have helement : Every (fun t => t.kind.isBracket = false) (.symbol .element) := .symbol (.alt hliteral (.alt hnil hname))
  exact .seq helement (.star (.seq (hkind _ rfl) helement))

end

/-- Comments are no brackets. -/
theorem isBracket_of_significant {ts : List Token} (h : ∀ t ∈ significant ts, t.kind.isBracket = false) :
    ∀ t ∈ ts, t.kind.isBracket = false := by
  intro t ht
  cases hc : t.isComment with
  | false => exact h t (List.mem_filter.2 ⟨ht, by simp [hc]⟩)
  | true =>
    unfold Token.isComment at hc
    cases hk : t.kind <;> simp [hk, TokenKind.isComment] at hc <;> rfl

/-- The stream was reached from `o`, and no bracket was passed. -/
def ReachedInside (o : Stream) (s : ParserState) : Prop :=
  ∃ ts, o.Passed ts s.stream ∧ ∀ t ∈ ts, t.kind.isBracket = false

theorem ReachedInside.trans {t : ParserState} (h : ReachedInside o s) (h' : ReachedInside s.stream t) : ReachedInside o t := by
  obtain ⟨ts, hts, hbracket⟩ := h
  obtain ⟨us, hus, hbracket'⟩ := h'
  exact ⟨ts ++ us, hts.trans hus, fun t ht => (List.mem_append.1 ht).elim (hbracket t) (hbracket' t)⟩

/-- The tokens passed that are no comments tell whether a bracket was passed. -/
theorem reachedInside_of_significant {t : ParserState} {ts w : List Token} (h : s.stream.Passed ts t.stream)
    (hsig : s.significant = w ++ t.significant) (hw : ∀ t ∈ w, t.kind.isBracket = false) : ReachedInside s.stream t := by
  have hcut : significant ts ++ t.significant = w ++ t.significant := by
    rw [← hsig, ParserState.significant, ParserState.significant, ← significant_append, h.ahead]
  refine ⟨ts, h, isBracket_of_significant ?_⟩
  rw [List.append_cancel_right hcut]
  exact hw

theorem ReachedInside.saved_eq (h : ReachedInside o s) : s.stream.saved = none := by
  obtain ⟨ts, hts, -⟩ := h
  exact hts.saved_eq

theorem ReachedInside.settle (h : ReachedInside o s) : ReachedInside o s.settle := by
  obtain ⟨ts, hts⟩ := passed_settle (.refl h.saved_eq)
  have hnone : ReachedInside s.stream s.settle :=
    reachedInside_of_significant hts (w := []) (by rw [significant_settle, List.nil_append]) (fun _ ht => nomatch ht)
  exact h.trans hnone

/-- The elements of an array are passed without a bracket. -/
theorem reachedInside_elements (hI : ∀ o, Inner.Locates o I) (hsound : Syntax.Sound I) {array : NodeId} {u : ParserState}
    (hsaved : s.stream.saved = none) (h : elements I array s = .ok () u) : ReachedInside s.stream u := by
  obtain ⟨ts, hts⟩ := (locates_elements (hI s.stream) array s ⟨[], .refl hsaved⟩).ok h
  obtain ⟨-, -, w, hw, hsig⟩ := (Syntax.reads_elements s.significant hsound array s hsaved rfl).ok h
  exact reachedInside_of_significant hts hsig (every_elements w hw)

/-- Behind the elements of an array its bracket is closed. If it is not, it is the last one that was taken, and it is blamed. -/
theorem locatesAt_close {t : Token} {before ts : List Token} {u : ParserState} (hs : o.Passed ts s.stream)
    (hbehind : s.stream.cursor.behind = t :: before) (ht : t.kind = .leftBracket) (hu : ReachedInside s.stream u) (array : NodeId) :
    LocatesAt o (do
      if ← atKind .rightBracket then
        let _ ← take
        return array
      else failAt t.location .unterminatedArray) u := by
  have hsettle := hu.settle
  obtain ⟨us, hus, -⟩ := hu
  refine locatesAt_look_bind (looks_atKind _) ⟨ts ++ us, hs.trans hus⟩ (fun hreached => ?_)
  split
  · exact (Elementary.take.locates.bind (fun _ => (Elementary.pure array).locates)) _ hreached
  · obtain ⟨vs, hvs, hinside⟩ := hsettle
    refine (yields_of_eq_error (m := failAt t.location .unterminatedArray) rfl).2 ⟨hreached, ?_⟩
    refine ⟨vs.reverse, t, before, ?_, ht, rfl, fun v hv => hinside v (List.mem_reverse.1 hv)⟩
    rw [hvs.behind, hbehind]

/-- An array that is not closed is blamed on its bracket. -/
theorem locates_arrayLiteral (hI : ∀ o, Inner.Locates o I) (hsound : Syntax.Sound I) : Locates o (Grammar.arrayLiteral I) := by
  intro s hs
  obtain ⟨ts, hts⟩ := hs
  unfold Grammar.arrayLiteral
  refine yields_bind.2 ((yields_of_eq_ok (location_eq_here s)).2 ?_)
  have hassembled : Assembled I I .unit false true (expect .leftBracket "'['") (expect .leftBracket "'['") :=
    assembled_expect (by decide)
  have hexpect : Locates o (expect .leftBracket "'['") := hassembled.locates (hI o) (by decide) (by decide) (by decide)
  refine locatesAt_bind (hexpect _ (passed_settle hts)) (fun t u hu hreached => ?_)
  have hbracket := kind_of_expect hu
  obtain ⟨v, hsig, rfl⟩ := exists_of_expect hu
  rw [significant_settle] at hsig
  rw [taken_settle] at hreached ⊢
  obtain ⟨rest, -, -, htaken⟩ := taken_eq hsig
  have hbehind : s.taken.stream.cursor.behind = t :: s.settle.stream.cursor.behind := by rw [htaken]; rfl
  have hhere : s.here = t.location := by rw [here_eq, hsig]; rfl
  have hsaved : s.taken.stream.saved = none := by rw [saved_taken]; exact hts.saved_eq
  obtain ⟨us, hus⟩ := hreached
  rw [hhere]
  have hmade : openNode .arrayLiteral t.location s.taken = .ok (s.taken.openNode .arrayLiteral t.location).1
      (s.taken.openNode .arrayLiteral t.location).2 := rfl
  refine yields_bind.2 ((yields_of_eq_ok hmade).2 ?_)
  have hopen : ReachedInside s.taken.stream (s.taken.openNode .arrayLiteral t.location).2 :=
    ⟨[], by rw [stream_openNode]; exact .refl hsaved, fun _ ht => nomatch ht⟩
  generalize (s.taken.openNode .arrayLiteral t.location).2 = u at hopen ⊢
  have hsettle := hopen.settle
  obtain ⟨ws, hws, -⟩ := hopen
  refine locatesAt_look_bind (looks_atKind _) ⟨us ++ ws, hus.trans hws⟩ (fun hreached => ?_)
  dsimp only
  split
  · refine locatesAt_bind (locates_elements (hI o) _ _ hreached) (fun _ x hx _ => locatesAt_close hus hbehind hbracket ?_ _)
    exact hsettle.trans (reachedInside_elements hI hsound hsettle.saved_eq hx)
  · exact locatesAt_close hus hbehind hbracket hsettle _

/-! ## Every rule -/

theorem locates_parse (room : Nat) (o : Stream) : Inner.Locates o ⟨fun r => Rule.parse room r⟩ := by
  induction room generalizing o with
  | zero => exact ⟨fun _ _ _ hs => locatesAt_fail (fun _ => trivial) hs, fun _ hs _ => locatesAt_fail (fun _ => trivial) hs⟩
  | succ room ih =>
    refine ⟨fun {α} r hr s hs => locatesAt_guarded ?_, fun s hs hvalue => locatesAt_guarded ?_⟩
    · cases r with
      | literal => exact absurd rfl hr
      | expression => exact locates_expression (ih o) _ hs
      | arrayLiteral => exact locates_arrayLiteral ih (Syntax.sound_parse room) _ hs
      | sendMessage receiver =>
        exact (assembled_sendMessage (J := ⟨fun r => Rule.parse room r⟩) receiver).locates (ih o) (by decide) (by decide)
          (by decide) _ hs
      | _ => exact (assembled_body (J := ⟨fun r => Rule.parse room r⟩) _).locates (ih o) (by decide) (by decide) (by decide) _ hs
    · exact locatesAt_literal hs hvalue

end Parser

end Courier
