import Courier.Proofs.Parser.Located

/-!
# Streams in use

The user of a stream moves its cursor, marks places and parses, in any order (`Stream.Act`). No act changes the tokens or the text, and
a mark is always a place among the tokens (`Stream.Carries`). A parse begins by rewinding, so it does not depend on what was done
before; where it leaves the stream, and where it locates its failure, is known from the parser (`Parser.locates_parse`).
-/

namespace Courier

/-- A cursor stands between the first token and the last. -/
theorem Cursor.position_le (c : Cursor) : c.position ≤ c.toList.length := by
  unfold position toList
  rw [List.length_append, List.length_reverse]
  exact Nat.le_add_right _ _

namespace Stream

/-! ## Acts -/

/-- What a user may do with a stream. -/
inductive Act where
  | advance | retreat | mark | restore | reset
  | parse (trace : Bool)
  deriving DecidableEq, Repr

/-- What an act answers. -/
inductive Answer where
  | done
  | refused (cause : CursorError)
  | parsed (result : Except ParseError Tree)

/-- The answer of a cursor operation. One that is refused leaves the stream as it is. -/
def answer (s : Stream) : Except CursorError Stream → Answer × Stream
  | .ok t => (.done, t)
  | .error cause => (.refused cause, s)

/-- The answer of an act, and the stream after it. -/
def perform (s : Stream) : Act → Answer × Stream
  | .advance => s.answer s.advance
  | .retreat => s.answer s.retreat
  | .mark => s.answer s.mark
  | .restore => s.answer s.restore
  | .reset => (.done, s.reset)
  | .parse trace => (.parsed (s.parse trace).1, (s.parse trace).2)

/-- The stream after some acts. -/
def after (s : Stream) (acts : List Act) : Stream :=
  acts.foldl (fun s act => (s.perform act).2) s

/-! ## What a parse does to its stream -/

/-- A unit that was parsed leaves nothing ahead, not even comments: the parser looked for more. -/
theorem ahead_of_unit {inner : Inner} {s t : ParserState} {root : NodeId} (h : Grammar.unit inner s = .ok root t) :
    t.stream.ahead = [] := by
  unfold Grammar.unit at h
  simp only [Bind.bind, EStateM.bind] at h
  cases hblock : Grammar.unitBlock inner s with
  | error e u =>
    rw [hblock] at h
    nomatch h
  | ok block u =>
    simp only [hblock, Parser.looks_current? u, id] at h
    cases hnext : u.significant.head? with
    | some t =>
      rw [hnext] at h
      nomatch h
    | none =>
      rw [hnext] at h
      obtain ⟨-, rfl⟩ := EStateM.Result.ok.inj h
      rw [← List.head?_eq_none_iff, ParserState.head?_ahead_settle, hnext]

variable {s t : Stream} {trace : Bool}

/-- A parse moves the cursor of the rewound stream over some tokens. After a success nothing is ahead, and a failure is located by the
stream that is left. -/
theorem parse_lands (s : Stream) (trace : Bool) : (∃ ts, s.reset.Passed ts (s.parse trace).2) ∧
    match s.parse trace with
    | (.ok _, rest) => rest.ahead = []
    | (.error e, rest) => e.LocatedIn rest := by
  have hstart : Parser.ReachedFrom s.reset (.initial s trace) := ⟨[], .refl rfl⟩
  have hlands := (Parser.locates_parse maxNesting s.reset).rule .unit (by decide) (.initial s trace) hstart
  rw [Parser.parse_eq_report]
  cases hunit : Rule.unit.parse maxNesting (.initial s trace) with
  | ok root t =>
    obtain ⟨u, hbody, hu⟩ := Parser.exists_of_guarded hunit
    have hahead : u.stream.ahead = [] := ahead_of_unit hbody
    exact ⟨hlands.ok hunit, by rw [hu]; exact hahead⟩
  | error e t =>
    exact hlands.error hunit

/-! ## What acts keep -/

/-- The stream is one of a file, a text and some tokens, and so is the place that it has saved. -/
structure Carries (file source : String) (ts : List Token) (s : Stream) : Prop where
  file : s.file = file
  source : s.source = source
  tokens : s.tokens = ts
  saved : ∀ c ∈ s.saved, c.toList = ts

variable {file source : String} {ts : List Token}

theorem carries_ofTokens : Carries file source ts (ofTokens file source ts) :=
  ⟨rfl, rfl, rfl, fun _ hc => nomatch hc⟩

/-- A rewound stream is a fresh one. -/
theorem Carries.reset_eq (h : Carries file source ts s) : s.reset = ofTokens file source ts := by
  unfold reset ofTokens Cursor.rewind
  rw [← h.file, ← h.source, ← h.tokens]
  rfl

/-- A parse does not depend on where the cursor and the mark are. -/
theorem Carries.parse_eq (h : Carries file source ts s) (trace : Bool) : s.parse trace = (ofTokens file source ts).parse trace := by
  have hinitial : ParserState.initial s trace = .initial (ofTokens file source ts) trace := by
    unfold ParserState.initial
    rw [h.reset_eq, carries_ofTokens.reset_eq, h.file]
    rfl
  rw [Parser.parse_eq_report, Parser.parse_eq_report, hinitial]

theorem Carries.moveTo (h : Carries file source ts s) {c : Cursor} (hc : c.toList = ts) : Carries file source ts (s.moveTo c) :=
  ⟨h.file, h.source, hc, h.saved⟩

theorem Carries.answer (h : Carries file source ts s) {r : Except CursorError Stream}
    (hr : ∀ t, r = .ok t → Carries file source ts t) : Carries file source ts (s.answer r).2 := by
  cases r with
  | ok t => exact hr t rfl
  | error cause => exact h

theorem Carries.perform (h : Carries file source ts s) (act : Act) : Carries file source ts (s.perform act).2 := by
  cases act with
  | advance =>
    refine h.answer (fun t ht => ?_)
    have htokens := tokens_advance ht
    unfold advance at ht
    split at ht
    · obtain rfl := Except.ok.inj ht
      exact h.moveTo (htokens.trans h.tokens)
    · nomatch ht
  | retreat =>
    refine h.answer (fun t ht => ?_)
    have htokens := tokens_retreat ht
    unfold retreat at ht
    split at ht
    · obtain rfl := Except.ok.inj ht
      exact h.moveTo (htokens.trans h.tokens)
    · nomatch ht
  | mark =>
    refine h.answer (fun t ht => ?_)
    unfold mark at ht
    split at ht
    · nomatch ht
    · obtain rfl := Except.ok.inj ht
      exact ⟨h.file, h.source, h.tokens, fun c hc => (Option.some.inj hc) ▸ h.tokens⟩
  | restore =>
    refine h.answer (fun t ht => ?_)
    unfold restore at ht
    split at ht
    · rename_i c hc
      obtain rfl := Except.ok.inj ht
      exact ⟨h.file, h.source, h.saved c hc, fun _ hc => nomatch hc⟩
    · nomatch ht
  | reset => exact ⟨h.file, h.source, h.tokens, fun _ hc => nomatch hc⟩
  | parse trace =>
    obtain ⟨⟨us, hus⟩, -⟩ := parse_lands s trace
    refine ⟨hus.file_eq.trans h.file, hus.source_eq.trans h.source, hus.tokens_eq.trans h.tokens, fun c hc => ?_⟩
    have hsaved : (s.parse trace).2.saved = none := hus.saved_eq
    rw [Stream.perform, hsaved] at hc
    nomatch hc

theorem Carries.after (h : Carries file source ts s) (acts : List Act) : Carries file source ts (s.after acts) := by
  induction acts generalizing s with
  | nil => exact h
  | cons act acts ih => exact ih (h.perform act)

/-- An act that is refused changes nothing. -/
theorem perform_of_refused {act : Act} {cause : CursorError} (h : (s.perform act).1 = .refused cause) :
    (s.perform act).2 = s := by
  have hanswer : ∀ r : Except CursorError Stream, (s.answer r).1 = .refused cause → (s.answer r).2 = s := by
    intro r hr
    cases r with
    | ok t => nomatch hr
    | error e => rfl
  cases act with
  | advance => exact hanswer _ h
  | retreat => exact hanswer _ h
  | mark => exact hanswer _ h
  | restore => exact hanswer _ h
  | reset => nomatch h
  | parse trace => nomatch h

/-- A stream can be parsed at any time. Whatever was done with a fresh stream, its tokens and its text are as they were, its cursor and
its mark stand among the tokens, and an act that is refused changes nothing; a parse gives what it gives of the fresh stream, with no
mark saved, and it passes all tokens or locates its failure by the cursor that it leaves. -/
theorem parse_after (file source : String) (ts : List Token) (acts : List Act) (trace : Bool) :
    let fresh := ofTokens file source ts
    let s := fresh.after acts
    s.tokens = ts ∧ s.file = file ∧ s.source = source ∧ s.newlines = fresh.newlines ∧ s.position ≤ ts.length ∧
      (∀ c ∈ s.saved, c.toList = ts ∧ c.position ≤ ts.length) ∧
      (∀ act cause, (s.perform act).1 = .refused cause → (s.perform act).2 = s) ∧
      s.parse trace = fresh.parse trace ∧ (s.parse trace).2.saved = none ∧
      match s.parse trace with
      | (.ok _, rest) => rest.position = ts.length
      | (.error e, rest) => e.LocatedIn rest := by
  intro fresh s
  have hs : Carries file source ts s := carries_ofTokens.after acts
  obtain ⟨⟨us, hus⟩, hend⟩ := parse_lands s trace
  have hrest : (s.parse trace).2.tokens = ts := hus.tokens_eq.trans hs.tokens
  refine ⟨hs.tokens, hs.file, hs.source, ?_, ?_, fun c hc => ⟨hs.saved c hc, ?_⟩, fun act cause h => perform_of_refused h,
    hs.parse_eq trace, hus.saved_eq, ?_⟩
  · unfold newlines
    rw [hs.source]
    rfl
  · rw [← hs.tokens]
    exact s.cursor.position_le
  · rw [← hs.saved c hc]
    exact c.position_le
  · generalize s.parse trace = result at hend hrest
    obtain ⟨result, rest⟩ := result
    cases result with
    | error e => exact hend
    | ok tree =>
      have hall : rest.cursor.behind.reverse ++ rest.cursor.ahead = ts := hrest
      have hahead : rest.cursor.ahead = [] := hend
      show rest.cursor.behind.length = ts.length
      rw [← hall, hahead, List.append_nil, List.length_reverse]

end Stream

end Courier
