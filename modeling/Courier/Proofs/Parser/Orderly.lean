import Courier.Proofs.Parser.Assembly

/-!
# The parser stays in order

A parser has faults for a misuse of its own stream and for a chain of constructs that is not as it should be. None of them occurs: from a
state without a mark, a success leaves no mark and the chain of constructs as it was, and a failure is a fault of the text (`Orderly`). All
that a production is made of is orderly, so every production is. A fault inside a run is the fault of the run (`Comes.error`); so where a
parse comes to save or to restore a mark, to move on, or to leave a production, it can (`Stream.inOrder_of_parse`).
-/

namespace Courier

/-- A text that begins with another letter begins with neither wording of a fault of the parser's own. -/
theorem ParseFault.not_opens {first rest : String} (h : first.toList.head?.any (fun c => c != 't' && c != 'p') = true) :
    ¬"token stream: ".toList <+: (first ++ rest).toList ∧ ¬"parser state corrupted".toList <+: (first ++ rest).toList := by
  have htoken : "token stream: ".toList = 't' :: "oken stream: ".toList := by decide
  have hparser : "parser state corrupted".toList = 'p' :: "arser state corrupted".toList := by decide
  cases hfirst : first.toList with
  | nil => simp [hfirst] at h
  | cons c cs =>
    obtain ⟨ht, hp⟩ : c ≠ 't' ∧ c ≠ 'p' := by simpa [hfirst] using h
    rw [String.toList_append, hfirst, htoken, hparser, List.cons_append]
    exact ⟨fun hopens => ht (List.cons_prefix_cons.1 hopens).1.symm, fun hopens => hp (List.cons_prefix_cons.1 hopens).1.symm⟩

/-- The wording of a fault of the text begins as none of the parser's own does. -/
theorem ParseFault.message_of_not_internal {fault : ParseFault} (h : ¬fault.IsInternal) :
    ¬"token stream: ".toList <+: fault.message.toList ∧ ¬"parser state corrupted".toList <+: fault.message.toList := by
  cases fault with
  | expected what found =>
    have hmessage : (expected what found).message = "expected " ++ what ++ ", found " ++ foundText found := rfl
    rw [hmessage, String.append_assoc, String.append_assoc]
    exact not_opens (by decide)
  | unclosedReturnType found =>
    have hmessage : (unclosedReturnType found).message = "missing ']' to close the return type, found " ++ foundText found := rfl
    rw [hmessage]
    exact not_opens (by decide)
  | trailing found =>
    have hmessage : (trailing found).message = "unexpected " ++ foundText found ++ " after the end of the compilation unit" := rfl
    rw [hmessage, String.append_assoc]
    exact not_opens (by decide)
  | notAValue text =>
    have hmessage : (notAValue text).message = "'" ++ text ++ "' cannot be used as a value" := rfl
    rw [hmessage, String.append_assoc]
    exact not_opens (by decide)
  | cursor cause => exact absurd trivial h
  | unbalanced c => exact absurd trivial h
  | _ => decide

namespace Parser

variable {I J : Inner} {c : Construct} {moved moves : Bool} {α β : Type} {m n : Parser α} {f : α → Parser β}

/-! ## Orderly parsers -/

/-- From a state without a mark, a success leaves no mark and the chain of constructs as it was, and a failure is a fault of the text. -/
def Orderly (m : Parser α) : Prop :=
  ∀ s : ParserState, s.stream.saved = none →
    Yields m s (fun _ t => t.stream.saved = none ∧ t.constructs = s.constructs) (fun e _ => ¬e.fault.IsInternal)

/-- From a state without a mark, a success leaves no mark and the chain of constructs as it was, and a failure tells what is next in the
stream that it leaves, if it tells what was found. -/
def Truthful (m : Parser α) : Prop :=
  ∀ s : ParserState, s.stream.saved = none →
    Yields m s (fun _ t => t.stream.saved = none ∧ t.constructs = s.constructs)
      (fun e t => e.fault.OfText (t.stream.significant?.map Token.text))

theorem Truthful.orderly (h : Truthful m) : Orderly m :=
  fun s hs => (h s hs).mono (fun _ _ ht => ht) (fun _ _ he => he.not_internal)

theorem Elementary.truthful (h : Elementary moves m) : Truthful m := by
  intro s hs
  have hok : ∀ {a : α} {t : ParserState}, m s = .ok a t → t.stream.saved = s.stream.saved → t.constructs = s.constructs →
      Yields m s (fun _ t => t.stream.saved = none ∧ t.constructs = s.constructs)
        (fun e t => e.fault.OfText (t.stream.significant?.map Token.text)) :=
    fun hm hsaved hconstructs => (yields_of_eq_ok hm).2 ⟨hsaved.trans hs, hconstructs⟩
  cases h with
  | pure a => exact hok rfl rfl rfl
  | get => exact hok rfl rfl rfl
  | look h => exact hok (h s) s.saved_settle s.constructs_settle
  | take =>
    cases hsig : s.significant with
    | nil =>
      obtain ⟨e, he, hfault, -⟩ := take_eq_error hsig
      exact (yields_of_eq_error he).2 (.inl (by rw [hfault]; trivial))
    | cons t v => exact hok (take_eq hsig) s.saved_taken s.constructs_taken
  | speculate h => exact hok (speculate_eq h hs) rfl rfl
  | openNode p l => exact hok (t := (s.openNode p l).2) rfl (by rw [s.stream_openNode]) (s.constructs_openNode p l)
  | attach parent child => exact hok (a := ()) rfl rfl rfl
  | keepFlags flags => exact hok (a := ()) rfl rfl rfl
  | @fail _ _ cause h => exact (yields_of_eq_error (m := Parser.fail cause) rfl).2 (.inl (h _))
  | @failFound _ _ cause h => exact (yields_of_eq_error (m := Parser.failFound cause) rfl).2 (.inl (h _))

theorem Truthful.bind (hm : Truthful m) (hf : ∀ a, Truthful (f a)) : Truthful (m >>= f) := by
  intro s hs
  refine yields_bind.2 ((hm s hs).mono (fun a t ht => ?_) (fun _ _ he => he))
  exact (hf a t ht.1).mono (fun _ _ hu => ⟨hu.1, hu.2.trans ht.2⟩) (fun _ _ he => he)

/-- What is put together from truthful productions is truthful. -/
theorem Assembled.truthful (h : Assembled I J c moved moves m n) (hI : ∀ {α : Type} (r : Rule α), Truthful (I.parse r)) :
    Truthful m := by
  induction h with
  | elementary h => exact h.truthful
  | blame _ l fault hfault => exact fun s _ => (yields_of_eq_error (m := failAt l fault) rfl).2 (.inr hfault)
  | call r _ => exact hI r
  | seq _ _ ih ihf => exact ih.bind ihf
  | after _ _ ih ihf => exact ih.bind ihf
  | loose _ ih => exact ih

/-- The guard finds the chain of an orderly body as it should be, and leaves the stream where a failure left it. -/
theorem Truthful.guarded (h : Truthful m) : Truthful (guarded c m) :=
  fun s hs => yields_guarded ((h (s.enter c) hs).mono (fun _ _ ht => ⟨ht.2, ht.1, rfl⟩) (fun _ _ he => he))

theorem truthful_parse (room : Nat) (r : Rule α) : Truthful (Rule.parse room r) := by
  induction room generalizing α with
  | zero => exact fun s _ => (yields_of_eq_error (m := fail .nestedTooDeeply) rfl).2 (.inl trivial)
  | succ room ih => exact ((assembled_body (J := ⟨fun r => Rule.parse room r⟩) r).truthful (fun r => ih r)).guarded

theorem orderly_parse (room : Nat) (r : Rule α) : Orderly (Rule.parse room r) :=
  (truthful_parse room r).orderly

/-! ## Runs inside a run -/

/-- The run of a parser from a state comes to a run of `n` from `u`: it is that run itself, or it comes to it in the first of two parsers in
sequence, in the second once the first has succeeded, or in the body of a production. -/
inductive Comes (n : Parser β) (u : ParserState) : {α : Type} → Parser α → ParserState → Prop
  | here : Comes n u n u
  | first {α γ : Type} {m : Parser α} {f : α → Parser γ} {s : ParserState} (h : Comes n u m s) : Comes n u (m >>= f) s
  | second {α γ : Type} {m : Parser α} {f : α → Parser γ} {s t : ParserState} {a : α} (hm : m s = .ok a t)
    (h : Comes n u (f a) t) : Comes n u (m >>= f) s
  | inside {α : Type} {c : Construct} {m : Parser α} {s : ParserState} (h : Comes n u m (s.enter c)) : Comes n u (guarded c m) s

/-- A fault inside a run is the fault of the run. -/
theorem Comes.error {n : Parser β} {u u' : ParserState} {s : ParserState} {e : ParseError} (h : Comes n u m s)
    (hn : n u = .error e u') : ∃ e' t, m s = .error e' t ∧ e'.fault = e.fault := by
  induction h with
  | here => exact ⟨e, u', hn, rfl⟩
  | first _ ih =>
    obtain ⟨e', t, hm, hfault⟩ := ih
    exact ⟨e', t, by simp only [Bind.bind, EStateM.bind, hm], hfault⟩
  | second hm _ ih =>
    obtain ⟨e', t, hf, hfault⟩ := ih
    exact ⟨e', t, by simp only [Bind.bind, EStateM.bind, hm, hf], hfault⟩
  | inside _ ih =>
    obtain ⟨e', t, hm, hfault⟩ := ih
    exact ⟨_, _, guarded_eq_abandon hm, hfault⟩

/-- What an orderly run comes to, from a state without a mark, is at no fault of the parser's own. -/
theorem Orderly.not_internal {n : Parser β} {s u u' : ParserState} {e : ParseError} (hm : Orderly m) (hs : s.stream.saved = none)
    (h : Comes n u m s) (hn : n u = .error e u') : ¬e.fault.IsInternal := by
  obtain ⟨e', t, he, hfault⟩ := h.error hn
  rw [← hfault]
  exact (hm s hs).error he

/-- Where an orderly run comes to move the cursor, the cursor moves. -/
theorem Orderly.exists_move {g : Stream → Except CursorError Stream} {s u : ParserState} (hm : Orderly m) (hs : s.stream.saved = none)
    (h : Comes (move g) u m s) : ∃ stream, g u.stream = .ok stream := by
  cases hg : g u.stream with
  | ok stream => exact ⟨stream, rfl⟩
  | error cause =>
    have hmove : move g u = .error (u.errorAt u.here (.cursor cause)) u := by
      unfold move
      rw [hg]
    exact absurd trivial (hm.not_internal hs h hmove)

/-- Where an orderly run comes to a production whose body succeeds, the body leaves the chain of its beginning with its own construct. -/
theorem Orderly.balanced {body : Parser β} {s u t : ParserState} {b : β} (hm : Orderly m) (hs : s.stream.saved = none)
    (h : Comes (Parser.guarded c body) u m s) (hbody : body (u.enter c) = .ok b t) : t.constructs = c :: u.constructs := by
  by_cases hchain : t.constructs = c :: u.constructs
  · exact hchain
  · have hguarded : ∃ e v, Parser.guarded c body u = .error e v ∧ e.fault = .unbalanced c := by
      unfold Parser.guarded
      simp only [hbody, ParserState.checkpoint, hchain, if_false]
      exact ⟨_, _, rfl, rfl⟩
    obtain ⟨e, v, he, hfault⟩ := hguarded
    have hno := hm.not_internal hs h he
    rw [hfault] at hno
    exact absurd trivial hno

/-! ## Lookahead is reached -/

section

open Grammar ParserState

variable {s : ParserState} {b t : Token} {v : List Token}

/-- A loop that goes on comes to what its first round comes to. -/
theorem Comes.repeatWhile {more : Parser Bool} {step : α → Parser α} {a : α} {s' u : ParserState} {n : Parser β}
    (hmore : more s = .ok true s') (h : Comes n u (step a) s') : Comes n u (repeatWhile more step a) s := by
  refine .second (m := get) (a := s) (t := s) rfl ?_
  cases s.stream.ahead with
  | nil => exact .second hmore h
  | cons _ _ => exact .second hmore (.first h)

/-- A statement that begins with a name first looks for a variable definition. -/
theorem comes_statement (hs : s.significant = t :: v) (ht : t.kind = .identifier) :
    Comes (move Stream.mark) s.settle.settle (Grammar.statement I) s := by
  have hkeyword : t.keyword? = none := Token.keyword?_eq_none (by rw [ht]; decide)
  refine .second (looks_look s) ?_
  simp only [hs, List.head?_cons, Option.map_some, Option.bind_some, ht, hkeyword]
  refine .second (looks_atKind .identifier s.settle) ?_
  simp only [significant_settle, hs, List.head?_cons, Option.map_some, ht]
  exact .first (.first (.first .here))

theorem exists_comes_statements (hI : ∀ s : ParserState, s.significant = t :: v →
    ∃ u, Comes (move Stream.mark) u (I.parse .statement) s) (hs : s.significant = t :: v) (ht : t.kind = .identifier) :
    ∃ u, Comes (move Stream.mark) u (Grammar.statements I) s := by
  obtain ⟨l, hl⟩ := location_eq s
  have hopened : (s.settle.openNode .statementsBlock l).2.significant = t :: v := by
    rw [significant_openNode, significant_settle, hs]
  have hgoes := looks_inBlock (s.settle.openNode .statementsBlock l).2
  simp only [hopened, List.head?_cons, Option.map_some, ht] at hgoes
  obtain ⟨u, hu⟩ := hI (s.settle.openNode .statementsBlock l).2.settle (by rw [significant_settle, hopened])
  exact ⟨u, .second hl (.second (m := openNode .statementsBlock l) rfl (.first (Comes.repeatWhile hgoes (.first hu))))⟩

theorem exists_comes_codeFragment (hI : ∀ s : ParserState, s.significant = t :: v →
    ∃ u, Comes (move Stream.mark) u (I.parse .statements) s) (hs : s.significant = b :: t :: v)
    (hb : b.kind = .leftBrace) (ht : t.kind = .identifier) : ∃ u, Comes (move Stream.mark) u (Grammar.codeFragment I) s := by
  obtain ⟨l, hl⟩ := location_eq s
  have hopened : (s.settle.settle.openNode .codeFragmentBlock l).2.significant = b :: t :: v := by
    rw [significant_openNode, significant_settle, significant_settle, hs]
  have htaken := significant_taken hopened
  have hkeyword : t.keyword? = none := Token.keyword?_eq_none (by rw [ht]; decide)
  have hflags := looks_atKind .atSign s.settle
  have hbrace := expect_eq hopened "'\x7b'"
  have hnamespace := looks_atKeyword .namespaceWord (s.settle.settle.openNode .codeFragmentBlock l).2.taken
  simp only [significant_settle, hs, htaken, List.head?_cons, Option.map_some, Option.bind_some, hb, hkeyword] at hflags hbrace hnamespace
  obtain ⟨u, hu⟩ := hI (s.settle.settle.openNode .codeFragmentBlock l).2.taken.settle (by rw [significant_settle, htaken])
  refine ⟨u, .second hl (.second hflags ?_)⟩
  exact .second (m := openNode .codeFragmentBlock l) rfl (.second hbrace (.first (.second hnamespace (.first hu))))

end

end Parser

namespace Stream

open Courier.Parser

/-- The parse of the stream comes to a run of a parser from a state. -/
def Reaches {α : Type} (s : Stream) (trace : Bool) (n : Parser α) (u : ParserState) : Prop :=
  Comes n u (Rule.unit.parse maxNesting) (.initial s trace)

/-- Whatever the parser asks of its own state on its way through the stream is granted. -/
structure InOrder (s : Stream) (trace : Bool) : Prop where
  /-- No failure is worded as one of the parser's own. -/
  message : ∀ e, (s.parse trace).1 = .error e →
    ¬"token stream: ".toList <+: e.message.toList ∧ ¬"parser state corrupted".toList <+: e.message.toList
  /-- Where a cursor is to be saved, the slot is free. -/
  mark : ∀ u, s.Reaches trace (move Stream.mark) u → u.stream.saved = none
  /-- Where a cursor is to be restored, one is saved. -/
  restore : ∀ u, s.Reaches trace (move Stream.restore) u → u.stream.saved ≠ none
  /-- Where the cursor is to move on, a token is ahead. -/
  advance : ∀ u, s.Reaches trace (move Stream.advance) u → u.stream.current? ≠ none
  /-- Wherever a token is ahead, the cursor moves on. -/
  advances : ∀ v : Stream, v.current? ≠ none → ∃ w, v.advance = .ok w
  /-- Where the body of a production succeeds, it leaves the chain that it found, with its own construct. -/
  balanced : ∀ {α : Type} (c : Construct) (body : Parser α) (u t : ParserState) (a : α), s.Reaches trace (guarded c body) u →
    body (u.enter c) = .ok a t → t.constructs = c :: u.constructs

theorem exists_advance {v : Stream} (h : v.current? ≠ none) : ∃ w, v.advance = .ok w := by
  cases hahead : v.ahead with
  | nil => exact absurd (by rw [current?, hahead]; rfl) h
  | cons t rest => exact ⟨_, advance_eq_ok hahead⟩

/-- Every stream is parsed in order, wherever its cursor is and whatever is saved, with constructs told or not. -/
theorem inOrder_of_parse (s : Stream) (trace : Bool) : s.InOrder trace := by
  have horderly : Orderly (Rule.unit.parse maxNesting) := orderly_parse maxNesting .unit
  have hunmarked : (ParserState.initial s trace).stream.saved = none := rfl
  refine ⟨fun e he => ?_, fun u hu => ?_, fun u hu hsaved => ?_, fun u hu hcurrent => ?_, fun v => exists_advance,
    fun c body u t a hu hbody => horderly.balanced hunmarked hu hbody⟩
  · obtain ⟨t, ht⟩ := parse_eq_error.1 he
    exact ParseFault.message_of_not_internal ((horderly _ hunmarked).error ht)
  · obtain ⟨v, hv⟩ := horderly.exists_move hunmarked hu
    unfold Stream.mark at hv
    split at hv
    · nomatch hv
    · assumption
  · obtain ⟨v, hv⟩ := horderly.exists_move hunmarked hu
    unfold Stream.restore at hv
    rw [hsaved] at hv
    nomatch hv
  · obtain ⟨v, hv⟩ := horderly.exists_move hunmarked hu
    have hnil : u.stream.cursor.ahead = [] := List.head?_eq_none_iff.1 hcurrent
    unfold Stream.advance Cursor.advance? at hv
    rw [hnil] at hv
    nomatch hv

/-- A block whose first statement begins with a name is not parsed without saving the cursor. -/
theorem exists_reaches_mark {s : Stream} {b t : Token} {v : List Token} (hs : significant s.tokens = b :: t :: v)
    (hb : b.kind = .leftBrace) (ht : t.kind = .identifier) (trace : Bool) : ∃ u, s.Reaches trace (move Stream.mark) u := by
  have hstatement : ∀ u : ParserState, u.significant = t :: v → ∃ w, Comes (move Stream.mark) w (Rule.parse 253 .statement) u :=
    fun u hu => ⟨_, .inside (comes_statement hu ht)⟩
  have hstatements : ∀ u : ParserState, u.significant = t :: v → ∃ w, Comes (move Stream.mark) w (Rule.parse 254 .statements) u := by
    intro u hu
    obtain ⟨w, hw⟩ := exists_comes_statements (s := u.enter .statements) (I := ⟨fun r => Rule.parse 253 r⟩) hstatement hu ht
    exact ⟨w, .inside hw⟩
  have hlook := looks_look ((ParserState.initial s trace).enter .unit)
  have hinitial : ((ParserState.initial s trace).enter .unit).significant = b :: t :: v := hs
  simp only [hinitial, List.head?_cons, Option.map_some, hb] at hlook
  obtain ⟨w, hw⟩ := exists_comes_codeFragment (s := ((ParserState.initial s trace).enter .unit).settle.enter .codeFragment)
    (I := ⟨fun r => Rule.parse 254 r⟩) hstatements ((ParserState.significant_settle _).trans hinitial) hb ht
  exact ⟨w, .inside (.first (.second hlook (.inside hw)))⟩

theorem inOrder_of_parse_name : ∃ s e u, Stream.tokenize "unit" "\x7b # c\n x" = .ok s ∧ (s.parse false).1 = .error e ∧
    ¬"token stream: ".toList <+: e.message.toList ∧ s.Reaches false (move Stream.mark) u ∧ u.stream.saved = none := by
  obtain ⟨s, e, hs, he, -⟩ := exists_parse_error "unit" "\x7b # c\n x" false (fun _ => true) (by decide +kernel)
  have hsignificant : (Stream.tokenize "unit" "\x7b # c\n x").toOption.map (fun s => significant s.tokens) =
      some [⟨.leftBrace, "\x7b", ⟨1, 1, 0⟩⟩, ⟨.identifier, "x", ⟨2, 2, 7⟩⟩] := by decide +kernel
  rw [hs] at hsignificant
  obtain ⟨u, hu⟩ := exists_reaches_mark (Option.some.inj hsignificant) rfl rfl false
  have hinOrder := inOrder_of_parse s false
  exact ⟨s, e, u, hs, he, (hinOrder.message e he).1, hu, hinOrder.mark u hu⟩

end Stream

end Courier
