import Courier.Grammar.Lookahead
import Courier.Proofs.Parser.Operation

/-!
# What lookahead answers

A scan is a test of the tokens ahead that are no comments: `Scan.Passes` says which tokens it leaves when it finds what it looks
for. A parser that speculates answers by that test alone and leaves its state as it was, provided no mark is saved
(`speculate_eq`).
-/

namespace Courier

namespace Scan

/-! ## The tests -/

/-- The tokens behind a run of tokens of the given kinds, if the tokens begin with one. -/
def behindKinds : List TokenKind → List Token → Option (List Token)
  | [], v => some v
  | _ :: _, [] => none
  | k :: ks, t :: v => if t.kind = k then behindKinds ks v else none

/-- The tokens behind the dots and names that go on with a dotted name; a dot without a name is none. -/
def behindDots : List Token → Option (List Token)
  | [] => some []
  | [t] => if t.kind = .dot then none else some [t]
  | t :: u :: v =>
    if t.kind = .dot then
      if u.kind = .identifier then behindDots v else none
    else some (t :: u :: v)

/-- The tokens behind a dotted name, if the tokens begin with one. -/
def behindName (v : List Token) : Option (List Token) :=
  (behindKinds [.identifier] v).bind behindDots

/-- The tokens behind a variable definition and its semicolon, if the tokens begin with them. -/
def behindDefinition (v : List Token) : Option (List Token) :=
  (behindKinds [.identifier, .colon] v).bind (fun v => (behindName v).bind (behindKinds [.endOfStatement]))

/-- The tokens behind a dotted name and the assignment operator, if the tokens begin with them. -/
def behindTarget (v : List Token) : Option (List Token) :=
  (behindName v).bind (behindKinds [.assignment])

/-! ## Scans are tests -/

/-- The scan finds what it looks for exactly where `f` is defined on the tokens ahead that are no comments, and then leaves the
tokens that `f` gives. It changes nothing but the cursor. -/
def Passes (m : Scan) (f : List Token → Option (List Token)) : Prop :=
  ∀ s : Stream, ∃ c : Cursor, m.run s = ((f (significant s.ahead)).isSome, s.moveTo c) ∧
    ∀ v, f (significant s.ahead) = some v → significant c.ahead = v

theorem skipComments_eq (ts : List Token) (s : Stream) (h : s.ahead = ts) :
    ∃ c, skipComments s ts = s.moveTo c ∧ c.ahead = ts.dropWhile Token.isComment := by
  induction ts generalizing s with
  | nil => exact ⟨s.cursor, rfl, h⟩
  | cons t rest ih =>
    cases hc : t.isComment with
    | false =>
      refine ⟨s.cursor, ?_, ?_⟩
      · rw [skipComments, if_neg (by simp [hc])]
        rfl
      · rw [List.dropWhile_cons_of_neg (by simp [hc])]
        exact h
    | true =>
      obtain ⟨c, hskip, hcs⟩ := ih (s.moveTo ⟨t :: s.cursor.behind, rest⟩) rfl
      refine ⟨c, ?_, ?_⟩
      · rw [skipComments, if_pos hc, Stream.advance_eq_ok h]
        exact hskip
      · rw [List.dropWhile_cons_of_pos hc]
        exact hcs

/-- A scan sees the kind of the next token that is no comment, and stands before it from then on. -/
theorem kind?_run (s : Stream) :
    ∃ c, kind?.run s = ((significant s.ahead).head?.map Token.kind, s.moveTo c) ∧
      c.ahead = s.ahead.dropWhile Token.isComment := by
  obtain ⟨c, hskip, hc⟩ := skipComments_eq _ s rfl
  have hrun : kind?.run s = ((skipComments s s.ahead).current?.map Token.kind, skipComments s s.ahead) := rfl
  have hhead : (s.moveTo c).current? = (significant s.ahead).head? := by
    have h : (s.moveTo c).current? = c.ahead.head? := rfl
    rw [h, hc, head?_dropWhile_isComment]
  exact ⟨c, by rw [hrun, hskip, hhead], hc⟩

theorem run_bind_eq {α β : Type} {m : StateM Stream α} {f : α → StateM Stream β} {s t : Stream} {a : α}
    (h : m.run s = (a, t)) : (m >>= f).run s = (f a).run t := by
  rw [StateT.run_bind, h]
  rfl

/-- A scan that goes on only if another one found what it looks for. -/
theorem Passes.andThen {m n : Scan} {f g : List Token → Option (List Token)} (hm : Passes m f) (hn : Passes n g) :
    Passes (do if ← m then n else return false) (fun v => (f v).bind g) := by
  intro s
  obtain ⟨c, hrun, hc⟩ := hm s
  cases hf : f (significant s.ahead) with
  | none =>
    refine ⟨c, ?_, by simp [hf]⟩
    rw [run_bind_eq hrun]
    simp only [hf, Option.isSome_none, Bool.false_eq_true, if_false, Option.bind_none]
    rfl
  | some v =>
    obtain ⟨d, hrun', hd⟩ := hn (s.moveTo c)
    have hv : significant (s.moveTo c).ahead = v := hc v hf
    rw [hv] at hrun' hd
    refine ⟨d, ?_, fun w hw => hd w (by simpa [hf] using hw)⟩
    rw [run_bind_eq hrun]
    simp only [hf, Option.isSome_some, if_true, Option.bind_some]
    exact hrun'

theorem passes_accept (k : TokenKind) : Passes (accept k) (behindKinds [k]) := by
  intro s
  obtain ⟨c, hrun, hc⟩ := kind?_run s
  unfold accept
  rw [run_bind_eq hrun]
  cases hs : significant s.ahead with
  | nil => exact ⟨c, rfl, by simp [behindKinds]⟩
  | cons t v =>
    obtain ⟨rest, hrest, hv⟩ := dropWhile_of_significant hs
    have hadvance : (s.moveTo c).advance = .ok ((s.moveTo c).moveTo ⟨t :: c.behind, rest⟩) :=
      Stream.advance_eq_ok (hc.trans hrest)
    by_cases hk : t.kind = k
    · refine ⟨⟨t :: c.behind, rest⟩, ?_, by simp [behindKinds, hk, hv]⟩
      simp only [List.head?_cons, Option.map_some, hk, BEq.rfl, if_true, behindKinds, Option.isSome_some]
      rw [run_bind_eq (m := get) (a := s.moveTo c) (t := s.moveTo c) rfl, hadvance]
      rfl
    · refine ⟨c, ?_, by simp [behindKinds, hk]⟩
      simp [behindKinds, hk]
      rfl

theorem passes_acceptAll (ks : List TokenKind) : Passes (acceptAll ks) (behindKinds ks) := by
  induction ks with
  | nil => exact fun s => ⟨s.cursor, rfl, fun v hv => Option.some.inj hv⟩
  | cons k ks ih =>
    have h := (passes_accept k).andThen ih
    have hf : (fun v => (behindKinds [k] v).bind (behindKinds ks)) = behindKinds (k :: ks) := by
      funext v
      cases v with
      | nil => rfl
      | cons t v =>
        by_cases ht : t.kind = k <;> simp [behindKinds, ht]
    rw [hf] at h
    exact h

theorem behindDots_eq (v : List Token) : behindDots v =
    if v.head?.map Token.kind = some .dot then (behindKinds [.dot, .identifier] v).bind behindDots else some v := by
  match v with
  | [] => rfl
  | [t] => by_cases ht : t.kind = .dot <;> simp [behindDots, behindKinds, ht]
  | t :: u :: v =>
    by_cases ht : t.kind = .dot
    · by_cases hu : u.kind = .identifier <;> simp [behindDots, behindKinds, ht, hu]
    · simp [behindDots, ht]

theorem length_behindKinds {ks : List TokenKind} {v w : List Token} (h : behindKinds ks v = some w) :
    v.length = ks.length + w.length := by
  induction ks generalizing v with
  | nil =>
    rw [behindKinds, Option.some.injEq] at h
    simp [h]
  | cons k ks ih =>
    cases v with
    | nil => simp [behindKinds] at h
    | cons t v =>
      rw [behindKinds] at h
      split at h
      · rw [List.length_cons, List.length_cons, ih h]
        omega
      · simp at h

/-- A round for each token ahead is enough to pass the rest of a dotted name. -/
theorem dottedTail_run (rounds : List Token) (s : Stream) (h : (significant s.ahead).length ≤ rounds.length) :
    ∃ c, (dottedTail rounds).run s = ((behindDots (significant s.ahead)).isSome, s.moveTo c) ∧
      ∀ v, behindDots (significant s.ahead) = some v → significant c.ahead = v := by
  induction rounds generalizing s with
  | nil =>
    have hnil : significant s.ahead = [] := List.length_eq_zero_iff.1 (Nat.le_zero.1 h)
    refine ⟨s.cursor, by rw [hnil]; rfl, fun v hv => ?_⟩
    rw [hnil, behindDots, Option.some.injEq] at hv
    rw [← hv]
    exact hnil
  | cons t rounds ih =>
    obtain ⟨c, hrun, hc⟩ := kind?_run s
    have hsig : significant (s.moveTo c).ahead = significant s.ahead := by
      have hahead : (s.moveTo c).ahead = c.ahead := rfl
      rw [hahead, hc, significant_dropWhile]
    rw [dottedTail, run_bind_eq hrun, behindDots_eq (significant s.ahead)]
    by_cases hdot : (significant s.ahead).head?.map Token.kind = some .dot
    · obtain ⟨d, hrun', hd⟩ := passes_acceptAll [.dot, .identifier] (s.moveTo c)
      rw [hsig] at hrun' hd
      simp only [hdot, BEq.rfl, if_true]
      rw [run_bind_eq hrun']
      cases hk : behindKinds [.dot, .identifier] (significant s.ahead) with
      | none => exact ⟨d, by simp; rfl, by simp⟩
      | some v =>
        have hv : significant ((s.moveTo c).moveTo d).ahead = v := hd v hk
        have hlen := length_behindKinds hk
        simp only [List.length_cons] at h hlen
        obtain ⟨e, hrun'', he⟩ := ih ((s.moveTo c).moveTo d) (by rw [hv]; omega)
        rw [hv] at hrun'' he
        exact ⟨e, by simpa using hrun'', by simpa using he⟩
    · refine ⟨c, ?_, fun v hv => ?_⟩
      · rw [if_neg (by simpa using hdot), if_neg hdot]
        rfl
      · rw [if_neg hdot, Option.some.injEq] at hv
        rw [← hv, ← hsig]
        rfl

theorem passes_dottedName : Passes dottedName behindName := by
  have htail : Passes (do dottedTail (← get).ahead) behindDots := by
    intro s
    rw [run_bind_eq (m := get) (a := s) (t := s) rfl]
    exact dottedTail_run s.ahead s (length_significant_le s.ahead)
  exact (passes_accept .identifier).andThen htail

theorem passes_definition : Passes
    (do if ← acceptAll [.identifier, .colon] then (do if ← dottedName then accept .endOfStatement else return false) else return false)
    behindDefinition :=
  (passes_acceptAll _).andThen (passes_dottedName.andThen (passes_accept _))

theorem passes_target : Passes (do if ← dottedName then accept .assignment else return false) behindTarget :=
  passes_dottedName.andThen (passes_accept _)

end Scan

namespace Parser

/-- With no mark saved, a parser that speculates answers by the test of its scan, and its state is as before. -/
theorem speculate_eq {scan : Scan} {f : List Token → Option (List Token)} (hscan : scan.Passes f) {s : ParserState}
    (h : s.stream.saved = none) : speculate scan s = .ok (f s.significant).isSome s := by
  obtain ⟨c, hrun, -⟩ := hscan { s.stream with saved := some s.stream.cursor }
  have hmark : move Stream.mark s = .ok () { s with stream := { s.stream with saved := some s.stream.cursor } } := by
    unfold move Stream.mark
    rw [h]
  have hrestore : move Stream.restore
      { s with stream := ({ s.stream with saved := some s.stream.cursor } : Stream).moveTo c } = .ok () s := by
    have hs : s.stream = { s.stream with saved := none } := by rw [← h]
    unfold move Stream.restore
    simp only [Stream.moveTo]
    rw [← hs]
  unfold speculate
  simp only [Bind.bind, EStateM.bind, hmark, hrun, hrestore]
  rfl

/-- With a mark saved, a parser that speculates fails at once: the slot is taken. -/
theorem speculate_eq_error (scan : Scan) {s : ParserState} {c : Cursor} (h : s.stream.saved = some c) :
    speculate scan s = .error (s.errorAt s.here (.cursor .markInUse)) s := by
  have hmark : move Stream.mark s = .error (s.errorAt s.here (.cursor .markInUse)) s := by
    unfold move Stream.mark
    rw [h]
  unfold speculate
  simp only [Bind.bind, EStateM.bind, hmark]

theorem lookAhead_eq (ks : List TokenKind) {s : ParserState} (h : s.stream.saved = none) :
    lookAhead ks s = .ok (Scan.behindKinds ks s.significant).isSome s :=
  speculate_eq (Scan.passes_acceptAll ks) h

theorem looksLikeVariableDefinition_eq {s : ParserState} (h : s.stream.saved = none) :
    looksLikeVariableDefinition s = .ok (Scan.behindDefinition s.significant).isSome s :=
  speculate_eq Scan.passes_definition h

theorem looksLikePlainAssignment_eq {s : ParserState} (h : s.stream.saved = none) :
    looksLikePlainAssignment s = .ok (Scan.behindTarget s.significant).isSome s :=
  speculate_eq Scan.passes_target h

end Parser

end Courier
