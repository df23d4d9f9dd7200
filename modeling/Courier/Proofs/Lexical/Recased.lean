import Courier.Proofs.Lexical.Positions
import Courier.Proofs.Lexical.Tokenize
import Mathlib.Data.List.Forall2

/-!
# The case of letters

A text may be the same as another but for the case of letters at some of its bytes (`Text.Recased`). If those bytes lie inside keywords and
boolean literals, both texts are cut alike: the tokens have the same kinds and places, and the texts of the other tokens are the same
(`tokensFrom_recased`). The proof follows the steps of the scan. A letter is no blank and ends no lexeme, so a lexeme stays one in front of
a text that is recased (`IsLexeme.recased`), and a reserved word is one in any case.
-/

namespace Courier

open Lexical

/-- The second text is the first one but for the case of letters, at bytes `P` only. The texts start at byte `n`. -/
inductive Text.Recased (P : Nat → Prop) : Nat → List Char → List Char → Prop where
  | nil {n : Nat} : Recased P n [] []
  | same {n : Nat} {c : Char} {cs cs' : List Char} (h : Recased P (n + c.utf8Size) cs cs') : Recased P n (c :: cs) (c :: cs')
  | letter {n : Nat} {c c' : Char} {cs cs' : List Char} (hn : P n) (hc : c'.toLower = c.toLower)
      (h : Recased P (n + c.utf8Size) cs cs') : Recased P n (c :: cs) (c' :: cs')

/-- The second token is the first one but for the case of its letters, and the same if it is not one of `Q`. -/
structure Token.Respelled (Q : Token → Prop) (t t' : Token) : Prop where
  kind : t'.kind = t.kind
  location : t'.location = t.location
  lower : t'.text.toList.map Char.toLower = t.text.toList.map Char.toLower
  text (h : ¬Q t) : t'.text = t.text

namespace Lexical

/-! ## Letters -/

theorem toNat_toLower (c : Char) : c.toLower.toNat = if 65 ≤ c.toNat ∧ c.toNat ≤ 90 then c.toNat + 32 else c.toNat := by
  unfold Char.toLower
  split
  · rename_i hc
    have hlower : 65 ≤ c.toNat := hc.1
    have hupper : c.toNat ≤ 90 := hc.2
    have hsum : (c.val + ('a'.val - 'A'.val)).toNat = (c.val.toNat + 32) % 2 ^ 32 := UInt32.toNat_add _ _
    rw [if_pos ⟨hlower, hupper⟩]
    refine hsum.trans (Nat.mod_eq_of_lt ?_)
    change c.toNat + 32 < 2 ^ 32
    omega
  · rename_i hc
    have hnot : ¬(65 ≤ c.toNat ∧ c.toNat ≤ 90) := hc
    rw [if_neg hnot]

/-- Characters that differ in case only are letters. -/
theorem eq_or_letters {c c' : Char} (h : c'.toLower = c.toLower) : c' = c ∨ Letter c ∧ Letter c' := by
  have hsame : c'.toLower.toNat = c.toLower.toNat := congrArg Char.toNat h
  have hletter : ∀ d : Char, (65 ≤ d.toNat ∧ d.toNat ≤ 90) ∨ (97 ≤ d.toNat ∧ d.toNat ≤ 122) → Letter d :=
    fun d hd => hd.elim (fun hupper => .inr (.inl hupper)) .inl
  rw [toNat_toLower, toNat_toLower] at hsame
  split at hsame <;> split at hsame
  · exact .inl (Char.toNat_inj.1 (by omega))
  · exact .inr ⟨hletter c (.inr (by omega)), hletter c' (.inl (by omega))⟩
  · exact .inr ⟨hletter c (.inl (by omega)), hletter c' (.inr (by omega))⟩
  · exact .inl (Char.toNat_inj.1 hsame)

theorem EndsRun.not_letter {rest : List Char} (h : EndsRun rest) : ∀ c ∈ rest.head?, ¬Letter c := by
  intro c hc hletter
  have hnot : Text.isLetter c = false := h.stops (by decide) c hc
  rw [isLetter_iff.2 hletter] at hnot
  nomatch hnot

/-- A place that is moved over characters is the same in any case of theirs. -/
theorem after_eq_of_lower {cs cs' : List Char} (h : cs'.map Char.toLower = cs.map Char.toLower) (p : Location) :
    p.after cs' = p.after cs := by
  have hletter : ∀ {c : Char}, Letter c → ∀ p : Location, p.next c = ⟨p.line, p.column + 1, p.offset + 1⟩ := by
    intro c hc p
    have hsize : c.utf8Size = 1 := by
      rw [Char.utf8Size_eq_one_iff]
      rcases hc with ⟨-, hc⟩ | ⟨-, hc⟩ | rfl
      · exact Nat.le_trans hc (by decide)
      · exact Nat.le_trans hc (by decide)
      · decide
    have hfeed : c ≠ '\n' := by
      rintro rfl
      revert hc
      simp [Letter]
    rw [Location.next, if_neg hfeed, hsize]
  induction cs generalizing cs' p with
  | nil => rw [List.map_eq_nil_iff.1 h]
  | cons c cs ih =>
    obtain ⟨c', cs', rfl, hc, hcs⟩ := List.map_eq_cons_iff.1 h
    rw [Location.after_cons, Location.after_cons, ih hcs]
    rcases eq_or_letters hc with rfl | ⟨hl, hl'⟩
    · rfl
    · rw [hletter hl, hletter hl']

end Lexical

theorem Token.Respelled.span_eq {Q : Token → Prop} {t t' : Token} (h : t.Respelled Q t') : t'.span = t.span := by
  have hoffset := congrArg Location.offset (after_eq_of_lower h.lower .start)
  rw [Text.offset_after, Text.offset_after] at hoffset
  have hlength : t'.byteLength = t.byteLength := Nat.add_left_cancel hoffset
  rw [Token.span, Token.span, Token.spanEnd, Token.spanEnd, Token.spanStart, Token.spanStart, h.kind, h.location, hlength]

/-! ## Texts that differ in case -/

namespace Text.Recased

variable {P : Nat → Prop} {n : Nat} {cs cs' rest rest' : List Char}

theorem refl (P : Nat → Prop) (n : Nat) (cs : List Char) : Recased P n cs cs := by
  induction cs generalizing n with
  | nil => exact .nil
  | cons c cs ih => exact .same (ih _)

/-- A part of a text in another case, if all its bytes are some of `P`. -/
theorem of_lower (h : cs'.map Char.toLower = cs.map Char.toLower) (hP : ∀ i, n ≤ i → i < n + byteLength cs → P i)
    (hrest : Recased P (n + byteLength cs) rest rest') : Recased P n (cs ++ rest) (cs' ++ rest') := by
  induction cs generalizing n cs' with
  | nil =>
    obtain rfl := List.map_eq_nil_iff.1 h
    exact hrest
  | cons c cs ih =>
    obtain ⟨c', cs', rfl, hc, hcs⟩ := List.map_eq_cons_iff.1 h
    have hpos : 0 < c.utf8Size := Char.utf8Size_pos c
    rw [byteLength] at hP hrest
    refine .letter (hP n (Nat.le_refl n) (by omega)) hc (ih hcs (fun i hle hlt => hP i (by omega) (by omega)) ?_)
    rwa [Nat.add_assoc]

theorem lower (h : Recased P n cs cs') : cs'.map Char.toLower = cs.map Char.toLower := by
  induction h with
  | nil => rfl
  | same _ ih => rw [List.map_cons, List.map_cons, ih]
  | letter _ hc _ ih => rw [List.map_cons, List.map_cons, ih, hc]

/-- The first characters are the same or letters. -/
theorem head (h : Recased P n cs cs') : ∀ c' ∈ cs'.head?, ∃ c ∈ cs.head?, c' = c ∨ Letter c ∧ Letter c' := by
  intro c' hc'
  cases h with
  | nil => nomatch hc'
  | same _ => exact ⟨c', hc', .inl rfl⟩
  | @letter _ d d' _ _ _ hd _ =>
    obtain rfl := Option.some.inj hc'
    exact ⟨d, rfl, eq_or_letters hd⟩

/-- A character that is no letter stands first in both texts or in none. -/
theorem head?_iff (h : Recased P n cs cs') {c : Char} (hc : ¬Letter c) : cs'.head? = some c ↔ cs.head? = some c := by
  cases h with
  | nil => rfl
  | same _ => rfl
  | @letter _ d d' _ _ _ hd _ =>
    rcases eq_or_letters hd with rfl | ⟨hl, hl'⟩
    · rfl
    · constructor
      · intro heq
        exact absurd (Option.some.inj heq ▸ hl') hc
      · intro heq
        exact absurd (Option.some.inj heq ▸ hl) hc

/-- A character that is no letter stays as it is. -/
theorem cons {c : Char} (hc : ¬Letter c) (h : Recased P n (c :: cs) cs') :
    ∃ rest, cs' = c :: rest ∧ Recased P (n + c.utf8Size) cs rest := by
  cases h with
  | same h => exact ⟨_, rfl, h⟩
  | letter _ hcase h =>
    rw [(eq_or_letters hcase).resolve_right (fun hl => hc hl.1)]
    exact ⟨_, rfl, h⟩

/-- A text that is put together is recased part by part. -/
theorem append (h : Recased P n (cs ++ rest) cs') :
    ∃ text' rest', cs' = text' ++ rest' ∧ Recased P n cs text' ∧ Recased P (n + byteLength cs) rest rest' := by
  induction cs generalizing n cs' with
  | nil => exact ⟨[], cs', rfl, .nil, h⟩
  | cons c cs ih =>
    rw [byteLength, ← Nat.add_assoc]
    cases h with
    | same h =>
      obtain ⟨text', rest', rfl, htext, hrest⟩ := ih h
      exact ⟨c :: text', rest', rfl, .same htext, hrest⟩
    | @letter _ _ c' _ _ hn hc h =>
      obtain ⟨text', rest', rfl, htext, hrest⟩ := ih h
      exact ⟨c' :: text', rest', rfl, .letter hn hc htext, hrest⟩

/-- Where no byte is one of `P`, the texts are the same. -/
theorem eq_of_not (h : Recased P n cs cs') (hP : ∀ i, n ≤ i → i < n + byteLength cs → ¬P i) : cs' = cs := by
  induction h with
  | nil => rfl
  | @same n c cs cs' _ ih =>
    have hrest := ih (fun i hle hlt => hP i (by omega) (by rw [byteLength]; omega))
    rw [hrest]
  | @letter n c c' cs cs' hn _ _ _ =>
    have hpos : 0 < c.utf8Size := Char.utf8Size_pos c
    exact absurd hn (hP n (Nat.le_refl n) (by rw [byteLength]; omega))

/-- A place that is moved over either text is the same. -/
theorem after_eq (h : Recased P n cs cs') (p : Location) : p.after cs' = p.after cs :=
  after_eq_of_lower h.lower p

/-- What may stand in a word may stand there in any case. -/
theorem word (h : Recased P n cs cs') (hcs : ∀ d ∈ cs, Letter d ∨ Digit d) : ∀ d ∈ cs', Letter d ∨ Digit d := by
  induction h with
  | nil => exact hcs
  | same _ ih =>
    have hrest := ih (fun d hd => hcs d (List.mem_cons_of_mem _ hd))
    exact fun d hd => (List.mem_cons.1 hd).elim (fun heq => hcs d (heq ▸ List.mem_cons_self)) (hrest d)
  | @letter n c c' cs cs' _ hc _ ih =>
    have hrest := ih (fun d hd => hcs d (List.mem_cons_of_mem _ hd))
    have hfirst : Letter c' ∨ Digit c' := by
      rcases eq_or_letters hc with rfl | ⟨-, hl⟩
      · exact hcs c' List.mem_cons_self
      · exact .inl hl
    exact fun d hd => (List.mem_cons.1 hd).elim (fun heq => heq ▸ hfirst) (hrest d)

end Text.Recased

namespace Lexical

variable {P : Nat → Prop} {n m : Nat} {kind : TokenKind} {text text' rest rest' : List Char}

/-! ## Lexemes -/

theorem EndsRun.recased (h : EndsRun rest) (hrest : Text.Recased P n rest rest') : EndsRun rest' := by
  intro c' hc'
  obtain ⟨c, hc, hsame⟩ := hrest.head c' hc'
  rcases hsame with rfl | ⟨hletter, -⟩
  · exact h c' hc
  · exact absurd hletter (h.not_letter c hc)

/-- A lexeme is one in front of a text in any case. -/
theorem IsLexeme.behind_recased (h : IsLexeme kind text rest) (hrest : Text.Recased P n rest rest') : IsLexeme kind text rest' := by
  cases h with
  | word hc hcs hkind hend => exact .word hc hcs hkind (hend.recased hrest)
  | hexadecimal hx hne hds hend => exact .hexadecimal hx hne hds (hend.recased hrest)
  | binary hx hne hds hend => exact .binary hx hne hds (hend.recased hrest)
  | dotted hrun hend hdot => exact .dotted hrun (hend.recased hrest) (mt (hrest.head?_iff (by simp [Letter])).1 hdot)
  | string hbody => exact .string hbody
  | assignment => exact .assignment
  | colon hnot =>
    exact .colon ⟨mt (hrest.head?_iff (by simp [Letter])).1 hnot.1, mt (hrest.head?_iff (by simp [Letter])).1 hnot.2⟩
  | blockComment hbody => exact .blockComment hbody
  | @lineComment body returns r hbody hreturns hr hmark =>
    obtain ⟨returns', r', rfl, hreturns', hr'⟩ := hrest.append
    have hsame : returns' = returns := by
      rcases hreturns with rfl | ⟨rfl, -⟩
      · obtain ⟨none, rfl, hnone⟩ := hreturns'.cons (by simp [Letter])
        cases hnone
        rfl
      · cases hreturns'
        rfl
    subst hsame
    have hfeed : r' = [] ∨ r'.head? = some '\n' := by
      rcases hr with rfl | hr
      · cases hr' with | nil => exact .inl rfl
      · exact .inr ((hr'.head?_iff (by simp [Letter])).2 hr)
    refine .lineComment hbody hreturns hfeed ?_
    cases body with
    | nil => exact mt (hrest.head?_iff (by simp [Letter])).1 hmark
    | cons c body => exact hmark
  | single hc => exact .single hc

/-- A reserved word is one in any case. -/
theorem IsLexeme.recased (h : IsLexeme kind text rest) (hkind : kind = .keyword ∨ kind = .booleanLiteral)
    (htext : Text.Recased P n text text') : IsLexeme kind text' rest := by
  have hlower := htext.lower
  cases h with
  | @word _ c cs _ hc hcs hword hend =>
    have hwhole : ∀ d ∈ text', Letter d ∨ Digit d := htext.word (fun d hd => (List.mem_cons.1 hd).elim (fun heq => .inl (heq ▸ hc)) (hcs d))
    have hword' : WordKind text' kind := by
      cases hword with
      | boolean hk h => exact .boolean hk (hlower.trans h)
      | keyword hk h => exact .keyword hk (hlower.trans h)
      | identifier _ => exact absurd hkind (by simp)
    obtain ⟨c', cs', rfl⟩ : ∃ c' cs', text' = c' :: cs' := by cases htext <;> exact ⟨_, _, rfl⟩
    have hfirst : Letter c' := by
      obtain ⟨d, hd, hsame⟩ := htext.head c' rfl
      obtain rfl := Option.some.inj hd
      exact hsame.elim (fun heq => heq ▸ hc) And.right
    exact .word hfirst (fun d hd => hwhole d (List.mem_cons_of_mem c' hd)) hword' hend
  | @dotted k _ _ _ _ _ =>
    match k, hkind with
    | 0, hkind => exact absurd hkind (by simp [numberKind])
    | 1, hkind => exact absurd hkind (by simp [numberKind])
    | _ + 2, hkind => exact absurd hkind (by simp [numberKind])
  | single hc =>
    rcases hkind with rfl | rfl
    · exact absurd hc (by simp [singles])
    · exact absurd hc (by simp [singles])
  | _ => exact absurd hkind (by simp)

/-! ## Tokens -/

theorem not_letter_of_blank {c : Char} (h : Blank c) : ¬Letter c := by
  have hends : EndsRun [c] := fun d hd => .inl (Option.some.inj hd ▸ h)
  exact hends.not_letter c rfl

/-- A lexeme that is respelled only if its token is one of `Q`, a reserved word. -/
theorem IsLexeme.respelled {Q : Token → Prop} (hQ : ∀ t, Q t → t.kind = .keyword ∨ t.kind = .booleanLiteral) {p : Location}
    (h : IsLexeme kind text rest) (hP : ∀ i, P i → Token.Holds ⟨kind, String.ofList text, p⟩ i → Q ⟨kind, String.ofList text, p⟩)
    (htext : Text.Recased P p.offset text text') :
    IsLexeme kind text' rest ∧ Token.Respelled Q ⟨kind, String.ofList text, p⟩ ⟨kind, String.ofList text', p⟩ := by
  have hsame : ¬Q ⟨kind, String.ofList text, p⟩ → text' = text := by
    refine fun hnot => htext.eq_of_not (fun i hle hlt hPi => hnot (hP i hPi ⟨hle, ?_⟩))
    simpa [Token.spanEnd, Token.spanStart, Token.byteLength] using hlt
  refine ⟨?_, rfl, rfl, ?_, fun hnot => congrArg String.ofList (hsame hnot)⟩
  · by_cases hq : Q ⟨kind, String.ofList text, p⟩
    · exact h.recased (hQ _ hq) htext
    · exact hsame hq ▸ h
  · simpa using htext.lower

end Lexical

/-- Where only reserved words are respelled, a text that is recased is cut at the same places: by induction on the steps of the scan. -/
theorem tokensFrom_recased {P : Nat → Prop} {Q : Token → Prop} (hQ : ∀ t, Q t → t.kind = .keyword ∨ t.kind = .booleanLiteral)
    {p : Location} {cs cs' : List Char} {ts : List Token} (h : tokensFrom p cs = .ok ts)
    (hP : ∀ i, P i → ∃ t ∈ ts, Q t ∧ t.Holds i) (hcs : Text.Recased P p.offset cs cs') :
    ∃ ts', tokensFrom p cs' = .ok ts' ∧ List.Forall₂ (Token.Respelled Q) ts ts' := by
  -- What may be recased ahead lies in the tokens ahead, and those start at the place or behind it.
  refine (tokensFrom_induction (P := fun p cs ts => (∀ t ∈ ts, p.offset ≤ t.spanStart) ∧ ∀ cs',
    (∀ i, p.offset ≤ i → P i → ∃ t ∈ ts, Q t ∧ t.Holds i) → Text.Recased P p.offset cs cs' →
    ∃ ts', tokensFrom p cs' = .ok ts' ∧ List.Forall₂ (Token.Respelled Q) ts ts') ?_ ?_ ?_ h).2 cs' (fun i _ => hP i) hcs
  · refine fun p => ⟨List.forall_mem_nil _, fun cs' _ hcs => ?_⟩
    cases hcs
    exact ⟨[], rfl, .nil⟩
  · rintro p c cs ts hblank ⟨hstart, ih⟩
    have hbehind : (p.next c).offset = p.offset + c.utf8Size := offset_next p c
    refine ⟨fun t ht => Nat.le_trans (by omega) (hstart t ht), fun cs' hP hcs => ?_⟩
    obtain ⟨rest, rfl, hrest⟩ := hcs.cons (not_letter_of_blank (isBlank_iff.1 hblank))
    rw [tokensFrom_blank hblank]
    exact ih rest (fun i hi => hP i (by omega)) (hbehind ▸ hrest)
  · rintro p c cs kind text rest ts hread hcovers - ⟨hstart, ih⟩
    have hbehind : (p.after text).offset = p.offset + Text.byteLength text := Text.offset_after p text
    have hend : Token.spanEnd ⟨kind, String.ofList text, p⟩ = p.offset + Text.byteLength text := by
      simp [Token.spanEnd, Token.spanStart, Token.byteLength]
    refine ⟨fun t ht => ?_, fun cs' hP hcs => ?_⟩
    · rcases List.mem_cons.1 ht with rfl | ht
      · exact Nat.le_refl _
      · exact Nat.le_trans (by omega) (hstart t ht)
    rw [← hcovers] at hcs
    obtain ⟨text', rest', rfl, htext, hrest⟩ := hcs.append
    have hfirst : ∀ i, P i → Token.Holds ⟨kind, String.ofList text, p⟩ i → Q ⟨kind, String.ofList text, p⟩ := by
      intro i hPi hi
      obtain ⟨t, ht, hQt, hti⟩ := hP i hi.1 hPi
      rcases List.mem_cons.1 ht with rfl | ht
      · exact hQt
      · have hlt := hi.2
        have hle := hstart t ht
        have hti := hti.1
        omega
    have hothers : ∀ i, (p.after text).offset ≤ i → P i → ∃ t ∈ ts, Q t ∧ t.Holds i := by
      intro i hi hPi
      obtain ⟨t, ht, hQt, hti⟩ := hP i (by omega) hPi
      rcases List.mem_cons.1 ht with rfl | ht
      · have hlt := hti.2
        omega
      · exact ⟨t, ht, hQt, hti⟩
    obtain ⟨hlexeme, hrespelled⟩ := (isLexeme_of_read hread).respelled hQ hfirst htext
    obtain ⟨ts', hts', hall⟩ := ih rest' hothers (hbehind ▸ hrest)
    have hscan := tokensFrom_lexeme (hlexeme.behind_recased hrest) p
    rw [htext.after_eq, hts'] at hscan
    exact ⟨_, hscan, .cons hrespelled hall⟩

/-- Where only reserved words are respelled, the stream of a text that is recased has the same spans and the same end. -/
theorem Stream.tokenize_recased {P : Nat → Prop} {Q : Token → Prop} (hQ : ∀ t, Q t → t.kind = .keyword ∨ t.kind = .booleanLiteral)
    {file text text' : String} {s : Stream} (hs : Stream.tokenize file text = .ok s) (hP : ∀ i, P i → ∃ t ∈ s.tokens, Q t ∧ t.Holds i)
    (htext : Text.Recased P 0 text.toList text'.toList) : ∃ s', Stream.tokenize file text' = .ok s' ∧
      List.Forall₂ (Token.Respelled Q) s.tokens s'.tokens ∧ s'.endLocation = s.endLocation := by
  obtain ⟨ts, hts, rfl⟩ := Stream.tokenize_eq_ok.1 hs
  obtain ⟨ts', hts', hall⟩ := tokensFrom_recased (p := .start) hQ hts hP htext
  refine ⟨.ofTokens file text' ts', Stream.tokenize_eq_ok.2 ⟨ts', hts', rfl⟩, hall, ?_⟩
  change Text.endOfText text' = Text.endOfText text
  rw [← Location.after_start_eq, ← Location.after_start_eq, htext.after_eq]

end Courier
