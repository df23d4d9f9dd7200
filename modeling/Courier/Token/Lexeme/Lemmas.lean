import Courier.Token.Lexeme

/-!
# A lexeme covers the front of its text

A reader neither drops nor invents a character: a token's text and the rest are the text it was read from, and a token is never
empty (`Lexeme.covers_read`). The place of a fault lies inside that text.
-/

namespace Courier.Lexeme

/-- A lexeme covers a text: a token takes a non-empty part at its front, and the place of a fault lies in it. -/
def Covers (cs : List Char) : Lexeme → Prop
  | token _ text rest => text ++ rest = cs ∧ text ≠ []
  | fault _ before => before <+: cs

/-- The run at the front of a text and what is left are the text. -/
theorem append_takeWhile_isFront (p : Char → Bool) (xs cs : List Char) : xs ++ cs.takeWhile p <+: xs ++ cs :=
  (List.prefix_append_right_inj xs).2 (List.takeWhile_prefix p)

/-- The run that starts with a character of its class is not empty. -/
theorem takeWhile_cons_ne_nil {p : Char → Bool} {c : Char} (h : p c = true) (cs : List Char) :
    (c :: cs).takeWhile p ≠ [] := by
  simp [h]

theorem covers_readWord {c : Char} (h : Text.isLetter c = true) (cs : List Char) :
    (readWord (c :: cs)).Covers (c :: cs) := by
  have hw : Text.isWordChar c = true := by simp [Text.isWordChar, h]
  have happ := List.takeWhile_append_dropWhile (p := Text.isWordChar) (l := c :: cs)
  have hne := takeWhile_cons_ne_nil hw cs
  unfold readWord
  simp only
  split
  · exact ⟨happ, hne⟩
  · split
    · exact ⟨happ, hne⟩
    · exact List.takeWhile_prefix _

theorem covers_closeNumber {number rest cs : List Char} (h : number ++ rest = cs) (hne : number ≠ []) (kind : TokenKind)
    (wellFormed : Bool) : (closeNumber kind wellFormed number rest).Covers cs := by
  unfold closeNumber
  split
  · exact ⟨rest, h⟩
  · split
    · exact ⟨h, hne⟩
    · exact List.nil_prefix

theorem covers_readHexadecimal {mark : List Char} (hne : mark ≠ []) (cs : List Char) :
    (readHexadecimal mark cs).Covers (mark ++ cs) := by
  refine covers_closeNumber ?_ (by simp [hne]) _ _
  rw [List.append_assoc, List.takeWhile_append_dropWhile]

theorem covers_readBinary {mark : List Char} (hne : mark ≠ []) (cs : List Char) :
    (readBinary mark cs).Covers (mark ++ cs) := by
  unfold readBinary
  simp only
  split
  · exact append_takeWhile_isFront _ _ _
  · refine covers_closeNumber ?_ (by simp [hne]) _ _
    rw [List.append_assoc, List.takeWhile_append_dropWhile]

/-- What lies before the second of two dots is the front of the run. -/
theorem beforeSecondDot_isFront : ∀ {run before : List Char}, beforeSecondDot run = some before → before <+: run := by
  intro run
  induction run with
  | nil => simp [beforeSecondDot]
  | cons c cs ih =>
    intro before h
    unfold beforeSecondDot at h
    split at h
    · rename_i heq
      rw [heq, ← Option.some.inj h]
      simp
    · rename_i heq
      simp only [List.cons.injEq] at heq
      obtain ⟨rfl, rfl⟩ := heq
      simp only [Option.map_eq_some_iff] at h
      obtain ⟨b, hb, rfl⟩ := h
      simpa using ih hb
    · simp at h

theorem covers_readDotted {c : Char} (h : Text.isDigit c = true) (cs : List Char) :
    (readDotted (c :: cs)).Covers (c :: cs) := by
  unfold readDotted
  simp only
  split
  · rename_i hb
    exact (beforeSecondDot_isFront hb).trans (List.takeWhile_prefix _)
  · exact covers_closeNumber List.takeWhile_append_dropWhile
      (takeWhile_cons_ne_nil (by simp [isDigitOrDot, h]) cs) _ _

theorem covers_readNumber {c : Char} (h : Text.isDigit c = true) (cs : List Char) :
    (readNumber (c :: cs)).Covers (c :: cs) := by
  unfold readNumber
  split
  · rename_i heq
    rw [heq]
    exact covers_readHexadecimal (by simp) _
  · rename_i heq
    rw [heq]
    exact covers_readHexadecimal (by simp) _
  · rename_i heq
    rw [heq]
    exact covers_readBinary (by simp) _
  · rename_i heq
    rw [heq]
    exact covers_readBinary (by simp) _
  · exact covers_readDotted h cs

theorem covers_readString (cs : List Char) : (readString cs).Covers ('"' :: cs) := by
  unfold readString
  have happ := List.takeWhile_append_dropWhile (p := fun c => !Text.isQuote c) (l := cs)
  split
  · exact List.nil_prefix
  · rename_i q rest hq
    refine ⟨?_, by simp⟩
    rw [hq] at happ
    simp [happ]

/-- A block comment's body and what is left are the text they were cut from. -/
theorem closeComment_append : ∀ {cs body rest : List Char}, closeComment cs = some (body, rest) → body ++ rest = cs := by
  intro cs
  induction cs with
  | nil => simp [closeComment]
  | cons c cs ih =>
    intro body rest h
    unfold closeComment at h
    split at h
    · rename_i heq
      obtain ⟨hb, hr⟩ := Prod.mk.inj (Option.some.inj h)
      rw [heq, ← hb, ← hr]
      rfl
    · rename_i heq
      simp only [List.cons.injEq] at heq
      obtain ⟨rfl, rfl⟩ := heq
      simp only [Option.map_eq_some_iff, Prod.mk.injEq, Prod.exists] at h
      obtain ⟨b, r, hb, rfl, rfl⟩ := h
      simp [ih hb]
    · simp at h

theorem covers_readBlockComment (cs : List Char) : (readBlockComment cs).Covers ('#' :: '{' :: cs) := by
  unfold readBlockComment
  split
  · rename_i h
    exact ⟨by simp [closeComment_append h], by simp⟩
  · exact List.nil_prefix

theorem covers_readLineComment (cs : List Char) : (readLineComment cs).Covers ('#' :: cs) := by
  unfold readLineComment
  have happ := List.takeWhile_append_dropWhile (p := (· != '\n')) (l := cs)
  simp only
  split
  · rename_i hr
    refine ⟨?_, by simp⟩
    obtain ⟨body, hb⟩ := List.getLast?_eq_some_iff.1 hr
    rw [hb] at happ ⊢
    rw [List.append_assoc] at happ
    rw [List.dropLast_concat, List.cons_append]
    exact congrArg ('#' :: ·) happ
  · exact ⟨by simp [happ], by simp⟩

theorem covers_readComment (cs : List Char) : (readComment cs).Covers ('#' :: cs) := by
  unfold readComment
  split
  · exact covers_readBlockComment _
  · exact covers_readLineComment cs

theorem covers_readColon (cs : List Char) : (readColon cs).Covers (':' :: cs) := by
  unfold readColon
  split
  · exact ⟨rfl, by simp⟩
  · exact List.nil_prefix
  · exact ⟨rfl, by simp⟩

theorem covers_readSingle (c : Char) (cs : List Char) : (readSingle c cs).Covers (c :: cs) := by
  unfold readSingle
  split
  · exact ⟨rfl, by simp⟩
  · exact List.nil_prefix

/-- Every lexeme covers the text it is read from. -/
theorem covers_read (c : Char) (cs : List Char) : (read c cs).Covers (c :: cs) := by
  unfold read
  split
  · rename_i h
    exact covers_readWord h cs
  · split
    · rename_i h
      exact covers_readNumber h cs
    · split
      · rename_i h
        have hc : c = '"' := by simpa [Text.isQuote] using h
        subst hc
        exact covers_readString cs
      · split
        · rename_i h
          have hc : c = '#' := by simpa [Text.isCommentMark] using h
          subst hc
          exact covers_readComment cs
        · split
          · rename_i h
            subst h
            exact covers_readColon cs
          · exact covers_readSingle c cs

/-- Behind a token there is less text than before it. -/
theorem length_rest_lt {c : Char} {cs : List Char} {kind : TokenKind} {text rest : List Char}
    (h : read c cs = .token kind text rest) : rest.length < (c :: cs).length := by
  have hc := covers_read c cs
  rw [h] at hc
  obtain ⟨happ, hne⟩ := hc
  have hlen := congrArg List.length happ
  have hpos := List.length_pos_iff.2 hne
  rw [List.length_append] at hlen
  omega

end Courier.Lexeme
