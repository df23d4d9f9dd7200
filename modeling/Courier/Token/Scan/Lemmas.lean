import Courier.Token.Lexeme.Lemmas
import Courier.Token.Scan

/-!
# The fuel of a scan

A scan with enough fuel does not depend on it (`scan_eq_of_length_le`), so the tokens of a text are those of the equations
`tokensFrom_nil`, `tokensFrom_blank`, `tokensFrom_token` and `tokensFrom_fault`, in which no fuel is left. What the steps of a scan
keep holds of every text (`scan_induction`), and what the steps that give tokens keep holds of every text that is cut into tokens
(`tokensFrom_induction`).
-/

namespace Courier

/-- As much fuel as the text is long is enough. -/
theorem scan_eq_of_length_le : ∀ (fuel : Nat) (p : Location) (cs : List Char), cs.length ≤ fuel →
    scan fuel p cs = tokensFrom p cs := by
  intro fuel
  induction fuel using Nat.strongRecOn with
  | _ fuel ih =>
    intro p cs h
    cases cs with
    | nil => cases fuel <;> rfl
    | cons c cs =>
      cases fuel with
      | zero => simp at h
      | succ n =>
        simp only [List.length_cons] at h
        unfold tokensFrom
        rw [List.length_cons, scan, scan]
        split
        · rw [ih n (by omega) _ _ (by omega)]
          rfl
        · split
          · rename_i kind text rest hr
            have hlt := Lexeme.length_rest_lt hr
            simp only [List.length_cons] at hlt
            rw [ih n (by omega) _ _ (by omega)]
            by_cases hn : n = cs.length
            · subst hn
              rw [ih _ (by omega) _ _ (by omega)]
            · rw [ih cs.length (by omega) _ _ (by omega)]
          · rfl

/-- A text that is used up has no tokens. -/
theorem tokensFrom_nil (p : Location) : tokensFrom p [] = .ok [] := rfl

/-- A blank at the front is skipped. -/
theorem tokensFrom_blank {c : Char} (h : Text.isBlank c = true) (p : Location) (cs : List Char) :
    tokensFrom p (c :: cs) = tokensFrom (p.next c) cs := by
  unfold tokensFrom
  rw [List.length_cons, scan]
  simp [h]

/-- A token at the front comes first, and the others start behind it. -/
theorem tokensFrom_token {c : Char} {cs text rest : List Char} {kind : TokenKind} (h : Text.isBlank c = false)
    (hr : Lexeme.read c cs = .token kind text rest) (p : Location) :
    tokensFrom p (c :: cs) = (tokensFrom (p.after text) rest).map (⟨kind, String.ofList text, p⟩ :: ·) := by
  have hlt := Lexeme.length_rest_lt hr
  simp only [List.length_cons] at hlt
  rw [← scan_eq_of_length_le cs.length (p.after text) rest (by omega)]
  unfold tokensFrom
  rw [List.length_cons, scan]
  simp [h, hr]

/-- A fault at the front is the answer. -/
theorem tokensFrom_fault {c : Char} {cs before : List Char} {cause : LexFault} (h : Text.isBlank c = false)
    (hr : Lexeme.read c cs = .fault cause before) (p : Location) :
    tokensFrom p (c :: cs) = .error (cause, p.after before) := by
  unfold tokensFrom
  rw [List.length_cons, scan]
  simp [h, hr]

/-- A property of a place and the text from there holds everywhere if the steps of a scan keep it: each blank and each token that is
passed, and the fault that stops it. -/
theorem scan_induction {P : Location → List Char → Prop} (nil : ∀ p, P p [])
    (blank : ∀ p c cs, Text.isBlank c = true → P (p.next c) cs → P p (c :: cs))
    (token : ∀ p c cs kind text rest, Text.isBlank c = false → Lexeme.read c cs = .token kind text rest →
      P (p.after text) rest → P p (c :: cs))
    (fault : ∀ p c cs cause before, Text.isBlank c = false → Lexeme.read c cs = .fault cause before → P p (c :: cs))
    (p : Location) (cs : List Char) : P p cs := by
  induction hlen : cs.length using Nat.strongRecOn generalizing cs p with
  | _ len ih =>
    subst hlen
    cases cs with
    | nil => exact nil p
    | cons c cs =>
      cases hblank : Text.isBlank c with
      | true => exact blank p c cs hblank (ih cs.length (Nat.lt_succ_self _) _ cs rfl)
      | false =>
        cases hread : Lexeme.read c cs with
        | fault cause before => exact fault p c cs cause before hblank hread
        | token kind text rest =>
          exact token p c cs kind text rest hblank hread (ih rest.length (Lexeme.length_rest_lt hread) _ rest rfl)

/-- A relation of a place, the text from there and its tokens holds if the steps of a scan keep it. -/
theorem tokensFrom_induction {P : Location → List Char → List Token → Prop} (nil : ∀ p, P p [] [])
    (blank : ∀ p c cs ts, Text.isBlank c = true → P (p.next c) cs ts → P p (c :: cs) ts)
    (token : ∀ p c cs kind text rest ts, Lexeme.read c cs = .token kind text rest → text ++ rest = c :: cs → text ≠ [] →
      P (p.after text) rest ts → P p (c :: cs) (⟨kind, String.ofList text, p⟩ :: ts))
    {p : Location} {cs : List Char} {ts : List Token} (h : tokensFrom p cs = .ok ts) : P p cs ts := by
  revert ts
  refine scan_induction (P := fun p cs => ∀ {ts}, tokensFrom p cs = .ok ts → P p cs ts) ?_ ?_ ?_ ?_ p cs
  · intro p ts h
    obtain rfl := Except.ok.inj h
    exact nil p
  · intro p c cs hblank ih ts h
    rw [tokensFrom_blank hblank] at h
    exact blank p c cs ts hblank (ih h)
  · intro p c cs kind text rest hblank hread ih ts h
    have hcovers := Lexeme.covers_read c cs
    rw [hread] at hcovers
    rw [tokensFrom_token hblank hread] at h
    cases hscan : tokensFrom (p.after text) rest with
    | error e =>
      rw [hscan] at h
      nomatch h
    | ok ts' =>
      rw [hscan] at h
      obtain rfl := Except.ok.inj h
      exact token p c cs kind text rest ts' hread hcovers.1 hcovers.2 (ih hscan)
  · intro p c cs cause before hblank hread ts h
    rw [tokensFrom_fault hblank hread] at h
    nomatch h

/-- A fault of the scanner is blamed on a place that is moved over a part of the text. -/
theorem exists_of_tokensFrom_error {p l : Location} {cs : List Char} {cause : LexFault} (h : tokensFrom p cs = .error (cause, l)) :
    ∃ before after, cs = before ++ after ∧ l = p.after before := by
  revert h
  refine scan_induction (P := fun p cs => tokensFrom p cs = .error (cause, l) → ∃ before after, cs = before ++ after ∧ l = p.after before)
    ?_ ?_ ?_ ?_ p cs
  · exact fun p h => nomatch h
  · intro p c cs hblank ih h
    rw [tokensFrom_blank hblank] at h
    obtain ⟨before, after, rfl, hl⟩ := ih h
    exact ⟨c :: before, after, rfl, hl⟩
  · intro p c cs kind text rest hblank hread ih h
    have hcovers := Lexeme.covers_read c cs
    rw [hread] at hcovers
    rw [tokensFrom_token hblank hread] at h
    cases hscan : tokensFrom (p.after text) rest with
    | ok ts =>
      rw [hscan] at h
      nomatch h
    | error fault =>
      rw [hscan] at h
      obtain rfl : fault = (cause, l) := Except.error.inj h
      obtain ⟨before, after, hrest, hl⟩ := ih hscan
      refine ⟨text ++ before, after, ?_, ?_⟩
      · rw [← hcovers.1, hrest, List.append_assoc]
      · rw [hl, Location.after_append]
  · intro p c cs cause' before hblank hread h
    have hcovers := Lexeme.covers_read c cs
    rw [hread] at hcovers
    rw [tokensFrom_fault hblank hread] at h
    obtain ⟨after, hafter⟩ := hcovers
    obtain ⟨-, rfl⟩ := Prod.mk.inj (Except.error.inj h)
    exact ⟨before, after, hafter.symm, rfl⟩

end Courier
