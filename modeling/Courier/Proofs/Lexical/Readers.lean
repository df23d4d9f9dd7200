import Courier.Proofs.Lexical.Grammar
import Courier.Token.Lexeme.Lemmas
import Mathlib.Data.List.TakeWhile

/-!
# The readers read lexemes

Each reader of the scanner gives a token exactly where its class of lexemes has one, and the first character of a lexeme picks its
reader (`read_eq_token`, `isLexeme_of_read`). Of two lexemes at the front of a text only one can be read, so there is at most one.
-/

namespace Courier.Lexical

/-! ## Characters -/

section

variable {c : Char}

theorem isBlank_iff : Text.isBlank c = true ↔ Blank c := by
  simp [Text.isBlank, Blank, or_assoc]

theorem isDigit_iff : Text.isDigit c = true ↔ Digit c := by
  simp [Text.isDigit, Digit]

theorem isLetter_iff : Text.isLetter c = true ↔ Letter c := by
  simp [Text.isLetter, Letter, or_assoc]

theorem isWordChar_iff : Text.isWordChar c = true ↔ Letter c ∨ Digit c := by
  simp [Text.isWordChar, isLetter_iff, isDigit_iff]

theorem isHexDigit_iff : Text.isHexDigit c = true ↔ HexDigit c := by
  simp [Text.isHexDigit, HexDigit, isDigit_iff, or_assoc]

theorem isBinaryDigit_iff : Text.isBinaryDigit c = true ↔ c = '0' ∨ c = '1' := by
  simp [Text.isBinaryDigit]

theorem isReserved_iff : Text.isReserved c = true ↔ Reserved c := by
  have hperm : Text.reserved.Perm (singles.map Prod.fst ++ [':', '#']) := by decide
  unfold Text.isReserved Reserved
  rw [List.contains_iff_mem, hperm.mem_iff]
  simp

theorem isTerminator_iff : Text.isTerminator c = true ↔ Blank c ∨ Reserved c := by
  simp [Text.isTerminator, isBlank_iff, isReserved_iff]

/-- The blanks and the reserved characters, which end a run. -/
def terminators : List Char :=
  [' ', '\t', '\n', '\r', '\x0b', '\x0c'] ++ Text.reserved

theorem mem_terminators (h : Blank c ∨ Reserved c) : c ∈ terminators := by
  rcases h with h | h
  · exact List.mem_append_left _ h
  · exact List.mem_append_right _ (List.contains_iff_mem.1 (isReserved_iff.2 h))

end

/-! ## Runs -/

section

variable {p : Char → Bool} {run rest : List Char}

/-- A run of a class is read whole, if what stands behind it is not of the class. -/
theorem takeWhile_run (hrun : ∀ c ∈ run, p c = true) (hrest : ∀ c ∈ rest.head?, p c = false) :
    (run ++ rest).takeWhile p = run ∧ (run ++ rest).dropWhile p = rest := by
  induction run with
  | nil =>
    cases rest with
    | nil => exact ⟨rfl, rfl⟩
    | cons c rest =>
      have hc : p c = false := hrest c (by simp)
      exact ⟨by simp [hc], by simp [hc]⟩
  | cons c run ih =>
    have hc : p c = true := hrun c (by simp)
    obtain ⟨htake, hdrop⟩ := ih (fun d hd => hrun d (by simp [hd]))
    exact ⟨by simp [hc, htake], by simp [hc, hdrop]⟩

theorem head?_dropWhile_imp {c : Char} (h : c ∈ (run.dropWhile p).head?) : p c = false := by
  have hnot := List.head?_dropWhile_not p run
  rw [h] at hnot
  simpa using hnot

/-- Where a run ends for the reader. -/
theorem endsRun_iff : EndsRun rest ↔ rest.head?.filter (fun c => !Text.isTerminator c) = none := by
  rw [Option.filter_eq_none_iff]
  constructor
  · intro h c hc
    rw [isTerminator_iff.2 (h c hc)]
    decide
  · intro h c hc
    exact isTerminator_iff.1 (by simpa using h c hc)

/-- A run of a class that has no blank and no reserved character stops where a run ends. -/
theorem EndsRun.stops (h : EndsRun rest) (hp : terminators.all (fun c => !p c) = true) : ∀ c ∈ rest.head?, p c = false := by
  intro c hc
  have hnot : (!p c) = true := List.all_eq_true.1 hp c (mem_terminators (h c hc))
  simpa using hnot

end

/-! ## Words -/

theorem ofWord?_eq_some {word : List Char} {k : Keyword} :
    Keyword.ofWord? (String.ofList word) = some k ↔ word.map Char.toLower = k.text.toList := by
  have hall : ∀ k : Keyword, k ∈ Keyword.all := by
    intro k
    cases k <;> decide
  have hinj : ∀ k ∈ Keyword.all, ∀ k' ∈ Keyword.all, k.text.toList = k'.text.toList → k = k' := by decide +kernel
  unfold Keyword.ofWord?
  rw [String.toList_ofList]
  constructor
  · intro h
    have hk : k.text.toList = word.map Char.toLower := by simpa using List.find?_some h
    exact hk.symm
  · intro h
    have hsome : (Keyword.all.find? (fun k => k.text.toList == word.map Char.toLower)).isSome = true :=
      List.find?_isSome.2 ⟨k, hall k, by simp [h]⟩
    obtain ⟨k', hk'⟩ := Option.isSome_iff_exists.1 hsome
    have htext : k'.text.toList = word.map Char.toLower := by simpa using List.find?_some hk'
    rw [hk', hinj k' (hall k') k (hall k) (htext.trans h)]

theorem wordKind_iff {word : List Char} {kind : TokenKind} : Courier.Lexeme.wordKind word = kind ↔ WordKind word kind := by
  unfold Courier.Lexeme.wordKind
  constructor
  · rintro rfl
    split
    · rename_i h
      exact .boolean (.inl rfl) (ofWord?_eq_some.1 h)
    · rename_i h
      exact .boolean (.inr rfl) (ofWord?_eq_some.1 h)
    · rename_i k htrue hfalse h
      exact .keyword ⟨htrue, hfalse⟩ (ofWord?_eq_some.1 h)
    · rename_i h
      exact .identifier (fun k hk => by rw [ofWord?_eq_some.2 hk] at h; nomatch h)
  · intro h
    cases h with
    | boolean hk h =>
      rw [ofWord?_eq_some.2 h]
      rcases hk with rfl | rfl <;> rfl
    | keyword hk h =>
      rw [ofWord?_eq_some.2 h]
      split
      · rename_i h'
        exact absurd (Option.some.inj h') hk.1
      · rename_i h'
        exact absurd (Option.some.inj h') hk.2
      · rfl
      · rename_i h'
        nomatch h'
    | identifier h =>
      split
      · rename_i h'
        exact absurd (ofWord?_eq_some.1 h') (h _)
      · rename_i h'
        exact absurd (ofWord?_eq_some.1 h') (h _)
      · rename_i h'
        exact absurd (ofWord?_eq_some.1 h') (h _)
      · rfl

theorem readWord_eq {c : Char} {cs rest : List Char} {kind : TokenKind} (hc : Letter c) (hcs : ∀ d ∈ cs, Letter d ∨ Digit d)
    (hkind : WordKind (c :: cs) kind) (hend : EndsRun rest) :
    Courier.Lexeme.readWord (c :: (cs ++ rest)) = .token kind (c :: cs) rest := by
  have hrun : ∀ d ∈ c :: cs, Text.isWordChar d = true := by
    intro d hd
    rcases List.mem_cons.1 hd with rfl | hd
    · exact isWordChar_iff.2 (.inl hc)
    · exact isWordChar_iff.2 (hcs d hd)
  obtain ⟨htake, hdrop⟩ := takeWhile_run hrun (hend.stops (by decide))
  unfold Courier.Lexeme.readWord
  rw [← List.cons_append]
  simp only [htake, hdrop, wordKind_iff.2 hkind]
  cases rest with
  | nil => rfl
  | cons d rest =>
    have hd : Text.isTerminator d = true := isTerminator_iff.2 (hend d (by simp))
    simp [hd]

theorem isLexeme_of_readWord {c : Char} {cs text rest : List Char} {kind : TokenKind} (hc : Letter c)
    (h : Courier.Lexeme.readWord (c :: cs) = .token kind text rest) : IsLexeme kind text rest := by
  have hwordChar : Text.isWordChar c = true := isWordChar_iff.2 (.inl hc)
  have hcs : ∀ d ∈ cs.takeWhile Text.isWordChar, Letter d ∨ Digit d := fun d hd => isWordChar_iff.1 (List.mem_takeWhile_imp hd)
  have hlexeme : EndsRun (cs.dropWhile Text.isWordChar) → IsLexeme (Courier.Lexeme.wordKind (c :: cs.takeWhile Text.isWordChar))
      (c :: cs.takeWhile Text.isWordChar) (cs.dropWhile Text.isWordChar) :=
    fun hend => .word hc hcs (wordKind_iff.1 rfl) hend
  unfold Courier.Lexeme.readWord at h
  simp only [List.takeWhile_cons_of_pos hwordChar, List.dropWhile_cons_of_pos hwordChar] at h
  split at h
  · rename_i hnil
    obtain ⟨rfl, rfl, rfl⟩ := Courier.Lexeme.token.inj h
    exact hlexeme (by rw [hnil]; simp [EndsRun])
  · rename_i d ds hcons
    split at h
    · rename_i hd
      obtain ⟨rfl, rfl, rfl⟩ := Courier.Lexeme.token.inj h
      refine hlexeme (fun x hx => ?_)
      rw [hcons] at hx
      obtain rfl : d = x := by simpa using hx
      exact isTerminator_iff.1 hd
    · nomatch h

/-! ## Numbers -/

section

variable {kind k : TokenKind} {wellFormed : Bool} {cs number text rest r : List Char}

theorem closeNumber_eq_token : Courier.Lexeme.closeNumber k wellFormed number r = .token kind text rest ↔
    k = kind ∧ number = text ∧ r = rest ∧ wellFormed = true ∧ EndsRun rest := by
  unfold Courier.Lexeme.closeNumber
  constructor
  · intro h
    split at h
    · nomatch h
    · rename_i hend
      split at h
      · rename_i hformed
        obtain ⟨rfl, rfl, rfl⟩ := Courier.Lexeme.token.inj h
        exact ⟨rfl, rfl, rfl, hformed, endsRun_iff.2 hend⟩
      · nomatch h
  · rintro ⟨rfl, rfl, rfl, hformed, hend⟩
    rw [endsRun_iff.1 hend, hformed]
    rfl

theorem readHexadecimal_eq_token {mark : List Char} : Courier.Lexeme.readHexadecimal mark cs = .token kind text rest ↔
    ∃ ds, kind = .hexadecimalLiteral ∧ text = mark ++ ds ∧ cs = ds ++ rest ∧ ds ≠ [] ∧ (∀ d ∈ ds, HexDigit d) ∧
      EndsRun rest := by
  unfold Courier.Lexeme.readHexadecimal
  simp only
  rw [closeNumber_eq_token]
  constructor
  · rintro ⟨rfl, rfl, rfl, hformed, hend⟩
    refine ⟨_, rfl, rfl, List.takeWhile_append_dropWhile.symm, ?_, ?_, hend⟩
    · simpa using hformed
    · exact fun d hd => isHexDigit_iff.1 (List.mem_takeWhile_imp hd)
  · rintro ⟨ds, rfl, rfl, rfl, hne, hds, hend⟩
    obtain ⟨htake, hdrop⟩ := takeWhile_run (fun d hd => isHexDigit_iff.2 (hds d hd)) (hend.stops (by decide))
    exact ⟨rfl, by rw [htake], hdrop, by simp [htake, hne], hend⟩

theorem readBinary_eq_token {mark : List Char} : Courier.Lexeme.readBinary mark cs = .token kind text rest ↔
    ∃ ds, kind = .binaryLiteral ∧ text = mark ++ ds ∧ cs = ds ++ rest ∧ ds ≠ [] ∧ (∀ d ∈ ds, d = '0' ∨ d = '1') ∧
      EndsRun rest := by
  unfold Courier.Lexeme.readBinary
  simp only
  constructor
  · intro h
    split at h
    · nomatch h
    · obtain ⟨rfl, rfl, rfl, hformed, hend⟩ := closeNumber_eq_token.1 h
      refine ⟨_, rfl, rfl, List.takeWhile_append_dropWhile.symm, ?_, ?_, hend⟩
      · simpa using hformed
      · exact fun d hd => isBinaryDigit_iff.1 (List.mem_takeWhile_imp hd)
  · rintro ⟨ds, rfl, rfl, rfl, hne, hds, hend⟩
    obtain ⟨htake, hdrop⟩ := takeWhile_run (fun d hd => isBinaryDigit_iff.2 (hds d hd)) (hend.stops (by decide))
    have hdigit : rest.head?.filter Text.isDigit = none :=
      Option.filter_eq_none_iff.2 (fun c hc => by simp [hend.stops (p := Text.isDigit) (by decide) c hc])
    rw [htake, hdrop, hdigit]
    exact closeNumber_eq_token.2 ⟨rfl, rfl, rfl, by simp [hne], hend⟩

end

/-! ## Dotted numbers -/

theorem Digit.ne_dot {d : Char} (h : Digit d) : d ≠ '.' := by
  rintro rfl
  exact absurd (isDigit_iff.2 h) (by decide)

section

variable {n : Nat} {run : List Char}

theorem beforeSecondDot_cons {c : Char} {cs : List Char} (h : c ≠ '.' ∨ cs.head? ≠ some '.') :
    Courier.Lexeme.beforeSecondDot (c :: cs) = (Courier.Lexeme.beforeSecondDot cs).map (c :: ·) := by
  rw [Courier.Lexeme.beforeSecondDot]
  rintro ds rfl rfl
  simp at h

theorem beforeSecondDot_digits {ds : List Char} (hds : ∀ d ∈ ds, Digit d)
    (h : Courier.Lexeme.beforeSecondDot run = none) : Courier.Lexeme.beforeSecondDot (ds ++ run) = none := by
  induction ds with
  | nil => exact h
  | cons d ds ih =>
    rw [List.cons_append, beforeSecondDot_cons (.inl (hds d (by simp)).ne_dot), ih (fun e he => hds e (by simp [he]))]
    rfl

/-- A dotted number begins with a digit. -/
theorem Dotted.head (h : Dotted n run) : ∃ d ds, run = d :: ds ∧ Digit d := by
  cases h with
  | digits hne hds =>
    cases run with
    | nil => exact absurd rfl hne
    | cons d ds => exact ⟨d, ds, rfl, hds d (by simp)⟩
  | @dot ds run n hne hds hrun =>
    cases ds with
    | nil => exact absurd rfl hne
    | cons d ds => exact ⟨d, _, rfl, hds d (by simp)⟩

theorem Dotted.isDigitOrDot (h : Dotted n run) : ∀ c ∈ run, Courier.Lexeme.isDigitOrDot c = true := by
  have hdigit : ∀ {d : Char}, Digit d → Courier.Lexeme.isDigitOrDot d = true := by
    intro d hd
    simp [Courier.Lexeme.isDigitOrDot, isDigit_iff.2 hd]
  induction h with
  | digits _ hds => exact fun c hc => hdigit (hds c hc)
  | dot _ hds _ ih =>
    intro c hc
    rcases List.mem_append.1 hc with hc | hc
    · exact hdigit (hds c hc)
    · rcases List.mem_cons.1 hc with rfl | hc
      · rfl
      · exact ih c hc

theorem count_digits {ds : List Char} (hds : ∀ d ∈ ds, Digit d) : ds.count '.' = 0 :=
  List.count_eq_zero.2 (fun h => (hds '.' h).ne_dot rfl)

theorem Dotted.count (h : Dotted n run) : run.count '.' = n := by
  induction h with
  | digits _ hds => exact count_digits hds
  | dot _ hds _ ih => rw [List.count_append, count_digits hds, List.count_cons_self, ih, Nat.zero_add]

theorem Dotted.beforeSecondDot (h : Dotted n run) : Courier.Lexeme.beforeSecondDot run = none := by
  induction h with
  | @digits ds _ hds =>
    rw [← List.append_nil ds]
    exact beforeSecondDot_digits hds rfl
  | dot _ hds hrun ih =>
    refine beforeSecondDot_digits hds ?_
    obtain ⟨d, ds, rfl, hd⟩ := hrun.head
    rw [beforeSecondDot_cons (.inr (by simpa using hd.ne_dot)), ih]
    rfl

theorem Dotted.getLast? (h : Dotted n run) : run.getLast? ≠ some '.' := by
  induction h with
  | digits _ hds => exact fun hlast => (hds '.' (List.mem_of_getLast? hlast)).ne_dot rfl
  | dot _ _ hrun ih =>
    obtain ⟨d, ds, rfl, hd⟩ := hrun.head
    rwa [List.getLast?_append, List.getLast?_cons_cons, List.getLast?_eq_some_getLast (by simp), Option.some_or,
      ← List.getLast?_eq_some_getLast]

theorem Dotted.cons {d : Char} (hd : Digit d) (h : Dotted n run) : Dotted n (d :: run) := by
  cases h with
  | digits hne hds => exact .digits (by simp) (fun e he => (List.mem_cons.1 he).elim (fun h => h ▸ hd) (hds e))
  | dot hne hds hrun =>
    rw [← List.cons_append]
    exact .dot (by simp) (fun e he => (List.mem_cons.1 he).elim (fun h => h ▸ hd) (hds e)) hrun

/-- A run of digits and dots that begins with a digit, does not end in a dot and has no two dots in a row is a dotted number. -/
theorem dotted_of_run : ∀ (d : Char) (run : List Char), Digit d → (∀ c ∈ run, Courier.Lexeme.isDigitOrDot c = true) →
    Courier.Lexeme.beforeSecondDot (d :: run) = none → (d :: run).getLast? ≠ some '.' →
    Dotted ((d :: run).count '.') (d :: run) := by
  intro d run
  induction hl : run.length using Nat.strongRecOn generalizing d run with
  | _ l ih =>
    subst hl
    intro hd hrun hdots hlast
    rw [beforeSecondDot_cons (.inl hd.ne_dot), Option.map_eq_none_iff] at hdots
    match run with
    | [] =>
      rw [count_digits (by simpa using hd)]
      exact .digits (by simp) (by simpa using hd)
    | e :: run =>
      rw [List.getLast?_cons_cons] at hlast
      have he := hrun e (by simp)
      by_cases hdot : e = '.'
      · subst hdot
        match run with
        | [] => simp at hlast
        | f :: run =>
          have hf : f ≠ '.' := by
            rintro rfl
            simp [Courier.Lexeme.beforeSecondDot] at hdots
          have hdigit : Digit f := by
            have := hrun f (by simp)
            exact isDigit_iff.1 (by simpa [Courier.Lexeme.isDigitOrDot, hf] using this)
          rw [beforeSecondDot_cons (.inr (by simpa using hf)), Option.map_eq_none_iff] at hdots
          rw [List.getLast?_cons_cons] at hlast
          have hshorter : run.length < ('.' :: f :: run).length := by
            simp only [List.length_cons]
            omega
          have hrest := ih run.length hshorter f run rfl hdigit (fun c hc => hrun c (by simp [hc])) hdots hlast
          have hcount : (d :: '.' :: f :: run).count '.' = (f :: run).count '.' + 1 := by
            rw [List.count_cons_of_ne hd.ne_dot, List.count_cons_self]
          rw [hcount]
          have hone : ∀ e ∈ [d], Digit e := by simpa using hd
          exact Dotted.dot (List.cons_ne_nil d []) hone hrest
      · have hdigit : Digit e := isDigit_iff.1 (by simpa [Courier.Lexeme.isDigitOrDot, hdot] using he)
        have hrest := ih run.length (by simp) e run rfl hdigit (fun c hc => hrun c (by simp [hc])) hdots hlast
        rw [List.count_cons_of_ne hd.ne_dot]
        exact hrest.cons hd

end

theorem dottedKind_eq {run : List Char} : Courier.Lexeme.dottedKind run = numberKind (run.count '.') := by
  unfold Courier.Lexeme.dottedKind numberKind
  split <;> simp_all

/-- A number without a mark is read where a dotted number is that ends a run and has no dot behind it. -/
theorem readDotted_eq_token {kind : TokenKind} {d : Char} {cs text rest : List Char} (hd : Digit d) :
    Courier.Lexeme.readDotted (d :: cs) = .token kind text rest ↔
      ∃ n, kind = numberKind n ∧ Dotted n text ∧ d :: cs = text ++ rest ∧ EndsRun rest ∧ rest.head? ≠ some '.' := by
  have hdd : Courier.Lexeme.isDigitOrDot d = true := by simp [Courier.Lexeme.isDigitOrDot, isDigit_iff.2 hd]
  unfold Courier.Lexeme.readDotted
  constructor
  · simp only [List.takeWhile_cons_of_pos hdd, List.dropWhile_cons_of_pos hdd]
    intro h
    split at h
    · cases h
    · rename_i hdots
      obtain ⟨rfl, rfl, rfl, hlast, hend⟩ := closeNumber_eq_token.1 h
      refine ⟨_, dottedKind_eq, dotted_of_run d _ hd (fun c hc => List.mem_takeWhile_imp hc) hdots (by simpa using hlast), ?_,
        hend, fun hdot => ?_⟩
      · rw [List.cons_append, List.takeWhile_append_dropWhile]
      · have hno := head?_dropWhile_imp hdot
        simp [Courier.Lexeme.isDigitOrDot] at hno
  · rintro ⟨n, rfl, hrun, happ, hend, hdot⟩
    have hstop : ∀ c ∈ rest.head?, Courier.Lexeme.isDigitOrDot c = false := by
      intro c hc
      have hdigit := hend.stops (p := Text.isDigit) (by decide) c hc
      have hne : c ≠ '.' := fun h => hdot (h ▸ hc)
      simp [Courier.Lexeme.isDigitOrDot, hdigit, hne]
    obtain ⟨htake, hdrop⟩ := takeWhile_run hrun.isDigitOrDot hstop
    rw [happ]
    simp only [htake, hdrop, hrun.beforeSecondDot]
    exact closeNumber_eq_token.2 ⟨by rw [dottedKind_eq, hrun.count], rfl, rfl, by simpa using hrun.getLast?, hend⟩

/-- Behind the first digit of a dotted number stands no mark of a radix. -/
theorem readNumber_dotted {n : Nat} {d : Char} {cs run rest : List Char} (hrun : Dotted n run) (hend : EndsRun rest)
    (happ : d :: cs = run ++ rest) : Courier.Lexeme.readNumber (d :: cs) = Courier.Lexeme.readDotted (d :: cs) := by
  have hmark : ∀ x ∈ ['x', 'X', 'b', 'B'], ∀ r, cs ≠ x :: r := by
    rintro x hx r rfl
    cases run with
    | nil => exact absurd hrun.head (by simp)
    | cons e run =>
      have hrest : x :: r = run ++ rest := (List.cons.inj happ).2
      cases run with
      | nil =>
        have hhead : x ∈ rest.head? := by rw [← List.nil_append rest, ← hrest]; rfl
        have hno := hend.stops (p := fun c => ['x', 'X', 'b', 'B'].contains c) (by decide) x hhead
        rw [List.contains_iff_mem.2 hx] at hno
        nomatch hno
      | cons f run =>
        obtain rfl : x = f := (List.cons.inj hrest).1
        have hrun' := hrun.isDigitOrDot x (by simp)
        revert hrun' hx
        simp only [List.mem_cons, List.not_mem_nil, or_false]
        rintro (rfl | rfl | rfl | rfl) <;> decide
  unfold Courier.Lexeme.readNumber
  split
  · rename_i heq
    exact absurd (List.cons.inj heq).2 (hmark _ (by simp) _)
  · rename_i heq
    exact absurd (List.cons.inj heq).2 (hmark _ (by simp) _)
  · rename_i heq
    exact absurd (List.cons.inj heq).2 (hmark _ (by simp) _)
  · rename_i heq
    exact absurd (List.cons.inj heq).2 (hmark _ (by simp) _)
  · rfl

theorem isLexeme_of_readNumber {kind : TokenKind} {d : Char} {cs text rest : List Char} (hd : Digit d)
    (h : Courier.Lexeme.readNumber (d :: cs) = .token kind text rest) : IsLexeme kind text rest := by
  unfold Courier.Lexeme.readNumber at h
  split at h
  · obtain ⟨ds, rfl, rfl, -, hne, hds, hend⟩ := readHexadecimal_eq_token.1 h
    exact .hexadecimal (.inl rfl) hne hds hend
  · obtain ⟨ds, rfl, rfl, -, hne, hds, hend⟩ := readHexadecimal_eq_token.1 h
    exact .hexadecimal (.inr rfl) hne hds hend
  · obtain ⟨ds, rfl, rfl, -, hne, hds, hend⟩ := readBinary_eq_token.1 h
    exact .binary (.inl rfl) hne hds hend
  · obtain ⟨ds, rfl, rfl, -, hne, hds, hend⟩ := readBinary_eq_token.1 h
    exact .binary (.inr rfl) hne hds hend
  · obtain ⟨n, rfl, hrun, -, hend, hdot⟩ := (readDotted_eq_token hd).1 h
    exact .dotted hrun hend hdot

/-! ## Strings and comments -/

section

variable {kind : TokenKind} {cs text rest : List Char}

theorem readString_eq_token : Courier.Lexeme.readString cs = .token kind text rest ↔
    ∃ body, kind = .stringLiteral ∧ text = '"' :: (body ++ ['"']) ∧ cs = body ++ '"' :: rest ∧ '"' ∉ body := by
  unfold Courier.Lexeme.readString
  constructor
  · intro h
    split at h
    · nomatch h
    · rename_i q r hdrop
      obtain ⟨rfl, rfl, rfl⟩ := Courier.Lexeme.token.inj h
      obtain rfl : q = '"' := by
        have hq : (!Text.isQuote q) = false := head?_dropWhile_imp (by rw [hdrop]; rfl)
        simpa [Text.isQuote] using hq
      refine ⟨_, rfl, rfl, ?_, fun hmem => ?_⟩
      · rw [← hdrop, List.takeWhile_append_dropWhile]
      · have hno := List.mem_takeWhile_imp hmem
        simp [Text.isQuote] at hno
  · rintro ⟨body, rfl, rfl, rfl, hbody⟩
    have hrun : ∀ c ∈ body, (!Text.isQuote c) = true := by
      intro c hc
      have hne : c ≠ '"' := fun h => hbody (h ▸ hc)
      simp [Text.isQuote, hne]
    have hstop : ∀ c ∈ ('"' :: rest).head?, (!Text.isQuote c) = false := by simp [Text.isQuote]
    obtain ⟨htake, hdrop⟩ := takeWhile_run hrun hstop
    rw [hdrop, htake]

theorem closeComment_eq_some {text : List Char} : Courier.Lexeme.closeComment cs = some (text, rest) ↔
    ∃ body, text = body ++ ['}', '#'] ∧ cs = body ++ '}' :: '#' :: rest ∧ ¬['}', '#'] <:+: body := by
  induction cs generalizing text with
  | nil => simp [Courier.Lexeme.closeComment]
  | cons c cs ih =>
    by_cases hclose : c = '}' ∧ cs.head? = some '#'
    · obtain ⟨rfl, hhead⟩ := hclose
      obtain ⟨r, rfl⟩ := List.head?_eq_some_iff.1 hhead
      rw [Courier.Lexeme.closeComment, Option.some.injEq, Prod.mk.injEq]
      constructor
      · rintro ⟨rfl, rfl⟩
        exact ⟨[], rfl, rfl, by simp⟩
      · rintro ⟨body, rfl, happ, hbody⟩
        cases body with
        | nil => simpa using happ
        | cons x body =>
          obtain ⟨rfl, htail⟩ := List.cons.inj happ
          cases body with
          | nil => exact absurd (List.cons.inj htail).1 (by decide)
          | cons y body =>
            obtain ⟨rfl, -⟩ := List.cons.inj htail
            exact absurd ⟨[], body, rfl⟩ hbody
    · have hstep : Courier.Lexeme.closeComment (c :: cs) =
          (Courier.Lexeme.closeComment cs).map (fun found => (c :: found.1, found.2)) := by
        rw [Courier.Lexeme.closeComment]
        rintro r rfl rfl
        exact hclose ⟨rfl, rfl⟩
      rw [hstep]
      simp only [Option.map_eq_some_iff, Prod.mk.injEq, Prod.exists]
      constructor
      · rintro ⟨text', rest', h, rfl, rfl⟩
        obtain ⟨body, rfl, rfl, hbody⟩ := ih.1 h
        refine ⟨c :: body, rfl, rfl, fun hinfix => ?_⟩
        rcases List.infix_cons_iff.1 hinfix with hprefix | hinfix
        · obtain ⟨r, hr⟩ := hprefix
          obtain ⟨hc, htail⟩ := List.cons.inj hr
          exact hclose ⟨hc.symm, by rw [← htail]; rfl⟩
        · exact hbody hinfix
      · rintro ⟨body, rfl, happ, hbody⟩
        cases body with
        | nil =>
          obtain ⟨rfl, rfl⟩ := List.cons.inj happ
          exact absurd ⟨rfl, rfl⟩ hclose
        | cons x body =>
          obtain ⟨rfl, rfl⟩ := List.cons.inj happ
          exact ⟨_, _, ih.2 ⟨body, rfl, rfl, fun h => hbody (List.infix_cons_iff.2 (.inr h))⟩, rfl, rfl⟩

theorem readBlockComment_eq_token : Courier.Lexeme.readBlockComment cs = .token kind text rest ↔
    ∃ body, kind = .blockComment ∧ text = '#' :: '{' :: (body ++ ['}', '#']) ∧ cs = body ++ '}' :: '#' :: rest ∧
      ¬['}', '#'] <:+: body := by
  unfold Courier.Lexeme.readBlockComment
  constructor
  · intro h
    split at h
    · rename_i hclose
      obtain ⟨rfl, rfl, rfl⟩ := Courier.Lexeme.token.inj h
      obtain ⟨body, rfl, hcs, hbody⟩ := closeComment_eq_some.1 hclose
      exact ⟨body, rfl, rfl, hcs, hbody⟩
    · nomatch h
  · rintro ⟨body, rfl, rfl, hcs, hbody⟩
    rw [closeComment_eq_some.2 ⟨body, rfl, hcs, hbody⟩]

/-- A line comment is read up to its line feed, without one carriage return in front of that. -/
theorem readLineComment_eq_token : Courier.Lexeme.readLineComment cs = .token kind text rest ↔
    ∃ body returns r, kind = .lineComment ∧ text = '#' :: body ∧ rest = returns ++ r ∧ cs = body ++ (returns ++ r) ∧
      '\n' ∉ body ∧ (returns = ['\r'] ∨ returns = [] ∧ body.getLast? ≠ some '\r') ∧ (r = [] ∨ r.head? = some '\n') := by
  unfold Courier.Lexeme.readLineComment
  simp only
  constructor
  · intro h
    have happ := List.takeWhile_append_dropWhile (p := (· != '\n')) (l := cs)
    have hbody : '\n' ∉ cs.takeWhile (· != '\n') := fun hmem => by simpa using List.mem_takeWhile_imp hmem
    have hrest : cs.dropWhile (· != '\n') = [] ∨ (cs.dropWhile (· != '\n')).head? = some '\n' := by
      cases hhead : (cs.dropWhile (· != '\n')).head? with
      | none => exact .inl (List.head?_eq_none_iff.1 hhead)
      | some c =>
        have hc := head?_dropWhile_imp (p := (· != '\n')) hhead
        exact .inr (by simpa using hc)
    split at h
    · rename_i hlast
      obtain ⟨rfl, rfl, rfl⟩ := Courier.Lexeme.token.inj h
      obtain ⟨body, hbodyEq⟩ := List.getLast?_eq_some_iff.1 hlast
      rw [hbodyEq] at happ hbody
      rw [hbodyEq, List.dropLast_concat]
      refine ⟨body, ['\r'], _, rfl, rfl, rfl, ?_, fun hmem => hbody (by simp [hmem]), .inl rfl, hrest⟩
      rw [← List.append_assoc]
      exact happ.symm
    · rename_i hlast
      obtain ⟨rfl, rfl, rfl⟩ := Courier.Lexeme.token.inj h
      exact ⟨_, [], _, rfl, rfl, rfl, happ.symm, hbody, .inr ⟨rfl, hlast⟩, hrest⟩
  · rintro ⟨body, returns, r, rfl, rfl, rfl, rfl, hbody, hreturns, hr⟩
    have hrun : ∀ c ∈ body ++ returns, (c != '\n') = true := by
      intro c hc
      rcases List.mem_append.1 hc with hc | hc
      · simpa using fun h : c = '\n' => hbody (h ▸ hc)
      · rcases hreturns with rfl | ⟨rfl, -⟩
        · rw [List.mem_singleton.1 hc]
          decide
        · nomatch hc
    have hstop : ∀ c ∈ r.head?, (c != '\n') = false := by
      intro c hc
      rcases hr with rfl | hr
      · nomatch hc
      · rw [Option.mem_unique hc hr]
        decide
    obtain ⟨htake, hdrop⟩ := takeWhile_run hrun hstop
    rw [← List.append_assoc, htake, hdrop]
    rcases hreturns with rfl | ⟨rfl, hlast⟩
    · rw [if_pos (by simp), List.dropLast_concat]
      rfl
    · rw [List.append_nil, if_neg hlast]
      rfl

end

/-! ## Every lexeme -/

theorem ofChar?_eq_some {c : Char} {kind : TokenKind} : TokenKind.ofChar? c = some kind ↔ (c, kind) ∈ singles := by
  constructor
  · intro h
    unfold TokenKind.ofChar? at h
    split at h <;> first | (obtain rfl := Option.some.inj h; decide) | simp at h
  · intro h
    have hall : ∀ entry ∈ singles, TokenKind.ofChar? entry.1 = some entry.2 := by decide
    exact hall _ h

/-- What is a token of its own begins none of the longer lexemes. -/
theorem plain_of_mem_singles {c : Char} {kind : TokenKind} (h : (c, kind) ∈ singles) : Text.isLetter c = false ∧
    Text.isDigit c = false ∧ Text.isQuote c = false ∧ Text.isCommentMark c = false ∧ c ≠ ':' := by
  have hall : ∀ entry ∈ singles, Text.isLetter entry.1 = false ∧ Text.isDigit entry.1 = false ∧
      Text.isQuote entry.1 = false ∧ Text.isCommentMark entry.1 = false ∧ entry.1 ≠ ':' := by decide
  exact hall _ h

theorem Digit.not_letter {c : Char} (h : Digit c) : Text.isLetter c = false := by
  rw [Bool.eq_false_iff, Ne, isLetter_iff]
  obtain ⟨hlow, hhigh⟩ := h
  rintro (⟨ha, -⟩ | ⟨ha, -⟩ | rfl)
  · exact absurd (Char.le_trans ha hhigh) (by decide)
  · exact absurd (Char.le_trans ha hhigh) (by decide)
  · exact absurd hhigh (by decide)

theorem read_digit {d : Char} (hd : Digit d) (cs : List Char) :
    Courier.Lexeme.read d cs = Courier.Lexeme.readNumber (d :: cs) := by
  unfold Courier.Lexeme.read
  rw [hd.not_letter, isDigit_iff.2 hd]
  rfl

variable {c : Char} {cs text rest : List Char} {kind : TokenKind}

/-- What is read is a lexeme. -/
theorem isLexeme_of_read (h : Courier.Lexeme.read c cs = .token kind text rest) : IsLexeme kind text rest := by
  unfold Courier.Lexeme.read at h
  split at h
  · rename_i hc
    exact isLexeme_of_readWord (isLetter_iff.1 hc) h
  split at h
  · rename_i hc
    exact isLexeme_of_readNumber (isDigit_iff.1 hc) h
  split at h
  · obtain ⟨body, rfl, rfl, -, hbody⟩ := readString_eq_token.1 h
    exact .string hbody
  split at h
  · unfold Courier.Lexeme.readComment at h
    split at h
    · obtain ⟨body, rfl, rfl, -, hbody⟩ := readBlockComment_eq_token.1 h
      exact .blockComment hbody
    · rename_i hmark
      obtain ⟨body, returns, r, rfl, rfl, rfl, rfl, hbody, hreturns, hr⟩ := readLineComment_eq_token.1 h
      refine .lineComment hbody hreturns hr (fun hhead => ?_)
      obtain ⟨x, hx⟩ := List.head?_eq_some_iff.1 hhead
      exact hmark x hx
  split at h
  · unfold Courier.Lexeme.readColon at h
    split at h
    · obtain ⟨rfl, rfl, rfl⟩ := Courier.Lexeme.token.inj h
      exact .assignment
    · nomatch h
    · rename_i hequals hcolon
      obtain ⟨rfl, rfl, rfl⟩ := Courier.Lexeme.token.inj h
      refine .colon ⟨fun hhead => ?_, fun hhead => ?_⟩
      · obtain ⟨x, hx⟩ := List.head?_eq_some_iff.1 hhead
        exact hequals x hx
      · obtain ⟨x, hx⟩ := List.head?_eq_some_iff.1 hhead
        exact hcolon x hx
  · unfold Courier.Lexeme.readSingle at h
    split at h
    · rename_i k hk
      obtain ⟨rfl, rfl, rfl⟩ := Courier.Lexeme.token.inj h
      exact .single (ofChar?_eq_some.1 hk)
    · nomatch h

/-- A lexeme at the front of a text is read. -/
theorem read_eq_token (h : IsLexeme kind text rest) (happ : c :: cs = text ++ rest) :
    Courier.Lexeme.read c cs = .token kind text rest := by
  cases h with
  | word hc hcs hkind hend =>
    obtain ⟨rfl, rfl⟩ := List.cons.inj happ
    unfold Courier.Lexeme.read
    rw [isLetter_iff.2 hc]
    exact readWord_eq hc hcs hkind hend
  | hexadecimal hx hne hds hend =>
    obtain ⟨rfl, rfl⟩ := List.cons.inj happ
    rw [read_digit (isDigit_iff.1 (by decide))]
    rcases hx with rfl | rfl <;> exact readHexadecimal_eq_token.2 ⟨_, rfl, rfl, rfl, hne, hds, hend⟩
  | binary hx hne hds hend =>
    obtain ⟨rfl, rfl⟩ := List.cons.inj happ
    rw [read_digit (isDigit_iff.1 (by decide))]
    rcases hx with rfl | rfl <;> exact readBinary_eq_token.2 ⟨_, rfl, rfl, rfl, hne, hds, hend⟩
  | dotted hrun hend hdot =>
    obtain ⟨d, ds, rfl, hd⟩ := hrun.head
    obtain rfl : c = d := (List.cons.inj happ).1
    rw [read_digit hd, readNumber_dotted hrun hend happ]
    exact (readDotted_eq_token hd).2 ⟨_, rfl, hrun, happ, hend, hdot⟩
  | string hbody =>
    obtain ⟨rfl, rfl⟩ := List.cons.inj happ
    exact readString_eq_token.2 ⟨_, rfl, rfl, by simp, hbody⟩
  | assignment =>
    obtain ⟨rfl, rfl⟩ := List.cons.inj happ
    rfl
  | colon hrest =>
    obtain ⟨rfl, rfl⟩ := List.cons.inj happ
    have hread : Courier.Lexeme.readColon cs = .token .colon [':'] cs := by
      unfold Courier.Lexeme.readColon
      split
      · exact absurd rfl hrest.1
      · exact absurd rfl hrest.2
      · rfl
    exact hread
  | blockComment hbody =>
    obtain ⟨rfl, rfl⟩ := List.cons.inj happ
    exact readBlockComment_eq_token.2 ⟨_, rfl, rfl, by simp, hbody⟩
  | @lineComment body returns r hbody hreturns hr hmark =>
    obtain ⟨rfl, rfl⟩ := List.cons.inj happ
    have hread : Courier.Lexeme.readComment (body ++ (returns ++ r)) =
        Courier.Lexeme.readLineComment (body ++ (returns ++ r)) := by
      unfold Courier.Lexeme.readComment
      split
      · rename_i heq
        rw [heq] at hmark
        exact absurd rfl hmark
      · rfl
    refine Eq.trans hread (readLineComment_eq_token.2 ⟨body, returns, r, rfl, rfl, rfl, rfl, hbody, hreturns, hr⟩)
  | single hc =>
    obtain ⟨rfl, rfl⟩ := List.cons.inj happ
    obtain ⟨hletter, hdigit, hquote, hcomment, hcolon⟩ := plain_of_mem_singles hc
    unfold Courier.Lexeme.read Courier.Lexeme.readSingle
    rw [hletter, hdigit, hquote, hcomment, ofChar?_eq_some.2 hc]
    simp [hcolon]

/-- No lexeme begins with a blank. -/
theorem not_blank_of_read (h : Courier.Lexeme.read c cs = .token kind text rest) : Text.isBlank c = false := by
  rw [Bool.eq_false_iff, Ne, isBlank_iff]
  intro hc
  simp only [Blank, List.mem_cons, List.not_mem_nil, or_false] at hc
  rcases hc with rfl | rfl | rfl | rfl | rfl | rfl <;> nomatch h

end Courier.Lexical
