import Courier.Proofs.Lexical.Readers
import Courier.Proofs.Text.Bytes
import Courier.Token.Scan.Lemmas
import Courier.Token.Stream

/-!
# Tokens lose nothing of the text

`Laid p cs ts` says that a text from the place `p` on is blanks and the texts of the tokens `ts`, each at its own place; a scan lays out
every text that it cuts (`laid_of_tokensFrom`). What is then known of bytes is put together in `Lossless`: no span is empty, spans
lie on the boundaries of characters, follow each other and do not meet, and a byte outside all of them is a blank
(`Stream.lossless_of_tokenize`).
-/

namespace Courier

open Lexical

/-- The bytes of the blanks: space, tab, line feed, carriage return, vertical tab, form feed. -/
def Text.blankBytes : List UInt8 :=
  [32, 9, 10, 13, 11, 12]

/-- The byte at an offset belongs to the token. -/
def Token.Holds (t : Token) (i : Nat) : Prop :=
  t.spanStart ≤ i ∧ i < t.spanEnd

/-- A text from a place on is blanks and tokens, in this order and nothing else. -/
inductive Laid : Location → List Char → List Token → Prop where
  | nil {p : Location} : Laid p [] []
  | blank {p : Location} {c : Char} {cs : List Char} {ts : List Token} (hc : Blank c) (h : Laid (p.next c) cs ts) :
      Laid p (c :: cs) ts
  | token {t : Token} {rest : List Char} {ts : List Token} (hne : t.text.toList ≠ [])
      (h : Laid (t.location.after t.text.toList) rest ts) : Laid t.location (t.text.toList ++ rest) (t :: ts)

/-- A scan lays its text out. -/
theorem laid_of_tokensFrom {p : Location} {cs : List Char} {ts : List Token} (h : tokensFrom p cs = .ok ts) : Laid p cs ts := by
  refine tokensFrom_induction (P := Laid) ?_ ?_ ?_ h
  · exact fun _ => .nil
  · exact fun p c cs ts hblank hrest => .blank (isBlank_iff.1 hblank) hrest
  · intro p c cs kind text rest ts _ hcovers hne hrest
    have htext : (String.ofList text).toList = text := String.toList_ofList
    rw [← hcovers]
    have hlaid := @Laid.token ⟨kind, String.ofList text, p⟩ rest ts
    simp only [htext] at hlaid
    exact hlaid hne hrest

/-- Every token of a text was read at its first character. -/
theorem exists_read_of_tokensFrom {p : Location} {cs : List Char} {ts : List Token} (h : tokensFrom p cs = .ok ts) :
    ∀ t ∈ ts, ∃ c text rest, t.text.toList = c :: text ∧ Lexeme.read c (text ++ rest) = .token t.kind (c :: text) rest := by
  refine tokensFrom_induction (P := fun _ _ ts => ∀ t ∈ ts, ∃ c text rest, t.text.toList = c :: text ∧
    Lexeme.read c (text ++ rest) = .token t.kind (c :: text) rest) ?_ ?_ ?_ h
  · exact fun _ _ ht => nomatch ht
  · exact fun _ _ _ _ _ ih => ih
  · intro p c cs kind text rest ts hread hcovers hne ih t ht
    rcases List.mem_cons.1 ht with rfl | ht
    · obtain ⟨d, ds, rfl⟩ := List.exists_cons_of_ne_nil hne
      obtain ⟨rfl, rfl⟩ := List.cons.inj hcovers
      exact ⟨d, ds, rest, String.toList_ofList, hread⟩
    · exact ih t ht

/-- The stream of a text holds the text and the tokens it is laid out in. -/
theorem Stream.laid_of_tokenize {file text : String} {s : Stream} (h : Stream.tokenize file text = .ok s) :
    s.source = text ∧ s.cursor = .ofList s.tokens ∧ s.saved = none ∧ Laid .start text.toList s.tokens := by
  obtain ⟨ts, hts, rfl⟩ := Stream.tokenize_eq_ok.1 h
  exact ⟨rfl, rfl, rfl, laid_of_tokensFrom hts⟩

/-- A token of a stream starts with a character that is no blank. -/
theorem Stream.exists_first_of_tokenize {file text : String} {s : Stream} (h : Stream.tokenize file text = .ok s) {t : Token}
    (ht : t ∈ s.tokens) : ∃ c rest, t.text.toList = c :: rest ∧ Text.isBlank c = false := by
  obtain ⟨ts, hts, rfl⟩ := Stream.tokenize_eq_ok.1 h
  obtain ⟨c, cs, rest, hchars, hread⟩ := exists_read_of_tokensFrom hts t ht
  exact ⟨c, cs, hchars, not_blank_of_read hread⟩

/-- A token of a stream is a lexeme. -/
theorem Stream.isLexeme_of_tokenize {file text : String} {s : Stream} (h : Stream.tokenize file text = .ok s) {t : Token}
    (ht : t ∈ s.tokens) : ∃ rest, IsLexeme t.kind t.text.toList rest := by
  obtain ⟨ts, hts, rfl⟩ := Stream.tokenize_eq_ok.1 h
  obtain ⟨c, cs, rest, hchars, hread⟩ := exists_read_of_tokensFrom hts t ht
  exact ⟨rest, hchars ▸ isLexeme_of_read hread⟩

/-- The bytes of a blank character are blank. -/
theorem mem_blankBytes {c : Char} (hc : Blank c) {b : UInt8} (hb : b ∈ String.utf8EncodeChar c) : b ∈ Text.blankBytes := by
  have hall : [' ', '\t', '\n', '\r', '\x0b', '\x0c'].all
      (fun d => (String.utf8EncodeChar d).all (fun x => Text.blankBytes.contains x)) = true := by decide
  have hc' := List.all_eq_true.1 hall c hc
  exact List.contains_iff_mem.1 (List.all_eq_true.1 hc' b hb)

namespace Laid

variable {p : Location} {cs : List Char} {ts : List Token}

/-- Each token stands in the text, at the place behind all that is before it. -/
theorem split (h : Laid p cs ts) {t : Token} (ht : t ∈ ts) :
    ∃ before after, cs = before ++ (t.text.toList ++ after) ∧ t.location = p.after before := by
  induction h with
  | nil => nomatch ht
  | @blank p c cs ts _ _ ih =>
    obtain ⟨before, after, rfl, hplace⟩ := ih ht
    exact ⟨c :: before, after, rfl, hplace⟩
  | @token u rest ts _ _ ih =>
    rcases List.mem_cons.1 ht with rfl | ht
    · exact ⟨[], rest, rfl, rfl⟩
    · obtain ⟨before, after, rfl, hplace⟩ := ih ht
      exact ⟨u.text.toList ++ before, after, by rw [List.append_assoc], by rw [hplace, Location.after_append]⟩

theorem offset_le (h : Laid p cs ts) {t : Token} (ht : t ∈ ts) : p.offset ≤ t.spanStart := by
  obtain ⟨before, -, -, hplace⟩ := h.split ht
  rw [Token.spanStart, hplace, Text.offset_after]
  exact Nat.le_add_right _ _

theorem spanStart_lt (h : Laid p cs ts) {t : Token} (ht : t ∈ ts) : t.spanStart < t.spanEnd := by
  induction h with
  | nil => nomatch ht
  | blank _ _ ih => exact ih ht
  | @token u rest ts hne _ ih =>
    rcases List.mem_cons.1 ht with rfl | ht
    · obtain ⟨c, cs, hcs⟩ := List.exists_cons_of_ne_nil hne
      have hpos := c.utf8Size_pos
      rw [Token.spanEnd, Token.byteLength, hcs, Text.byteLength]
      omega
    · exact ih ht

/-- Each token ends before the next one starts. -/
theorem pairwise (h : Laid p cs ts) : ts.Pairwise (fun t u => t.spanEnd ≤ u.spanStart) := by
  induction h with
  | nil => exact .nil
  | blank _ _ ih => exact ih
  | @token t rest ts _ hrest ih =>
    refine List.pairwise_cons.2 ⟨fun u hu => ?_, ih⟩
    have hle := hrest.offset_le hu
    rw [Text.offset_after] at hle
    exact hle

/-- No two tokens start at one place. -/
theorem pairwise_location_ne (h : Laid p cs ts) : ts.Pairwise (fun t u => t.location ≠ u.location) := by
  refine h.pairwise.imp_of_mem (fun {t u} ht _ hle heq => ?_)
  have hlt := h.spanStart_lt ht
  rw [Token.spanStart, heq] at hlt
  exact absurd hle (Nat.not_le.2 hlt)

/-- No token starts at the end of the text. -/
theorem location_ne_after (h : Laid p cs ts) {t : Token} (ht : t ∈ ts) : t.location ≠ p.after cs := by
  intro heq
  have hlt := h.spanStart_lt ht
  obtain ⟨before, after, rfl, hplace⟩ := h.split ht
  have hoffset := congrArg Location.offset (hplace.symm.trans heq)
  rw [Text.offset_after, Text.offset_after, Text.byteLength_append, Text.byteLength_append] at hoffset
  rw [Token.spanEnd, Token.byteLength] at hlt
  omega

/-- The text is a gap, and then each token and the gap behind it. -/
theorem rebuild (h : Laid p cs ts) : ∃ gap gaps, gaps.length = ts.length ∧ (∀ c ∈ gap, Blank c) ∧ (∀ g ∈ gaps, ∀ c ∈ g, Blank c) ∧
    cs = gap ++ (List.zipWith (fun t g => t.text.toList ++ g) ts gaps).flatten := by
  induction h with
  | nil => exact ⟨[], [], rfl, by simp, by simp, rfl⟩
  | @blank p c cs ts hc _ ih =>
    obtain ⟨gap, gaps, hlen, hgap, hgaps, rfl⟩ := ih
    exact ⟨c :: gap, gaps, hlen, List.forall_mem_cons.2 ⟨hc, hgap⟩, hgaps, rfl⟩
  | @token t rest ts _ _ ih =>
    obtain ⟨gap, gaps, hlen, hgap, hgaps, rfl⟩ := ih
    refine ⟨[], gap :: gaps, by rw [List.length_cons, List.length_cons, hlen], by simp, List.forall_mem_cons.2 ⟨hgap, hgaps⟩, ?_⟩
    rw [List.zipWith_cons_cons, List.flatten_cons, List.nil_append, List.append_assoc]

/-- A byte that belongs to no token is a blank. -/
theorem blank_of_not_holds (h : Laid p cs ts) {i : Nat} {b : UInt8} (hb : (Text.bytes cs)[i]? = some b)
    (hout : ∀ t ∈ ts, ¬t.Holds (p.offset + i)) : b ∈ Text.blankBytes := by
  induction h generalizing i with
  | nil => nomatch hb
  | @blank p c cs ts hc _ ih =>
    rw [Text.bytes_cons] at hb
    by_cases hlt : i < (String.utf8EncodeChar c).length
    · rw [List.getElem?_append_left hlt] at hb
      exact mem_blankBytes hc (List.mem_of_getElem? hb)
    · rw [List.getElem?_append_right (Nat.not_lt.1 hlt), String.length_utf8EncodeChar] at hb
      rw [String.length_utf8EncodeChar] at hlt
      refine ih hb (fun t ht => ?_)
      have hnext : (p.next c).offset = p.offset + c.utf8Size := by
        have hoff := Text.offset_after p [c]
        simpa [Text.byteLength] using hoff
      rw [hnext, show p.offset + c.utf8Size + (i - c.utf8Size) = p.offset + i by omega]
      exact hout t ht
  | @token t rest ts _ _ ih =>
    rw [Text.bytes_append] at hb
    by_cases hlt : i < (Text.bytes t.text.toList).length
    · rw [Text.length_bytes] at hlt
      exact absurd ⟨Nat.le_add_right _ _, Nat.add_lt_add_left hlt _⟩ (hout t List.mem_cons_self)
    · rw [List.getElem?_append_right (Nat.not_lt.1 hlt), Text.length_bytes] at hb
      rw [Text.length_bytes] at hlt
      refine ih hb (fun u hu => ?_)
      rw [Text.offset_after, Nat.add_assoc, Nat.add_sub_cancel' (Nat.not_lt.1 hlt)]
      exact hout u (List.mem_cons_of_mem t hu)

/-- Tokens that hold one byte are one token. -/
theorem index_unique (h : Laid p cs ts) {n m i : Nat} {t u : Token} (ht : ts[n]? = some t) (hu : ts[m]? = some u) (hti : t.Holds i)
    (hui : u.Holds i) : n = m := by
  have hdisjoint : ∀ {n m : Nat} {t u : Token}, ts[n]? = some t → ts[m]? = some u → t.Holds i → u.Holds i → ¬n < m := by
    intro n m t u ht hu hti hui hlt
    obtain ⟨hn, rfl⟩ := List.getElem?_eq_some_iff.1 ht
    obtain ⟨hm, rfl⟩ := List.getElem?_eq_some_iff.1 hu
    have hle := List.pairwise_iff_getElem.1 h.pairwise n m hn hm hlt
    have hend := hti.2
    have hstart := hui.1
    omega
  rcases Nat.lt_trichotomy n m with hlt | heq | hlt
  · exact absurd hlt (hdisjoint ht hu hti hui)
  · exact heq
  · exact absurd hlt (hdisjoint hu ht hui hti)

end Laid

/-! ## The bytes of a text -/

/-- Nothing of a text is lost in its tokens. -/
structure Lossless (text : String) (ts : List Token) : Prop where
  /-- No token is empty. -/
  nonempty : ∀ t ∈ ts, t.spanStart < t.spanEnd
  /-- A token starts and ends inside the text and between two characters. -/
  boundaries : ∀ t ∈ ts, (⟨t.spanStart⟩ : String.Pos.Raw).IsValid text ∧ (⟨t.spanEnd⟩ : String.Pos.Raw).IsValid text ∧
    t.spanEnd ≤ text.utf8ByteSize
  /-- The text of a token is what the source has there. -/
  sliced : ∀ t ∈ ts, ∃ before after, text = before ++ t.text ++ after ∧ before.utf8ByteSize = t.spanStart
  /-- Each token ends before the next one starts. -/
  ordered : ts.Pairwise (fun t u => t.spanEnd ≤ u.spanStart)
  /-- What is outside all tokens is blank. -/
  outside : ∀ i b, text.toUTF8[i]? = some b → (∀ t ∈ ts, ¬t.Holds i) → b ∈ Text.blankBytes
  /-- Every byte that is no blank belongs to one token and to no other. -/
  inside : ∀ i b, text.toUTF8[i]? = some b → b ∉ Text.blankBytes → ∃! n : Nat, ∃ t : Token, ts[n]? = some t ∧ t.Holds i
  /-- The texts of the tokens with blank gaps between them are the text. -/
  rebuilt : ∃ gap gaps, gaps.length = ts.length ∧ (∀ c ∈ gap, Blank c) ∧ (∀ g ∈ gaps, ∀ c ∈ g, Blank c) ∧
    text.toList = gap ++ (List.zipWith (fun t g => t.text.toList ++ g) ts gaps).flatten

/-- A token of a text that is laid out from its start is a slice of it. -/
theorem Laid.sliced {text : String} {ts : List Token} (h : Laid .start text.toList ts) {t : Token} (ht : t ∈ ts) :
    ∃ before after, text = before ++ t.text ++ after ∧ before.utf8ByteSize = t.spanStart := by
  obtain ⟨before, after, hcs, hplace⟩ := h.split ht
  refine ⟨String.ofList before, String.ofList after, ?_, ?_⟩
  · rw [← String.toList_inj, String.toList_append, String.toList_append, String.toList_ofList, String.toList_ofList, hcs,
      List.append_assoc]
  · rw [Token.spanStart, hplace, Text.offset_after, Text.utf8ByteSize_eq, String.toList_ofList]
    exact (Nat.zero_add _).symm

/-- The tokens of every text that can be cut lose nothing of it. -/
theorem Stream.lossless_of_tokenize {file text : String} {s : Stream} (h : Stream.tokenize file text = .ok s) :
    Lossless text s.tokens := by
  obtain ⟨-, -, -, hlaid⟩ := Stream.laid_of_tokenize h
  have hbytes : ∀ i b, text.toUTF8[i]? = some b → (Text.bytes text.toList)[i]? = some b :=
    fun i b hb => by rw [← Text.getElem?_toUTF8, hb]
  have houtside : ∀ i b, text.toUTF8[i]? = some b → (∀ t ∈ s.tokens, ¬t.Holds i) → b ∈ Text.blankBytes := by
    intro i b hb hout
    refine hlaid.blank_of_not_holds (hbytes i b hb) (fun t ht => ?_)
    rw [show Location.start.offset + i = i from Nat.zero_add i]
    exact hout t ht
  refine ⟨fun t ht => hlaid.spanStart_lt ht, ?_, fun t ht => hlaid.sliced ht, hlaid.pairwise, houtside, ?_, hlaid.rebuild⟩
  · intro t ht
    obtain ⟨before, after, htext, hstart⟩ := hlaid.sliced ht
    have hend : (before ++ t.text).utf8ByteSize = t.spanEnd := by
      rw [String.utf8ByteSize_append, hstart, Text.utf8ByteSize_eq, Token.spanEnd, Token.byteLength]
    have hvalid : (⟨t.spanEnd⟩ : String.Pos.Raw).IsValid text :=
      String.Pos.Raw.isValid_iff_exists_append.2 ⟨before ++ t.text, after, htext, by rw [← hend]; rfl⟩
    refine ⟨String.Pos.Raw.isValid_iff_exists_append.2 ⟨before, t.text ++ after, ?_, by rw [← hstart]; rfl⟩, hvalid,
      hvalid.le_utf8ByteSize⟩
    rw [htext, String.append_assoc]
  · intro i b hb hblank
    have hsome : ∃ t ∈ s.tokens, t.Holds i := by
      by_contra hnone
      exact hblank (houtside i b hb (fun t ht hti => hnone ⟨t, ht, hti⟩))
    obtain ⟨t, ht, hti⟩ := hsome
    obtain ⟨n, hn⟩ := List.getElem?_of_mem ht
    exact ⟨n, ⟨t, hn, hti⟩, fun m ⟨u, hu, hui⟩ => hlaid.index_unique hu hn hui hti⟩

theorem Stream.lossless_of_tokenize_string : ∃ s, Stream.tokenize "unit" "x := \"é\ny\"; # é\r\n" = .ok s ∧
    Lossless "x := \"é\ny\"; # é\r\n" s.tokens := by
  have hok : (Stream.tokenize "unit" "x := \"é\ny\"; # é\r\n").isOk = true := by decide +kernel
  cases hs : Stream.tokenize "unit" "x := \"é\ny\"; # é\r\n" with
  | ok s => exact ⟨s, rfl, Stream.lossless_of_tokenize hs⟩
  | error e =>
    rw [hs] at hok
    nomatch hok

end Courier
