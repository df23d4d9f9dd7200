import Courier.Proofs.Lexical.Positions
import Courier.Proofs.Syntax.Paced
import Courier.Proofs.Syntax.Soundness
import Mathlib.Data.List.Nodup

/-!
# Where a parse fails

A parse fails at the first token that no unit goes on with. What stands before the place of the failure starts a unit
(`leaves_unit_parse`), and the run passes every beginning of the tokens that starts a unit, because it keeps pace with the run on a
unit that begins so (`beyond_of_starts`). Two places of a text that was cut into tokens are told apart, so the place of a failure
gives the tokens that stand before it (`BreaksAt`).
-/

namespace Courier

namespace Syntax

open Courier.Parser

/-- A failure blames only what stands behind the tokens that start a unit. -/
theorem beyond_of_starts {s : Stream} {room : Nat} {trace : Bool} {e : ParseError} (h : (s.parseWithin room trace).1 = .error e)
    (hdeep : e.fault ≠ .nestedTooDeeply) {c x : List Token} (hsplit : significant s.tokens = c ++ x)
    (hc : Starts (.symbol .unit) c) : ∃ v, e.Blames s.source v ∧ v <:+ x := by
  obtain ⟨u, hu⟩ := hc
  obtain ⟨t, ht⟩ := parseWithin_eq_error.1 h
  have htakes : Takes Deep (Rule.unit.parse room) (c ++ u) [] :=
    (accepts_parse room _).form (r := .unit) rfl hu rfl (Nat.lt_succ_self _)
  have hplain : ∀ t ∈ c ++ (u ++ []), t.isComment = false := by
    rw [List.append_nil]
    exact isComment_of_spells hu
  have hclears := clears_of_takes ((paced_parse room).rule .unit) htakes hplain (s := .initial s trace) rfl hsplit
  exact (hclears.error ht).resolve_left hdeep

end Syntax

/-! ## Places -/

/-- The tokens from one of them on are known by it, if no token is there twice. -/
theorem suffix_cons_inj {ts v v' : List Token} {t : Token} (h : ts.Nodup) (hv : t :: v <:+ ts) (hv' : t :: v' <:+ ts) :
    t :: v = t :: v' := by
  have hinside : ∀ {v v' : List Token}, t :: v' <:+ ts → t :: v <:+ t :: v' → t :: v = t :: v' := by
    intro v v' hv' hsuffix
    rcases List.suffix_cons_iff.1 hsuffix with heq | hlater
    · exact heq
    · exact absurd (hlater.subset List.mem_cons_self) (List.nodup_cons.1 (h.sublist hv'.sublist)).1
  rcases List.suffix_or_suffix_of_suffix hv hv' with hle | hle
  · exact hinside hv' hle
  · exact (hinside hv hle).symm

theorem Laid.nodup_location {p : Location} {cs : List Char} {ts : List Token} (h : Laid p cs ts) : (ts.map Token.location).Nodup :=
  List.pairwise_map.2 h.pairwise_location_ne

section

variable {text : String} {ts v v' : List Token} (h : Laid .start text.toList ts) (hv : v <:+ significant ts)

include h hv

/-- A token that stands where some of the last tokens begin is the first of them. -/
theorem Laid.exists_cons_of_placeIn {t : Token} (ht : t ∈ ts) (hplace : placeIn text v = t.location) : ∃ v', v = t :: v' := by
  cases v with
  | nil =>
    have hne := h.location_ne_after ht
    rw [Location.after_start_eq] at hne
    exact absurd hplace.symm hne
  | cons t' v' =>
    have hmem : t' ∈ ts := List.mem_of_mem_filter (hv.subset List.mem_cons_self)
    exact ⟨v', by rw [List.inj_on_of_nodup_map h.nodup_location hmem ht hplace]⟩

/-- The place of some of the last tokens tells which they are. -/
theorem Laid.placeIn_inj (hv' : v' <:+ significant ts) (hplace : placeIn text v = placeIn text v') : v = v' := by
  cases v' with
  | nil =>
    cases v with
    | nil => rfl
    | cons t v =>
      obtain ⟨u, hu⟩ := h.exists_cons_of_placeIn hv' (List.mem_of_mem_filter (hv.subset List.mem_cons_self)) hplace.symm
      nomatch hu
  | cons t' v' =>
    have ht' : t' ∈ ts := List.mem_of_mem_filter (hv'.subset List.mem_cons_self)
    obtain ⟨u, rfl⟩ := h.exists_cons_of_placeIn hv ht' hplace
    exact suffix_cons_inj (h.nodup_location.of_map.filter _) hv hv'

end

namespace Stream

open Syntax Courier.Parser

/-- The place tells how far the tokens of the stream, its comments left out, can be a unit: the tokens before it start one, and with
the token that stands there they start none. At the end of the text a unit is only begun. -/
structure BreaksAt (s : Stream) (place : Location) : Prop where
  somewhere : (∃ t ∈ s.tokens, place = t.location) ∨ place = s.endLocation
  token {before after : List Token} {t : Token} (hsplit : s.tokens = before ++ t :: after) (hplace : place = t.location) :
    t.isComment = false ∧ Starts (.symbol .unit) (significant before) ∧ ¬Starts (.symbol .unit) (significant (before ++ [t]))
  atEnd (hplace : place = s.endLocation) :
    Starts (.symbol .unit) (significant s.tokens) ∧ ¬Spells (.symbol .unit) (significant s.tokens)

theorem breaksAt_placeIn {text : String} {s : Stream} (hsource : s.source = text) (hlaid : Laid .start text.toList s.tokens)
    {w v : List Token} (hsplit : significant s.tokens = w ++ v) (hw : Starts (.symbol .unit) w)
    (hpassed : ∀ c x, significant s.tokens = c ++ x → Starts (.symbol .unit) c → v <:+ x)
    (hunit : ¬Spells (.symbol .unit) (significant s.tokens)) : s.BreaksAt (placeIn text v) := by
  have hv : v <:+ significant s.tokens := ⟨w, hsplit.symm⟩
  have hend : s.endLocation = placeIn text [] := by rw [Stream.endLocation, hsource]; rfl
  refine ⟨?_, fun {before after t} htokens hplace => ?_, fun hplace => ?_⟩
  · cases v with
    | nil => exact .inr hend.symm
    | cons t v => exact .inl ⟨t, List.mem_of_mem_filter (hv.subset List.mem_cons_self), rfl⟩
  · have hcomment : t.isComment = false := by
      obtain ⟨v', rfl⟩ := hlaid.exists_cons_of_placeIn hv (by rw [htokens]; simp) hplace
      simpa using List.of_mem_filter (hv.subset List.mem_cons_self)
    have hsignificant : significant s.tokens = significant before ++ t :: significant after := by
      rw [htokens, significant_append, significant_cons hcomment]
    have heq : v = t :: significant after := hlaid.placeIn_inj hv ⟨_, hsignificant.symm⟩ hplace
    refine ⟨hcomment, ?_, fun hstarts => ?_⟩
    · rw [hsplit, heq] at hsignificant
      exact List.append_cancel_right hsignificant ▸ hw
    · rw [significant_append, significant_cons hcomment, significant_nil] at hstarts
      have hsuffix := hpassed _ (significant after) (by rw [hsignificant, List.append_assoc]; rfl) hstarts
      rw [heq] at hsuffix
      exact absurd hsuffix.length_le (Nat.not_succ_le_self _)
  · have hnil : v = [] := hlaid.placeIn_inj hv (List.nil_suffix) (hplace.trans hend)
    rw [hnil, List.append_nil] at hsplit
    exact ⟨hsplit ▸ hw, hunit⟩

/-- A text that is cut into tokens and does not parse fails at the first token that no unit goes on with, or at the end of the text
if all of it only begins one. A parse that is nested too deeply and an array that is not closed are the only failures located
elsewhere. -/
theorem breaksAt_of_parse {file text : String} {s : Stream} {trace : Bool} {e : ParseError} (hs : Stream.tokenize file text = .ok s)
    (h : (s.parse trace).1 = .error e) (hdeep : e.message ≠ "expression nested too deeply")
    (harray : e.message ≠ "unterminated array literal") : s.BreaksAt e.location := by
  obtain ⟨hsource, -, -, hlaid⟩ := laid_of_tokenize hs
  have hdeep' : e.fault ≠ .nestedTooDeeply := fun hfault => hdeep (congrArg ParseFault.message hfault)
  have harray' : e.fault ≠ .unterminatedArray := fun hfault => harray (congrArg ParseFault.message hfault)
  have hplace : ∀ v, e.Blames s.source v → e.location = placeIn text v := by
    intro v hblames
    rw [← hsource]
    exact hblames.resolve_left harray'
  obtain ⟨t, ht⟩ := parse_eq_error.1 h
  obtain ⟨v, hblames, w, hw, hsplit⟩ := (leaves_unit_parse maxNesting (significant s.tokens) (.initial s trace) rfl rfl).error ht
  rw [hplace v hblames]
  refine breaksAt_placeIn hsource hlaid hsplit hw (fun c x hcx hc => ?_) (fun hunit => ?_)
  · obtain ⟨v', hblames', hv'⟩ := beyond_of_starts h hdeep' hcx hc
    have hsame : placeIn text v = placeIn text v' := (hplace v hblames).symm.trans (hplace v' hblames')
    have heq : v = v' := hlaid.placeIn_inj ⟨w, hsplit.symm⟩ (hv'.trans ⟨c, hcx.symm⟩) hsame
    exact heq ▸ hv'
  · rcases parseWithin_of_spells_unit hunit maxNesting trace with ⟨tree, htree⟩ | ⟨e', he', hfault⟩
    · nomatch h.symm.trans htree
    · exact hdeep' (Except.error.inj (h.symm.trans he') ▸ hfault)

theorem breaksAt_of_parse_assignment : ∃ s e, Stream.tokenize "unit" "\x7b a # a sum\n := ; \x7d" = .ok s ∧
    (s.parse true).1 = .error e ∧ e.message = "expected expression, found ';'" ∧ s.BreaksAt e.location := by
  obtain ⟨s, e, hs, he, hmessage⟩ := exists_parse_error "unit" "\x7b a # a sum\n := ; \x7d" true
    (fun e => e.message == "expected expression, found ';'") (by decide +kernel)
  have hmessage' : e.message = "expected expression, found ';'" := by simpa using hmessage
  exact ⟨s, e, hs, he, hmessage', breaksAt_of_parse hs he (by rw [hmessage']; decide) (by rw [hmessage']; decide)⟩

end Stream

end Courier
