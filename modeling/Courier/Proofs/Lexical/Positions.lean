import Courier.Proofs.Lexical.Layout
import Courier.Proofs.Text.Place

/-!
# Positions are right everywhere

The scanner moves its place over the text character by character, and the place behind the last character is counted anew from the
whole text. Both give what `IsPlace` asks of a place, and an offset has one such place only, so they are one function of the text and
the offset (`Stream.placed_of_tokenize`). Line feeds are counted wherever they stand, in strings and comments as well.
-/

namespace Courier

open Text

/-- A place that is moved over a text is the place that is counted behind it. -/
theorem Location.after_start_eq (text : String) : Location.start.after text.toList = endOfText text := by
  have hmoved : IsPlace text.toList (Location.start.after text.toList) := by
    simpa using isPlace_after text.toList []
  refine hmoved.unique (isPlace_endOfText text) ?_
  rw [offset_after]
  exact Nat.zero_add _

/-- The places that a stream gives for a text are right. -/
structure Stream.Placed (text : String) (s : Stream) : Prop where
  /-- The offsets of line feeds increase. -/
  increasing : s.newlines.Pairwise (· < ·)
  /-- They are those of the bytes that are line feeds. -/
  mem_newlines : ∀ i : Nat, i ∈ s.newlines ↔ text.toUTF8[i]? = some 10
  /-- The place of a token is where the token is found, and its numbers are right. -/
  tokens : ∀ t ∈ s.tokens, t.location.offset = t.spanStart ∧ IsPlace text.toList t.location ∧
    ∃ before after, text = before ++ t.text ++ after ∧ t.location = endOfText before
  /-- So is the place behind the last character, whose offset is the length of the text. -/
  endLocation : s.endLocation.offset = text.utf8ByteSize ∧ IsPlace text.toList s.endLocation
  /-- An offset has one place only. -/
  unique : ∀ p q, IsPlace text.toList p → IsPlace text.toList q → p.offset = q.offset → p = q

/-- The token of a stream stands where its place says, behind the characters before it. -/
theorem Stream.place_of_tokenize {file text : String} {s : Stream} (h : Stream.tokenize file text = .ok s) {t : Token} (ht : t ∈ s.tokens) :
    ∃ before after, text = before ++ t.text ++ after ∧ t.location = endOfText before ∧ IsPlace text.toList t.location := by
  obtain ⟨-, -, -, hlaid⟩ := Stream.laid_of_tokenize h
  obtain ⟨before, after, hcs, hplace⟩ := hlaid.split ht
  refine ⟨String.ofList before, String.ofList after, ?_, ?_, ?_⟩
  · rw [← String.toList_inj, String.toList_append, String.toList_append, String.toList_ofList, String.toList_ofList, hcs,
      List.append_assoc]
  · rw [← Location.after_start_eq, String.toList_ofList, hplace]
  · rw [hcs, hplace]
    exact isPlace_after before _

/-- Every place that the stream of a text gives is right. -/
theorem Stream.placed_of_tokenize {file text : String} {s : Stream} (h : Stream.tokenize file text = .ok s) : s.Placed text := by
  obtain ⟨hsource, -, -, -⟩ := Stream.laid_of_tokenize h
  constructor
  · rw [newlines, hsource]
    exact pairwise_newlineOffsets 0 text.toList
  · intro i
    rw [newlines, hsource, mem_newlineOffsets, getElem?_toUTF8]
    simp
  · intro t ht
    obtain ⟨before, after, htext, hplace, hright⟩ := Stream.place_of_tokenize h ht
    exact ⟨rfl, hright, before, after, htext, hplace⟩
  · rw [Stream.endLocation, hsource]
    exact ⟨(utf8ByteSize_eq text).symm, isPlace_endOfText text⟩
  · exact fun p q hp hq hpq => hp.unique hq hpq

theorem Stream.placed_of_tokenize_feeds : ∃ s, Stream.tokenize "unit" "\"é\n\" #\x7b\r\n\x7d# # é" = .ok s ∧
    s.Placed "\"é\n\" #\x7b\r\n\x7d# # é" := by
  have hok : (Stream.tokenize "unit" "\"é\n\" #\x7b\r\n\x7d# # é").isOk = true := by decide +kernel
  cases hs : Stream.tokenize "unit" "\"é\n\" #\x7b\r\n\x7d# # é" with
  | ok s => exact ⟨s, rfl, Stream.placed_of_tokenize hs⟩
  | error e =>
    rw [hs] at hok
    nomatch hok

end Courier
