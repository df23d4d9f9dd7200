import Courier.Json.Pretty
import Mathlib.Data.List.Basic

/-!
# Printed values are told apart

The text of a JSON value is read in one way only: it tells the value, and where it ends (`Json.told_layout`). Its first character tells the
sort of the value, a text ends at the first quote that is not escaped, and the lines of an array or an object end in a comma or with
the closing bracket. Only a number does not tell its end by itself, so nothing that goes on with a digit may follow. Values that are
printed one behind the other, with a line feed behind each, are therefore told apart as well (`Json.join_pretty_inj`).
-/

namespace Courier.Json

/-- What follows a value does not go on with a digit. -/
def Stops (behind : List Char) : Prop :=
  ∀ c ∈ behind.head?, c.isDigit = false

/-- The text of something tells it, and where it ends, whatever follows. -/
def Told {β : Type} (text : β → String) (b : β) : Prop :=
  ∀ (b' : β) (behind behind' : List Char), Stops behind → Stops behind' →
    (text b).toList ++ behind = (text b').toList ++ behind' → b = b' ∧ behind = behind'

variable {behind behind' : List Char}

theorem stops_cons {c : Char} (hc : c.isDigit = false) : Stops (c :: behind) := by
  intro c' hc'
  obtain rfl := Option.some.inj hc'
  exact hc

/-! ## Texts in quotes -/

/-- The number that a hexadecimal digit stands for. -/
def hexValue (c : Char) : Nat :=
  ['0', '1', '2', '3', '4', '5', '6', '7', '8', '9', 'a', 'b', 'c', 'd', 'e', 'f'].idxOf c

/-- The first character of a quoted text, and what is behind it. -/
def unescape : List Char → Option (Char × List Char)
  | '\\' :: 'u' :: _ :: _ :: high :: low :: rest => some (Char.ofNat (16 * hexValue high + hexValue low), rest)
  | '\\' :: 'b' :: rest => some ('\x08', rest)
  | '\\' :: 'f' :: rest => some ('\x0c', rest)
  | '\\' :: 'n' :: rest => some ('\n', rest)
  | '\\' :: 'r' :: rest => some ('\r', rest)
  | '\\' :: 't' :: rest => some ('\t', rest)
  | '\\' :: c :: rest => some (c, rest)
  | c :: rest => some (c, rest)
  | [] => none

theorem hexValue_hexDigit : ∀ n < 32, 16 * hexValue (hexDigit (n / 16)) + hexValue (hexDigit (n % 16)) = n := by
  decide

theorem unescape_escapeChar (c : Char) (behind : List Char) : unescape (escapeChar c ++ behind) = some (c, behind) := by
  unfold escapeChar
  split_ifs with hquote hbackslash hbackspace hfeed hline hreturn htab hcontrol
  · rw [hquote]; rfl
  · rw [hbackslash]; rfl
  · rw [hbackspace]; rfl
  · rw [hfeed]; rfl
  · rw [hline]; rfl
  · rw [hreturn]; rfl
  · rw [htab]; rfl
  · simp only [List.cons_append, List.nil_append, unescape, hexValue_hexDigit _ hcontrol, Char.ofNat_toNat]
  · simp [unescape, hbackslash]

theorem escapeChar_append_inj {c c' : Char} (h : escapeChar c ++ behind = escapeChar c' ++ behind') : c = c' ∧ behind = behind' := by
  have hread := congrArg unescape h
  rw [unescape_escapeChar, unescape_escapeChar] at hread
  exact Prod.mk.inj (Option.some.inj hread)

/-- No character stands in quotes as the quote that closes them. -/
theorem cons_quote_ne (c : Char) : '"' :: behind ≠ escapeChar c ++ behind' := by
  intro h
  have hread := congrArg unescape h
  rw [unescape_escapeChar] at hread
  obtain ⟨rfl, rfl⟩ := Prod.mk.inj (Option.some.inj hread)
  exact absurd (List.cons.inj h).1 (by decide)

/-- A text in quotes ends at the first quote that is not escaped. -/
theorem told_quote (s : String) : Told quote s := by
  have hall (cs : List Char) : ∀ cs' behind behind', cs.flatMap escapeChar ++ '"' :: behind = cs'.flatMap escapeChar ++ '"' :: behind' →
      cs = cs' ∧ behind = behind' := by
    induction cs with
    | nil =>
      intro cs' behind behind' h
      cases cs' with
      | nil => exact ⟨rfl, (List.cons.inj h).2⟩
      | cons c' cs' =>
        rw [List.flatMap_cons, List.append_assoc] at h
        exact absurd h (cons_quote_ne c')
    | cons c cs ih =>
      intro cs' behind behind' h
      cases cs' with
      | nil =>
        rw [List.flatMap_cons, List.append_assoc] at h
        exact absurd h.symm (cons_quote_ne c)
      | cons c' cs' =>
        rw [List.flatMap_cons, List.flatMap_cons, List.append_assoc, List.append_assoc] at h
        obtain ⟨rfl, hrest⟩ := escapeChar_append_inj h
        obtain ⟨rfl, hbehind⟩ := ih cs' behind behind' hrest
        exact ⟨rfl, hbehind⟩
  intro s' behind behind' _ _ h
  simp only [quote, String.toList_ofList, List.cons_append, List.append_assoc, List.cons.injEq, true_and, List.nil_append] at h
  obtain ⟨hs, hbehind⟩ := hall s.toList s'.toList behind behind' h
  exact ⟨String.toList_inj.1 hs, hbehind⟩

/-! ## Numbers -/

theorem isDigit_of_mem_toString {n : Nat} {c : Char} (h : c ∈ (toString n).toList) : c.isDigit = true := by
  rw [Nat.toString_eq_repr, Nat.toList_repr] at h
  exact Nat.isDigit_of_mem_toDigits (by decide) (by decide) h

/-- The digits of a number are the digits that a text begins with. -/
theorem takeWhile_isDigit_number (n : Nat) (h : Stops behind) :
    ((toString n).toList ++ behind).takeWhile Char.isDigit = (toString n).toList := by
  have hbehind : behind.takeWhile Char.isDigit = [] := by
    cases behind with
    | nil => rfl
    | cons c behind => exact List.takeWhile_cons_of_neg (by simp [h c rfl])
  rw [List.takeWhile_append_of_pos (fun _ => isDigit_of_mem_toString), hbehind, List.append_nil]

theorem toString_inj {n n' : Nat} (h : toString n = toString n') : n = n' := by
  have hdigits := congrArg (fun s : String => Nat.ofDigitChars 10 s.toList 0) h
  simpa only [Nat.toString_eq_repr, Nat.toList_repr, Nat.ofDigitChars_ten_toDigits] using hdigits

theorem told_number (n : Nat) : Told (toString : Nat → String) n := by
  intro n' behind behind' hstops hstops' h
  have hdigits : (toString n).toList = (toString n').toList := by
    rw [← takeWhile_isDigit_number n hstops, h, takeWhile_isDigit_number n' hstops']
  rw [hdigits] at h
  exact ⟨toString_inj (String.toList_inj.1 hdigits), List.append_cancel_left h⟩

/-! ## Arrays and objects -/

section

variable {β : Type} {text : β → String} {level : Nat} {opening closing : String} {c : Char}

/-- What is behind an item: the items that follow, each behind a comma and on a line of its own, and the line of the closing bracket. -/
def rows (text : β → String) (level : Nat) (closing : String) : List β → List Char
  | [] => (newline level ++ closing).toList
  | b :: bs => ',' :: ((newline (level + 1)).toList ++ (text b).toList ++ rows text level closing bs)

theorem toList_newline (level : Nat) : (newline level).toList = '\n' :: List.replicate (2 * level) ' ' :=
  String.toList_ofList

theorem stops_rows (bs : List β) (behind : List Char) : Stops (rows text level closing bs ++ behind) := by
  cases bs with
  | nil =>
    rw [rows, String.toList_append, toList_newline]
    exact stops_cons rfl
  | cons b bs => exact stops_cons rfl

theorem toList_intercalate_rows (b : β) (bs : List β) :
    (String.intercalate ("," ++ newline (level + 1)) ((b :: bs).map text)).toList ++ (newline level ++ closing).toList =
      (text b).toList ++ rows text level closing bs := by
  induction bs generalizing b with
  | nil => simp [rows]
  | cons b' bs ih =>
    rw [List.map_cons, String.intercalate_cons_of_ne_nil (by simp), String.toList_append, List.append_assoc, ih b']
    simp [rows]

theorem toList_bracket_cons (b : β) (bs : List β) : (bracket opening closing level ((b :: bs).map text)).toList =
    opening.toList ++ ((newline (level + 1)).toList ++ ((text b).toList ++ rows text level closing bs)) := by
  have h : _ = (text b).toList ++ rows text level closing bs := toList_intercalate_rows b bs
  rw [bracket, if_neg (by simp)]
  simp only [String.toList_append, List.append_assoc] at h ⊢
  rw [h]

/-- The items behind an item are told by their texts: a comma goes on, and a closing line ends them. -/
theorem rows_inj {bs bs' : List β} (htold : ∀ b ∈ bs, Told text b)
    (h : rows text level closing bs ++ behind = rows text level closing bs' ++ behind') : bs = bs' ∧ behind = behind' := by
  induction bs generalizing bs' with
  | nil =>
    cases bs' with
    | nil => exact ⟨rfl, List.append_cancel_left h⟩
    | cons b' bs' =>
      rw [rows, rows, String.toList_append, toList_newline] at h
      exact absurd (List.cons.inj h).1 (by decide)
  | cons b bs ih =>
    cases bs' with
    | nil =>
      rw [rows, rows, String.toList_append, toList_newline level] at h
      exact absurd (List.cons.inj h).1 (by decide)
    | cons b' bs' =>
      simp only [rows, List.cons_append, List.append_assoc, List.cons.injEq, true_and] at h
      obtain ⟨rfl, hrows⟩ := htold b List.mem_cons_self b' _ _ (stops_rows bs behind) (stops_rows bs' behind')
        (List.append_cancel_left h)
      obtain ⟨rfl, hbehind⟩ := ih (fun b hb => htold b (List.mem_cons_of_mem _ hb)) hrows
      exact ⟨rfl, hbehind⟩

/-- The text between brackets tells the items, if each of their texts does. -/
theorem told_bracket {bs : List β} (hclosing : closing.toList = [c]) (hc : c ≠ '\n') (htold : ∀ b ∈ bs, Told text b) :
    Told (fun bs : List β => bracket opening closing level (bs.map text)) bs := by
  intro bs' behind behind' _ _ h
  have hnil : (bracket opening closing level (([] : List β).map text)).toList = opening.toList ++ [c] := by
    rw [List.map_nil, bracket, if_pos (List.isEmpty_nil), String.toList_append, hclosing]
  cases bs with
  | nil =>
    cases bs' with
    | nil => exact ⟨rfl, List.append_cancel_left h⟩
    | cons b' bs' =>
      simp only [hnil, toList_bracket_cons, List.append_assoc, toList_newline] at h
      exact absurd (List.cons.inj (List.append_cancel_left h)).1 hc
  | cons b bs =>
    cases bs' with
    | nil =>
      simp only [hnil, toList_bracket_cons, List.append_assoc, toList_newline] at h
      exact absurd (List.cons.inj (List.append_cancel_left h)).1.symm hc
    | cons b' bs' =>
      simp only [toList_bracket_cons, List.append_assoc] at h
      have hrows : rows text level closing (b :: bs) ++ behind = rows text level closing (b' :: bs') ++ behind' := by
        simp only [rows, List.cons_append, List.append_assoc]
        rw [List.append_cancel_left h]
      exact rows_inj htold hrows

end

/-! ## Values -/

theorem layoutItems_eq (level : Nat) (items : List Json) : layoutItems level items = items.map (layout level) := by
  induction items with
  | nil => rfl
  | cons item rest ih => rw [layoutItems, ih, List.map_cons]

/-- The text of a field. -/
def layoutField (level : Nat) (field : String × Json) : String :=
  quote field.1 ++ ": " ++ layout level field.2

theorem layoutFields_eq (level : Nat) (fields : List (String × Json)) : layoutFields level fields = fields.map (layoutField level) := by
  induction fields with
  | nil => rfl
  | cons field rest ih => rw [layoutFields, ih, List.map_cons, layoutField]

/-- The sort of the values that begin with a character. -/
def sortAt (c : Char) : Nat :=
  if c.isDigit then 2
  else if c = 'n' then 0
  else if c = '"' then 3
  else if c = '[' then 4
  else if c = '\x7b' then 5
  else 1

/-- A value begins with a character that tells its sort. -/
theorem sortAt_layout (level : Nat) (value : Json) : ∃ c rest, (layout level value).toList = c :: rest ∧ sortAt c = value.ctorIdx := by
  have hbracket (opening : Char) (closing : String) (pieces : List String) :
      ∃ rest, (bracket (String.singleton opening) closing level pieces).toList = opening :: rest := by
    unfold bracket
    split
    · exact ⟨_, by rw [String.toList_append, String.toList_singleton]; rfl⟩
    · exact ⟨_, by simp only [String.toList_append, String.toList_singleton, List.append_assoc]; rfl⟩
  cases value with
  | null => exact ⟨'n', "ull".toList, by simp [layout], rfl⟩
  | bool b =>
    cases b with
    | false => exact ⟨'f', "alse".toList, by simp [layout], rfl⟩
    | true => exact ⟨'t', "rue".toList, by simp [layout], rfl⟩
  | number n =>
    rw [layout]
    cases hdigits : (toString n).toList with
    | nil =>
      rw [Nat.toString_eq_repr, Nat.toList_repr] at hdigits
      exact absurd hdigits Nat.toDigits_ne_nil
    | cons c rest => exact ⟨c, rest, rfl, if_pos (isDigit_of_mem_toString (hdigits ▸ List.mem_cons_self))⟩
  | text s => exact ⟨'"', _, String.toList_ofList, rfl⟩
  | array items =>
    obtain ⟨rest, hrest⟩ := hbracket '[' "]" (layoutItems (level + 1) items)
    exact ⟨'[', rest, hrest, rfl⟩
  | object fields =>
    obtain ⟨rest, hrest⟩ := hbracket '\x7b' "\x7d" (layoutFields (level + 1) fields)
    exact ⟨'\x7b', rest, hrest, rfl⟩

theorem told_layoutField {level : Nat} {field : String × Json} (h : Told (layout level) field.2) : Told (layoutField level) field := by
  intro field' behind behind' hstops hstops' htext
  simp only [layoutField, String.toList_append, List.append_assoc] at htext
  have hcolon (behind : List Char) : Stops (": ".toList ++ behind) := stops_cons rfl
  obtain ⟨hkey, htext⟩ := told_quote field.1 field'.1 _ _ (hcolon _) (hcolon _) htext
  obtain ⟨hvalue, hbehind⟩ := h field'.2 behind behind' hstops hstops' (List.append_cancel_left htext)
  exact ⟨Prod.ext hkey hvalue, hbehind⟩

section

variable {level : Nat}

/-- Texts that go on to the same text are those of values of one sort. -/
theorem ctorIdx_eq {value value' : Json} (h : (layout level value).toList ++ behind = (layout level value').toList ++ behind') :
    value.ctorIdx = value'.ctorIdx := by
  obtain ⟨c, rest, htext, hc⟩ := sortAt_layout level value
  obtain ⟨c', rest', htext', hc'⟩ := sortAt_layout level value'
  rw [htext, htext'] at h
  rw [← hc, ← hc', (List.cons.inj h).1]

theorem told_layout_null : Told (layout level) null := by
  intro value' behind behind' _ _ h
  have hsort := ctorIdx_eq h
  cases value' with
  | null => exact ⟨rfl, List.append_cancel_left h⟩
  | _ => nomatch hsort

theorem told_layout_bool (b : Bool) : Told (layout level) (bool b) := by
  intro value' behind behind' _ _ h
  have hsort := ctorIdx_eq h
  cases value' with
  | bool b' =>
    rw [layout, layout] at h
    cases b <;> cases b'
    · exact ⟨rfl, List.append_cancel_left h⟩
    · exact absurd (show 'f' :: _ = 't' :: _ from h) (by simp)
    · exact absurd (show 't' :: _ = 'f' :: _ from h) (by simp)
    · exact ⟨rfl, List.append_cancel_left h⟩
  | _ => nomatch hsort

theorem told_layout_number (n : Nat) : Told (layout level) (number n) := by
  intro value' behind behind' hstops hstops' h
  have hsort := ctorIdx_eq h
  cases value' with
  | number n' =>
    rw [layout, layout] at h
    obtain ⟨rfl, hbehind⟩ := told_number n n' behind behind' hstops hstops' h
    exact ⟨rfl, hbehind⟩
  | _ => nomatch hsort

theorem told_layout_text (s : String) : Told (layout level) (text s) := by
  intro value' behind behind' hstops hstops' h
  have hsort := ctorIdx_eq h
  cases value' with
  | text s' =>
    rw [layout, layout] at h
    obtain ⟨rfl, hbehind⟩ := told_quote s s' behind behind' hstops hstops' h
    exact ⟨rfl, hbehind⟩
  | _ => nomatch hsort

theorem told_layout_array {items : List Json} (htold : ∀ item ∈ items, Told (layout (level + 1)) item) :
    Told (layout level) (array items) := by
  intro value' behind behind' hstops hstops' h
  have hsort := ctorIdx_eq h
  cases value' with
  | array items' =>
    rw [layout, layout, layoutItems_eq, layoutItems_eq] at h
    obtain ⟨rfl, hbehind⟩ := told_bracket rfl (by decide) htold items' behind behind' hstops hstops' h
    exact ⟨rfl, hbehind⟩
  | _ => nomatch hsort

theorem told_layout_object {fields : List (String × Json)} (htold : ∀ field ∈ fields, Told (layoutField (level + 1)) field) :
    Told (layout level) (object fields) := by
  intro value' behind behind' hstops hstops' h
  have hsort := ctorIdx_eq h
  cases value' with
  | object fields' =>
    rw [layout, layout, layoutFields_eq, layoutFields_eq] at h
    obtain ⟨rfl, hbehind⟩ := told_bracket rfl (by decide) htold fields' behind behind' hstops hstops' h
    exact ⟨rfl, hbehind⟩
  | _ => nomatch hsort

end

theorem sizeOf_lt_of_mem_fields {field : String × Json} {fields : List (String × Json)} (h : field ∈ fields) :
    sizeOf field.2 < sizeOf fields := by
  have hfield : sizeOf field.2 < sizeOf field := by
    obtain ⟨key, value⟩ := field
    simp only [Prod.mk.sizeOf_spec]
    omega
  exact Nat.lt_trans hfield (List.sizeOf_lt_of_mem h)

/-- The text of a value tells the value. -/
theorem told_layout (level : Nat) : (value : Json) → Told (layout level) value
  | null => told_layout_null
  | bool b => told_layout_bool b
  | number n => told_layout_number n
  | text s => told_layout_text s
  | array items => told_layout_array (fun item _ => told_layout (level + 1) item)
  | object fields => told_layout_object (fun field _ => told_layoutField (told_layout (level + 1) field.2))
termination_by value => sizeOf value
decreasing_by
  · have := List.sizeOf_lt_of_mem ‹item ∈ items›
    simp only [array.sizeOf_spec]
    omega
  · have := sizeOf_lt_of_mem_fields ‹field ∈ fields›
    simp only [object.sizeOf_spec]
    omega

/-- A text is what some values print, one behind the other with a line feed behind each, and no others print it. -/
def Prints (out : String) (values : List Json) : Prop :=
  ∀ others : List Json, out = String.join (others.map (fun value => value.pretty ++ "\n")) ↔ others = values

/-- Values that are printed one behind the other are told apart. -/
theorem join_pretty_inj {values values' : List Json}
    (h : String.join (values.map (fun value => value.pretty ++ "\n")) = String.join (values'.map (fun value => value.pretty ++ "\n"))) :
    values = values' := by
  have hcons (value : Json) (values : List Json) : (String.join ((value :: values).map (fun value => value.pretty ++ "\n"))).toList =
      value.pretty.toList ++ '\n' :: (String.join (values.map (fun value => value.pretty ++ "\n"))).toList := by
    simp
  replace h := congrArg String.toList h
  induction values generalizing values' with
  | nil =>
    cases values' with
    | nil => rfl
    | cons value' values' =>
      rw [hcons] at h
      simp at h
  | cons value values ih =>
    cases values' with
    | nil =>
      rw [hcons] at h
      simp at h
    | cons value' values' =>
      rw [hcons, hcons] at h
      obtain ⟨rfl, hrest⟩ := told_layout 0 value value' _ _ (stops_cons rfl) (stops_cons rfl) h
      rw [ih (List.cons.inj hrest).2]

theorem prints_join (values : List Json) : Prints (String.join (values.map (fun value => value.pretty ++ "\n"))) values := by
  intro others
  exact ⟨fun h => (join_pretty_inj h).symm, fun h => by rw [h]⟩

/-- One value and a line feed are what that value prints. -/
theorem prints_pretty (value : Json) : Prints (value.pretty ++ "\n") [value] := by
  simpa using prints_join [value]

end Courier.Json
