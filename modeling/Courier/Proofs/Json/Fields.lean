import Courier.Json.Basic
import Mathlib.Data.List.Perm.Basic

/-!
# The fields of objects

An object holds the fields that it was built from (`Json.field?_ofFields`), sorted by key. What stands inside a value is listed with the
value itself first and the rest in the order in which it is written (`Json.objects`); a field with no object inside it adds nothing
there, wherever its key puts it (`Json.flatMap_insertField`).
-/

namespace Courier.Json

/-- The value of a field. -/
def field? (key : String) : Json → Option Json
  | object fields => fields.lookup key
  | _ => none

/-- The truth that a field tells. -/
def flag? (key : String) (value : Json) : Option Bool :=
  match value.field? key with
  | some (.bool b) => some b
  | _ => none

mutual

/-- The objects inside a value, itself among them, in the order they are written. -/
def objects : Json → List Json
  | array items => objectsOfItems items
  | object fields => .object fields :: objectsOfFields fields
  | null | bool _ | number _ | text _ => []

/-- The objects inside an array's items. -/
def objectsOfItems : List Json → List Json
  | [] => []
  | item :: rest => objects item ++ objectsOfItems rest

/-- The objects inside an object's fields. -/
def objectsOfFields : List (String × Json) → List Json
  | [] => []
  | (_, value) :: rest => objects value ++ objectsOfFields rest

end

variable {field : String × Json} {fields : List (String × Json)}

/-! ## Reading fields back -/

theorem perm_insertField (field : String × Json) (fields : List (String × Json)) :
    (insertField field fields).Perm (field :: fields) := by
  induction fields with
  | nil => exact .refl _
  | cons other fields ih =>
    unfold insertField
    split
    · exact .refl _
    · exact (ih.cons other).trans (.swap field other fields)

theorem perm_sorted (fields : List (String × Json)) : (fields.foldr insertField []).Perm fields := by
  induction fields with
  | nil => exact .refl _
  | cons field fields ih => exact (perm_insertField field _).trans (ih.cons field)

/-- A new field may be put anywhere. -/
theorem lookup_insertField (hnew : field.1 ∉ fields.map Prod.fst) (key : String) :
    (insertField field fields).lookup key = (field :: fields).lookup key := by
  induction fields with
  | nil => rfl
  | cons other fields ih =>
    obtain ⟨name, value⟩ := field
    obtain ⟨name', value'⟩ := other
    unfold insertField
    split
    · rfl
    · obtain ⟨hne, hnew⟩ : name ≠ name' ∧ name ∉ fields.map Prod.fst := by simpa using hnew
      have hrest := ih hnew
      rw [List.lookup_cons] at hrest
      rw [List.lookup_cons, List.lookup_cons, List.lookup_cons, hrest]
      by_cases hkey : key = name'
      · subst hkey
        rw [beq_self_eq_true, beq_false_of_ne (Ne.symm hne)]
      · rw [beq_false_of_ne hkey]

/-- An object has the fields that it was built from. -/
theorem field?_ofFields (fields : List (String × Json)) (h : (fields.map Prod.fst).Nodup) (key : String) :
    (ofFields fields).field? key = fields.lookup key := by
  induction fields with
  | nil => rfl
  | cons field fields ih =>
    obtain ⟨hnew, h⟩ := List.nodup_cons.1 h
    have hsorted : field.1 ∉ (fields.foldr insertField []).map Prod.fst :=
      fun hmem => hnew (((perm_sorted fields).map Prod.fst).mem_iff.1 hmem)
    have hrest : (fields.foldr insertField []).lookup key = fields.lookup key := ih h
    refine (lookup_insertField hsorted key).trans ?_
    rw [List.lookup_cons, List.lookup_cons, hrest]

/-! ## What stands inside -/

theorem objectsOfItems_eq (items : List Json) : objectsOfItems items = items.flatMap objects := by
  induction items with
  | nil => rfl
  | cons item rest ih => rw [objectsOfItems, ih, List.flatMap_cons]

theorem objectsOfFields_eq (fields : List (String × Json)) : objectsOfFields fields = fields.flatMap (fun f => f.2.objects) := by
  induction fields with
  | nil => rfl
  | cons field rest ih => rw [objectsOfFields, ih, List.flatMap_cons]

theorem objects_ofTexts (texts : List String) : (ofTexts texts).objects = [] := by
  rw [ofTexts, objects, objectsOfItems_eq, List.flatMap_map]
  exact List.flatMap_eq_nil_iff.2 (fun _ _ => rfl)

theorem objects_ofText? (s : Option String) : (ofText? s).objects = [] := by
  cases s <;> rfl

/-- A field with no object inside it adds none. -/
theorem flatMap_insertField (h : field.2.objects = []) :
    (insertField field fields).flatMap (fun f => f.2.objects) = fields.flatMap (fun f => f.2.objects) := by
  induction fields with
  | nil => rw [insertField, List.flatMap_cons, h, List.nil_append]
  | cons other fields ih =>
    unfold insertField
    split
    · rw [List.flatMap_cons, h, List.nil_append]
    · rw [List.flatMap_cons, ih, List.flatMap_cons]

/-- The objects inside an object are itself and those inside the fields that have any. -/
theorem objects_ofFields_append {barren rest : List (String × Json)} (h : ∀ f ∈ barren, f.2.objects = []) :
    (ofFields (barren ++ rest)).objects = ofFields (barren ++ rest) :: (rest.foldr insertField []).flatMap (fun f => f.2.objects) := by
  have hfields : ((barren ++ rest).foldr insertField []).flatMap (fun f => f.2.objects) =
      (rest.foldr insertField []).flatMap (fun f => f.2.objects) := by
    induction barren with
    | nil => rfl
    | cons field barren ih =>
      rw [List.cons_append, List.foldr_cons, flatMap_insertField (h field List.mem_cons_self)]
      exact ih (fun f hf => h f (List.mem_cons_of_mem _ hf))
  rw [ofFields, objects, objectsOfFields_eq, hfields]

end Courier.Json
