/-!
# Texts split into lines

The lines of a text as a reader of it counts them: what lies between its line feeds. A text without any is one line (`OneLine`), and a line
feed between two texts is the end of the one's lines and the beginning of the other's (`linesOf_append_feed`).
-/

namespace Courier.Text

/-- The text holds no line feed. -/
def OneLine (text : String) : Prop :=
  '\n' ∉ text.toList

instance (text : String) : Decidable (OneLine text) :=
  inferInstanceAs (Decidable ('\n' ∉ text.toList))

/-- The lines of a text: what lies between its line feeds. -/
def linesOf (text : String) : List String :=
  (text.toList.splitOn '\n').map String.ofList

theorem oneLine_append {a b : String} : OneLine (a ++ b) ↔ OneLine a ∧ OneLine b := by
  simp only [OneLine, String.toList_append, List.mem_append, not_or]

theorem linesOf_of_oneLine {text : String} (h : OneLine text) : linesOf text = [text] := by
  rw [linesOf, List.splitOn_eq_singleton h, List.map_singleton, String.ofList_toList]

/-- A line feed ends the lines before it. -/
theorem linesOf_append_feed (a b : String) : linesOf (a ++ "\n" ++ b) = linesOf a ++ linesOf b := by
  have hchars : (a ++ "\n" ++ b).toList = a.toList ++ '\n' :: b.toList := by simp
  rw [linesOf, hchars, List.splitOn_append_cons_self, List.map_append]
  rfl

/-- A text with a line feed has two lines or more. -/
theorem two_le_length_linesOf {text : String} (h : ¬OneLine text) : 2 ≤ (linesOf text).length := by
  obtain ⟨before, after, hsplit⟩ := List.append_of_mem (Decidable.not_not.1 h)
  rw [linesOf, hsplit, List.splitOn_append_cons_self, List.map_append, List.length_append, List.length_map, List.length_map]
  have hbefore := List.length_pos_iff.2 (List.splitOn_ne_nil '\n' before)
  have hafter := List.length_pos_iff.2 (List.splitOn_ne_nil '\n' after)
  omega

end Courier.Text
