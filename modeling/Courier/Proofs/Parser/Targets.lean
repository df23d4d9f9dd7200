import Courier.Proofs.Parser.Making
import Courier.Proofs.Syntax.Choices
import Courier.Proofs.Syntax.Soundness
import Courier.Proofs.Tree.Schema

/-!
# Targets of assignments

What can be assigned to is a name with a type or an instance (`Target`), and there is one way to cut it off the tokens in front of an
operator (`target_append_inj`). The productions of both make a node that is told as its tokens are written (`makes_variableDefinition`,
`makes_inst`).
-/

namespace Courier

open Courier.Syntax

/-! ## Targets -/

/-- What an instance may begin with. -/
def Token.IsReceiver (t : Token) : Prop :=
  t.kind = .identifier ∨ t.keyword? = some .self ∨ t.keyword? = some .super

/-- The texts of some tokens, one behind the other. -/
def spelled (w : List Token) : String :=
  String.join (w.map Token.text)

/-- What can be assigned to, and the node that stands for it: a name with a type, or an instance. -/
inductive Target : List Token → Payload → Prop
  | typed {name colon : Token} {type : List Token} (hname : name.kind = .identifier) (hcolon : colon.kind = .colon)
      (htype : Spells (.symbol .typeName) type) : Target (name :: colon :: type) (.variable name.text (some (spelled type)))
  | inst {w : List Token} (h : Spells (.symbol .inst) w) : Target w (.inst (spelled w) none)

/-- As far as names and operators go, the text of a token tells its kind. -/
structure Token.Plain (t : Token) : Prop where
  dot (h : t.kind = .dot) : t.text = "."
  assignment (h : t.kind = .identifier ∨ t.kind.isMessageOperator = true) : t.text = ":=" ↔ t.kind = .assignment

theorem spelled_cons (t : Token) (w : List Token) : spelled (t :: w) = t.text ++ spelled w := by
  simp [spelled]

namespace Syntax

variable {w w' u u' v : List Token} {op op' : Token} {p p' : Payload}

/-- An instance is its first token and what is behind dots. -/
theorem spells_inst : Spells (.symbol .inst) w ↔ ∃ (t : Token) (d : List Token), t.IsReceiver ∧ Spells dottedRest d ∧ w = t :: d := by
  rw [spells_symbol]
  constructor
  · intro h
    obtain ⟨x, d, hx, hd, rfl⟩ := derives_seq.1 h
    rcases derives_alt.1 hx with hx | hx
    · obtain ⟨t, ht, rfl⟩ := derives_kind.1 hx
      exact ⟨t, d, .inl ht, hd, rfl⟩
    · rcases derives_alt.1 hx with hx | hx
      · obtain ⟨t, ht, rfl⟩ := derives_word.1 hx
        exact ⟨t, d, .inr (.inl ht), hd, rfl⟩
      · obtain ⟨t, ht, rfl⟩ := derives_word.1 hx
        exact ⟨t, d, .inr (.inr ht), hd, rfl⟩
  · rintro ⟨t, d, ht | ht | ht, hd, rfl⟩
    · exact Derives.seq (v := [t]) (.left (.token ht)) hd
    · exact Derives.seq (v := [t]) (.right (.left (.token ht))) hd
    · exact Derives.seq (v := [t]) (.right (.right (.token ht))) hd

/-- There is one way to cut an instance off, if no dot is behind it. -/
theorem inst_append_inj (hw : Spells (.symbol .inst) w) (hw' : Spells (.symbol .inst) w') (hu : Unlike .dot u) (hu' : Unlike .dot u')
    (h : w ++ u = w' ++ u') : w = w' ∧ u = u' := by
  obtain ⟨t, d, -, hd, rfl⟩ := spells_inst.1 hw
  obtain ⟨t', d', -, hd', rfl⟩ := spells_inst.1 hw'
  rw [List.cons_append, List.cons_append] at h
  obtain ⟨rfl, hrest⟩ := List.cons.inj h
  have hbehind := behindDots_append hd hu
  rw [hrest, behindDots_append hd' hu'] at hbehind
  obtain rfl := Option.some.inj hbehind
  exact ⟨congrArg (t :: ·) (List.append_cancel_right hrest), rfl⟩

/-- No instance begins with a name and a colon. -/
theorem inst_append_ne (hw : Spells (.symbol .inst) w) (hop : op.kind ≠ .colon) {name colon : Token} (hcolon : colon.kind = .colon) :
    w ++ op :: u ≠ name :: colon :: v := by
  obtain ⟨t, d, -, hd, rfl⟩ := spells_inst.1 hw
  intro h
  obtain ⟨-, hrest⟩ := List.cons.inj h
  cases hd' : d with
  | nil =>
    rw [hd'] at hrest
    obtain ⟨rfl, -⟩ := List.cons.inj hrest
    exact hop hcolon
  | cons x d' =>
    obtain ⟨ws, hws, rfl⟩ := derives_star.1 hd
    cases ws with
    | nil => nomatch hd'
    | cons y ws =>
      obtain ⟨a, b, ha, -, rfl⟩ := derives_seq.1 (hws y (by simp))
      obtain ⟨dot, hdot, rfl⟩ := derives_kind.1 ha
      obtain ⟨rfl, -⟩ := List.cons.inj hrest
      rw [hcolon] at hdot
      nomatch hdot

/-- There is one way to cut a target off in front of an assignment operator. -/
theorem target_append_inj (hw : Target w p) (hw' : Target w' p') (hop : op.kind = .assignment) (hop' : op'.kind = .assignment)
    (h : w ++ op :: u = w' ++ op' :: u') : w = w' ∧ op = op' ∧ u = u' ∧ p = p' := by
  have hdot : ∀ {t : Token} {z : List Token}, t.kind = .assignment → Unlike .dot (t :: z) := fun ht => by simp [ht]
  cases hw with
  | @typed name colon type hname hcolon htype =>
    cases hw' with
    | @typed name' colon' type' hname' hcolon' htype' =>
      rw [List.cons_append, List.cons_append, List.cons_append, List.cons_append] at h
      obtain ⟨rfl, hrest⟩ := List.cons.inj h
      obtain ⟨rfl, htail⟩ := List.cons.inj hrest
      have hbehind := behindName_append htype (hdot (z := u) hop)
      rw [htail, behindName_append htype' (hdot hop')] at hbehind
      obtain ⟨rfl, rfl⟩ := List.cons.inj (Option.some.inj hbehind)
      obtain rfl := List.append_cancel_right htail
      exact ⟨rfl, rfl, rfl, rfl⟩
    | inst hinst => exact absurd h.symm (inst_append_ne hinst (by simp [hop']) hcolon)
  | inst hinst =>
    cases hw' with
    | @typed name' colon' type' hname' hcolon' htype' => exact absurd h (inst_append_ne hinst (by simp [hop]) hcolon')
    | inst hinst' =>
      obtain ⟨rfl, hrest⟩ := inst_append_inj hinst hinst' (hdot hop) (hdot hop') h
      obtain ⟨rfl, rfl⟩ := List.cons.inj hrest
      exact ⟨rfl, rfl, rfl, rfl⟩

end Syntax

namespace Parser

open Courier.Grammar

/-- The node has the payload, stands at the place of the first of the tokens, and has these children, in this order, among its own. -/
def Stands (T : Tree) (i : NodeId) (p : Payload) (v : List Token) (below : List NodeId) : Prop :=
  ∃ l, T.Bears i p l below ∧ ∀ t ∈ v.head?, l = t.location

section

variable {T T' : Tree} {i : NodeId} {p : Payload} {v : List Token} {below : List NodeId}

theorem Stands.later (h : Stands T i p v below) (hT : T.Extends T') : Stands T' i p v below := by
  obtain ⟨l, hbears, hl⟩ := h
  exact ⟨l, hbears.later hT, hl⟩

theorem Stands.loose (h : Stands T i p v below) : Stands T i p v [] := by
  obtain ⟨l, ⟨n, hn, hp, hl, -⟩, hplace⟩ := h
  exact ⟨l, ⟨n, hn, hp, hl, List.nil_sublist _⟩, hplace⟩

theorem Stands.payload? (h : Stands T i p v below) : T.payload? i = some p := by
  obtain ⟨l, hbears, -⟩ := h
  exact hbears.payload?

end

/-! ## Names and instances -/

section

variable {T : Tree} {v : List Token}

/-- What goes on with a dotted name is told as it is written. -/
theorem makes_dottedRest (hv : ∀ t ∈ v, t.Plain) {what name : String} : Makes T v (Grammar.dottedRest what name)
    (fun a v' _ => ∃ d, v = d ++ v' ∧ Spells dottedRest d ∧ a = name ++ spelled d ∧ Unlike .dot v') := by
  have hround : ∀ (a : String) (v₁ : List Token) (T : Tree), (∃ d, v = d ++ v₁ ∧ Spells dottedRest d ∧ a = name ++ spelled d) →
      (v₁.head?.map Token.kind == some .dot) = true → Makes T v₁ (do
        let _ ← take
        return a ++ "." ++ (← identifier what))
      (fun a' v' _ => (∃ d, v = d ++ v' ∧ Spells dottedRest d ∧ a' = name ++ spelled d) ∧ v'.length < v₁.length) := by
    rintro a v₁ T ⟨d, hd, hspells, rfl⟩ hmore
    refine makes_take.bind (fun dot v₂ T₂ _ hdot => ?_)
    refine makes_identifier.bind (fun next v₃ T₃ _ ⟨t, ht, hkind, hnext⟩ => makes_pure (fun _ _ => ?_))
    subst hdot ht hnext
    have hdotkind : dot.kind = .dot := by simpa using hmore
    have hdottext : dot.text = "." := (hv dot (by simp [hd])).dot hdotkind
    refine ⟨⟨d ++ ([dot] ++ [t]), by simp [hd], derives_star_append hspells (.seq (.token hdotkind) (.token hkind)), ?_⟩, ?_⟩
    · simp [spelled, hdottext, String.append_assoc]
    · simp only [List.length_cons]
      omega
  unfold Grammar.dottedRest
  have hloop := makes_repeatWhile (T := T) (a := name) (looks_atKind .dot) hround ⟨[], rfl, .starNil, by simp [spelled]⟩
  refine hloop.mono (fun a v' T' _ ⟨⟨d, hd, hspells, ha⟩, hend⟩ => ⟨d, hd, hspells, ha, fun t ht hdot => ?_⟩)
  rw [ht] at hend
  simp [hdot] at hend

theorem makes_typeDeclaration (hv : ∀ t ∈ v, t.Plain) : Makes T v typeDeclaration
    (fun a v' _ => ∃ w, v = w ++ v' ∧ Spells (.symbol .typeName) w ∧ a = spelled w ∧ Unlike .dot v') := by
  unfold typeDeclaration
  refine makes_identifier.bind (fun name v₁ T₁ _ ⟨t, ht, hkind, hname⟩ => ?_)
  subst ht hname
  refine (makes_dottedRest (fun u hu => hv u (List.mem_cons_of_mem t hu))).mono (fun a v' T' _ ⟨d, hd, hspells, ha, hend⟩ => ?_)
  exact ⟨t :: d, by rw [hd, List.cons_append], spells_typeName.2 ⟨t, d, hkind, hspells, rfl⟩, by rw [ha, spelled_cons], hend⟩

/-- The tokens begin with an instance, which the node stands for, and no dot is behind it. -/
def NamesInst (T : Tree) (i : NodeId) (v v' : List Token) : Prop :=
  ∃ w, v = w ++ v' ∧ Spells (.symbol .inst) w ∧ Unlike .dot v' ∧ Stands T i (.inst (spelled w) none) v []

/-- What names an instance is taken as it is written. -/
theorem makes_instanceHead : Makes T v instanceHead (fun name v' _ => ∃ t, v = t :: v' ∧ name = t.text ∧ t.IsReceiver) := by
  have htake : ∀ T, (∀ t ∈ v.head?, t.IsReceiver) →
      Makes T v (do return (← take).text) (fun name v' _ => ∃ t, v = t :: v' ∧ name = t.text ∧ t.IsReceiver) := by
    intro T hv
    refine makes_take.bind (fun t v' T' _ ht => makes_pure (fun _ _ => ⟨t, ht, rfl, hv t ?_⟩))
    rw [ht]
    rfl
  unfold instanceHead
  refine makes_look_bind looks_look (fun T' _ => ?_)
  split
  · rename_i hlook
    exact htake T' (fun t ht => .inl (matches_kind_of_look hlook t ht))
  · rename_i hlook
    exact htake T' (fun t ht => .inr (.inl (matches_word_of_look hlook t ht)))
  · rename_i hlook
    exact htake T' (fun t ht => .inr (.inr (matches_word_of_look hlook t ht)))
  · exact makes_failFound

theorem makes_inst (hv : ∀ t ∈ v, t.Plain) : Makes T v Grammar.inst (fun i v' T' => NamesInst T' i v v') := by
  unfold Grammar.inst
  refine makes_location.bind (fun start v₁ T₁ _ hstart => ?_)
  obtain ⟨hplace, rfl⟩ := hstart
  refine makes_instanceHead.bind (fun first v₂ T₂ _ ⟨t, ht, hfirst, hkind⟩ => ?_)
  subst ht hfirst
  refine (makes_dottedRest (fun u hu => hv u (List.mem_cons_of_mem t hu))).bind (fun name v₃ T₃ _ ⟨d, hd, hspells, hname, hend⟩ => ?_)
  refine makes_openNode.mono (fun i v' T' _ ⟨hv', hbears⟩ => ?_)
  subst hv' hname
  exact ⟨t :: d, by rw [hd, List.cons_append], spells_inst.2 ⟨t, d, hkind, hspells, rfl⟩, hend, start, by rwa [spelled_cons], hplace⟩

/-- A name with a type is told as it is written. -/
theorem makes_variableDefinition {inner : Inner} (hv : ∀ t ∈ v, t.Plain)
    (htype : ∀ {T : Tree} {v : List Token}, (∀ t ∈ v, t.Plain) → Makes T v (inner.parse .typeDeclaration)
      (fun a v' _ => ∃ w, v = w ++ v' ∧ Spells (.symbol .typeName) w ∧ a = spelled w ∧ Unlike .dot v')) :
    Makes T v (variableDefinition inner) (fun i v' T' => ∃ w p, v = w ++ v' ∧ Target w p ∧ p.kind = .variable ∧
      Stands T' i p v []) := by
  have hnamed : ∀ T, Makes T v (nameWithType inner "variable name") (fun named v' _ => ∃ name colon type,
      v = name :: colon :: (type ++ v') ∧ name.kind = .identifier ∧ colon.kind = .colon ∧ Spells (.symbol .typeName) type ∧
      named = (name.text, spelled type)) := by
    intro T
    unfold nameWithType
    refine makes_identifier.bind (fun text v₁ T₁ _ ⟨name, hname, hkind, htext⟩ => ?_)
    refine makes_expect.bind (fun colon v₂ T₂ _ ⟨hcolon, hcolonkind⟩ => ?_)
    subst hname hcolon htext
    refine (htype (fun t ht => hv t (by simp [ht]))).bind (fun typeName v₃ T₃ _ ⟨type, htypes, hspells, htext, _⟩ => ?_)
    subst htypes htext
    exact makes_pure (fun _ _ => ⟨name, colon, type, rfl, hkind, hcolonkind, hspells, rfl⟩)
  unfold variableDefinition typedNode
  refine makes_location.bind (fun start v₁ T₁ _ hstart => ?_)
  obtain ⟨hplace, rfl⟩ := hstart
  refine (hnamed T₁).bind (fun named v₂ T₂ _ ⟨name, colon, type, hv₂, hkind, hcolon, hspells, htold⟩ => ?_)
  subst htold
  refine makes_openNode.mono (fun i v' T' _ ⟨hv', hbears⟩ => ?_)
  subst hv'
  exact ⟨name :: colon :: type, _, by simp [hv₂], .typed hkind hcolon hspells, rfl, start, hbears, hplace⟩

end

end Parser

end Courier
