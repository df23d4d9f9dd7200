import Courier.Proofs.Parser.Making

/-!
# Lists of flags

The flags that are read behind an at sign are the texts of the names between the brackets there, and none where no bracket stands
(`makes_flagList`). So they can be told from the tokens alone (`flagsBehind`).
-/

namespace Courier

/-- The token may name a flag: it is an identifier or a keyword. -/
def Token.isFlagName (t : Token) : Bool :=
  t.kind == .identifier || t.kind == .keyword

/-- The flags that some tokens name. -/
def flagNames (items : List Token) : List String :=
  (items.filter Token.isFlagName).map Token.text

/-- The flags behind an at sign: those between the brackets, or none if no bracket is next. -/
def flagsBehind : List Token → List String
  | [] => []
  | opening :: rest => if opening.kind = .leftBracket then flagNames (rest.takeWhile (fun t => t.kind != .rightBracket)) else []

/-- The flags behind each at sign, in their order. -/
def flagLists : List Token → List (List String)
  | [] => []
  | t :: rest => if t.kind = .atSign then flagsBehind rest :: flagLists rest else flagLists rest

/-- There are as many lists of flags as at signs. -/
theorem length_flagLists (ts : List Token) : (flagLists ts).length = ts.countP (fun t => t.kind == .atSign) := by
  induction ts with
  | nil => rfl
  | cons t rest ih =>
    unfold flagLists
    by_cases ht : t.kind = .atSign
    · rw [if_pos ht, List.length_cons, ih, List.countP_cons_of_pos (by simp [ht])]
    · rw [if_neg ht, ih, List.countP_cons_of_neg (by simp [ht])]

/-- Every flag is the text of a name. -/
theorem exists_of_mem_flagsBehind {ts : List Token} {f : String} (h : f ∈ flagsBehind ts) :
    ∃ t ∈ ts, (t.kind = .identifier ∨ t.kind = .keyword) ∧ t.text = f := by
  cases ts with
  | nil => nomatch h
  | cons opening rest =>
    rw [flagsBehind, flagNames] at h
    split at h
    · obtain ⟨t, ht, rfl⟩ := List.mem_map.1 h
      obtain ⟨hmem, hname⟩ := List.mem_filter.1 ht
      exact ⟨t, List.mem_cons_of_mem _ ((List.takeWhile_sublist _).subset hmem), by simpa [Token.isFlagName] using hname, rfl⟩
    · nomatch h

/-- The tokens begin with a list of flags, in front of `v'`. -/
def ListsFlags (v v' : List Token) (fs : List String) : Prop :=
  ∃ opening items closing, v = opening :: (items ++ closing :: v') ∧ opening.kind = .leftBracket ∧ closing.kind = .rightBracket ∧
    (∀ u ∈ items, u.kind ≠ .rightBracket) ∧ fs = flagNames items

theorem ListsFlags.eq_flagsBehind {v v' : List Token} {fs : List String} (h : ListsFlags v v' fs) : fs = flagsBehind v := by
  obtain ⟨opening, items, closing, rfl, hopening, hclosing, hitems, rfl⟩ := h
  have htake : (items ++ closing :: v').takeWhile (fun t => t.kind != .rightBracket) = items := by
    rw [List.takeWhile_append_of_pos (by simpa using hitems), List.takeWhile_cons_of_neg (by simp [hclosing]), List.append_nil]
  rw [flagsBehind, if_pos hopening, htake]

theorem flagsBehind_of_not_bracket {v : List Token} (h : v.head?.map Token.kind ≠ some .leftBracket) : flagsBehind v = [] := by
  cases v with
  | nil => rfl
  | cons t v => exact if_neg (fun ht => h (congrArg some ht))

namespace Parser

open Courier.Grammar

variable {T : Tree} {v : List Token}

theorem makes_flagName : Makes T v flagName (fun t v' _ => v = t :: v' ∧ (t.kind = .identifier ∨ t.kind = .keyword)) := by
  have htake : ∀ {k : TokenKind} {o : Option Keyword} {T : Tree}, k = .identifier ∨ k = .keyword →
      (v.head?.map Token.kind, v.head?.bind Token.keyword?) = (some k, o) →
      Makes T v take (fun t v' _ => v = t :: v' ∧ (t.kind = .identifier ∨ t.kind = .keyword)) := by
    intro k o T hk hlook
    refine makes_take.mono (fun t v' T' _ ht => ⟨ht, ?_⟩)
    have hkind : t.kind = k := kind_of_look hlook t (by rw [ht]; rfl)
    exact hkind ▸ hk
  unfold flagName
  refine makes_look_bind looks_look (fun T' _ => ?_)
  split
  · rename_i hlook
    exact htake (.inl rfl) hlook
  · rename_i hlook
    exact htake (.inr rfl) hlook
  · exact makes_failFound

/-- A name is added to the flags, and the comma behind it is passed. -/
theorem makes_flag {fs : List String} : Makes T v (flag fs) (fun fs' v' _ =>
    ∃ items, v = items ++ v' ∧ items ≠ [] ∧ (∀ u ∈ items, u.kind ≠ .rightBracket) ∧ fs' = fs ++ flagNames items) := by
  unfold flag
  refine makes_flagName.bind (fun t v₁ T₁ _ ⟨ht, hkind⟩ => ?_)
  subst ht
  have hname : t.isFlagName = true := by rcases hkind with h | h <;> simp [Token.isFlagName, h]
  have hbracket : t.kind ≠ .rightBracket := by rcases hkind with h | h <;> simp [h]
  unfold flagEnd
  refine makes_look_bind looks_look (fun T₂ _ => ?_)
  split
  · rename_i hlook
    refine makes_take.bind (fun c v₃ T₃ _ hc => makes_pure (fun _ _ => ?_))
    subst hc
    have hcomma : c.kind = .comma := kind_of_look hlook c rfl
    have hother : c.isFlagName = false := by simp [Token.isFlagName, hcomma]
    refine ⟨[t, c], rfl, List.cons_ne_nil _ _, ?_, by simp [flagNames, hname, hother]⟩
    simp [hbracket, hcomma]
  · exact makes_pure (fun _ _ => ⟨[t], rfl, List.cons_ne_nil _ _, by simp [hbracket], by simp [flagNames, hname]⟩)
  · exact makes_failFound

/-- Flags are told as their names are written. -/
theorem makes_flagList : Makes T v flagList (fun fs v' _ =>
    fs = [] ∧ v.head?.map Token.kind ≠ some .leftBracket ∨ ListsFlags v v' fs) := by
  unfold flagList
  refine makes_look_bind (looks_atKind .leftBracket) (fun T₁ _ => ?_)
  split
  · rename_i hopened
    refine makes_take.bind (fun opening v₁ T₂ _ hv => ?_)
    subst hv
    have hopening : opening.kind = .leftBracket := by simpa using hopened
    have hround : ∀ (fs : List String) (v₂ : List Token) (T : Tree),
        (∃ items, v₁ = items ++ v₂ ∧ (∀ u ∈ items, u.kind ≠ .rightBracket) ∧ fs = flagNames items) →
        (!(v₂.head?.map Token.kind == some .rightBracket)) = true → Makes T v₂ (flag fs) (fun fs' v' _ =>
          (∃ items, v₁ = items ++ v' ∧ (∀ u ∈ items, u.kind ≠ .rightBracket) ∧ fs' = flagNames items) ∧ v'.length < v₂.length) := by
      rintro fs v₂ T ⟨items, rfl, hitems, rfl⟩ -
      refine makes_flag.mono (fun fs' v' T' _ ⟨more, hv, hne, hmore, hfs⟩ => ⟨⟨items ++ more, by rw [hv, List.append_assoc], ?_, ?_⟩, ?_⟩)
      · exact fun u hu => (List.mem_append.1 hu).elim (hitems u) (hmore u)
      · rw [hfs, flagNames, flagNames, flagNames, List.filter_append, List.map_append]
      · have hpos := List.length_pos_iff.2 hne
        rw [hv, List.length_append]
        omega
    refine (makes_repeatWhile ((looks_atKind .rightBracket).map not) hround ⟨[], rfl, List.forall_mem_nil _, rfl⟩).bind
      (fun fs v₃ T₃ _ ⟨⟨items, hitems, hnone, hfs⟩, hclosed⟩ => ?_)
    refine makes_take.bind (fun closing v₄ T₄ _ hv => makes_pure (fun _ _ => .inr ⟨opening, items, closing, ?_, hopening, ?_, hnone, hfs⟩))
    · rw [hitems, hv]
    · rw [hv] at hclosed
      simpa using hclosed
  · rename_i hother
    exact makes_pure (fun _ _ => .inl ⟨rfl, by simpa using hother⟩)

end Parser

end Courier
