import Courier.Proofs.Lexical.Layout
import Courier.Proofs.Parser.Parallel
import Courier.Proofs.Parser.Statements
import Courier.Proofs.Tree.WellShaped
import Mathlib.Data.List.Nodup

/-!
# Which statements are assignments

The children of a block of statements are told by the tokens they were read from (`Telling`). A parse keeps that: only the production of
blocks gives a block a child, and that one was just read as a statement. So a statement that begins with a target and `:=` is an assignment
if it begins with a name, and a message that is sent if it begins with `self` or `super` (`Stream.assigns_of_parse`).
-/

namespace Courier

open Courier.Syntax

/-! ## The texts of tokens -/

/-- A token of a kind that one character has is written as that character. -/
theorem Lexical.IsLexeme.eq_of_mem_singles {kind : TokenKind} {text rest : List Char} {c : Char} (h : Lexical.IsLexeme kind text rest)
    (hc : (c, kind) ∈ Lexical.singles) : text = [c] := by
  have hkinds : (Lexical.singles.map Prod.snd).Nodup := by decide
  have hmem : kind ∈ Lexical.singles.map Prod.snd := List.mem_map_of_mem hc
  cases h with
  | word _ _ hkind _ => cases hkind <;> exact absurd hmem (by decide)
  | @dotted n _ _ _ _ _ =>
    match n, hmem with
    | 0, hmem => exact absurd hmem (by decide)
    | 1, hmem => exact absurd hmem (by decide)
    | _ + 2, hmem => exact absurd (show TokenKind.versionLiteral ∈ _ from hmem) (by decide)
  | single hc' => rw [(Prod.mk.inj (List.inj_on_of_nodup_map hkinds hc hc' rfl)).1]
  | _ => exact absurd hmem (by decide)

theorem Lexical.IsLexeme.eq_of_assignment {text rest : List Char} (h : Lexical.IsLexeme .assignment text rest) : text = [':', '='] := by
  generalize hk : TokenKind.assignment = k at h
  cases h with
  | word _ _ hkind _ => cases hkind <;> contradiction
  | @dotted n _ _ _ _ _ => rcases n with _ | _ | n <;> contradiction
  | assignment => rfl
  | single hc =>
    subst hk
    revert hc
    simp [Lexical.singles]
  | _ => contradiction

/-- Of the tokens of a text, a dot is written as one, and of names and operators only an assignment is written `:=`. -/
theorem Stream.plain_of_tokenize {file text : String} {s : Stream} (hs : Stream.tokenize file text = .ok s) {t : Token} (ht : t ∈ s.tokens) :
    t.Plain := by
  obtain ⟨rest, hlexeme⟩ := Stream.isLexeme_of_tokenize hs ht
  have hsingle : ∀ {c : Char}, (c, t.kind) ∈ Lexical.singles → t.text.toList = [c] := fun hc => hlexeme.eq_of_mem_singles hc
  constructor
  · intro hdot
    refine String.toList_injective ?_
    rw [hsingle (c := '.') (by rw [hdot]; decide)]
    decide
  · intro hkind
    have hnot : ∀ {c : Char}, (c, t.kind) ∈ Lexical.singles → (t.text = ":=" ↔ t.kind = .assignment) := by
      intro c hc
      have htext := hsingle hc
      constructor
      · intro h
        rw [h] at htext
        nomatch htext
      · intro h
        rw [h] at hc
        exact absurd (show TokenKind.assignment ∈ Lexical.singles.map Prod.snd from List.mem_map_of_mem hc) (by decide)
    rcases hkind with hname | hoperator
    · obtain ⟨ts, hts, rfl⟩ := Stream.tokenize_eq_ok.1 hs
      have hnames := Parser.named_of_tokensFrom hts t ht hname
      constructor
      · intro h
        exact absurd (by rw [h]; decide) hnames
      · intro h
        rw [hname] at h
        nomatch h
    · have hoperators : ∀ k : TokenKind, k.isMessageOperator = true → k = .assignment ∨ k ∈ Lexical.singles.map Prod.snd := by
        intro k
        cases k <;> decide
      rcases hoperators t.kind hoperator with hk | hk
      · rw [hk] at hlexeme
        refine ⟨fun _ => hk, fun _ => String.toList_injective ?_⟩
        rw [hlexeme.eq_of_assignment]
        decide
      · obtain ⟨⟨c, k⟩, hc, rfl⟩ := List.mem_map.1 hk
        exact hnot hc

namespace Parser

open Courier.Grammar ParserState

/-! ## Blocks whose children are told by their tokens -/

/-- The node was read as a statement that stands somewhere among the tokens, and tells of it. -/
def Stated (ts : List Token) (T : Tree) (i : NodeId) : Prop :=
  ∃ before v after, ts = before ++ (v ++ after) ∧ Spells (.symbol .statement) v ∧ Told T (v ++ after) i

/-- The tokens ahead are the last ones of a stream, no mark is saved, and the children of every block of statements were read as
statements of that stream. -/
structure Telling (base : Stream) (s : ParserState) : Prop where
  unmarked : s.stream.saved = none
  ahead : s.significant <:+ significant base.tokens
  stated {i : NodeId} {n : Node} (hn : s.tree.node? i = some n) (hblock : n.payload = .statementsBlock) {j : NodeId}
    (hj : j ∈ n.children) : Stated (significant base.tokens) s.tree j

section

variable {base : Stream} {ts : List Token} {T T' : Tree} {s t : ParserState} {i j : NodeId}

theorem Stated.later (h : Stated ts T i) (hT : T.Extends T') : Stated ts T' i := by
  obtain ⟨before, v, after, hts, hv, htold⟩ := h
  exact ⟨before, v, after, hts, hv, htold.later hT⟩

/-- A tree that keeps another has no child of a block that the other has not. -/
theorem Telling.keeps (h : Telling base s) (htree : s.tree.Keeps t.tree) (hsaved : t.stream.saved = none)
    (hahead : t.significant <:+ s.significant) : Telling base t := by
  refine ⟨hsaved, hahead.trans h.ahead, fun {i n} hn hblock j hj => ?_⟩
  rcases htree.old_or_new hn with ⟨m, hm, hnode⟩ | hnone
  · exact (h.stated hm (hnode.payload ▸ hblock) (hnode.children ▸ hj)).later htree.extends
  · rw [hnone] at hj
    nomatch hj

/-- A node that is linked below one that is no block, or that was read as a statement. -/
theorem Telling.attached (h : Telling base s)
    (hij : s.tree.payload? i ≠ some .statementsBlock ∨ Stated (significant base.tokens) s.tree j) : Telling base (s.attached i j) := by
  have hextends : s.tree.Extends (s.tree.attach i j) := Tree.extends_attach _ _ _
  refine ⟨h.unmarked, h.ahead, fun {k n'} hn' hblock c hc => ?_⟩
  obtain ⟨n, hn, hpayload, -, hchildren⟩ := Tree.exists_node?_of_attach hn'
  rw [hchildren] at hc
  have hold : c ∈ n.children → Stated (significant base.tokens) s.tree c := h.stated hn (hpayload.symm.trans hblock)
  split at hc
  · rename_i hk
    subst hk
    rcases List.mem_append.1 hc with hc | hc
    · exact (hold hc).later hextends
    · obtain rfl := List.mem_singleton.1 hc
      refine (hij.resolve_left (fun hnot => hnot ?_)).later hextends
      rw [Tree.payload?, hn, Option.map_some, ← hpayload, hblock]
  · exact (hold hc).later hextends

end

/-- A run with itself: the tree is only extended, and its blocks are told by their tokens. -/
def telling (base : Stream) : Coupling where
  World := Tree
  Later T T' := T.Extends T'
  State T s s' := s' = s ∧ s.tree = T ∧ Telling base s
  Place _ l l' := l' = l
  Node T i i' := i' = i ∧ (T.payload? i).isSome = true
  Owner T i i' := i' = i ∧ ∃ p, T.payload? i = some p ∧ p ≠ .statementsBlock
  Failed _ _ _ _ _ := True

/-- States whose tree keeps the one before are a later world. -/
theorem telling_onward {base : Stream} {s t : ParserState} {bonds : List Bond} (h : Telling base s) (htree : s.tree.Keeps t.tree)
    (hsaved : t.stream.saved = none) (hahead : t.significant <:+ s.significant) (hbonds : ∀ b ∈ bonds, (telling base).Holds t.tree b) :
    (telling base).Onward s.tree t t bonds :=
  ⟨t.tree, htree.extends, ⟨rfl, rfl, h.keeps htree hsaved hahead⟩, hbonds⟩

instance telling_builds (base : Stream) : (telling base).Builds where
  refl T := .refl T
  trans h h' := h.trans h'
  place_later _ hl := hl
  node_later h hi := by
    obtain ⟨p, hp⟩ := Option.isSome_iff_exists.1 hi.2
    exact ⟨hi.1, Option.isSome_iff_exists.2 ⟨p, h.payload? hp⟩⟩
  owner_later h hi := by
    obtain ⟨hsame, p, hp, hblock⟩ := hi
    exact ⟨hsame, p, h.payload? hp, hblock⟩
  folded := Token.folded_of_sign
  fault_refl _ := rfl
  fault_text h fault := congrArg fault (congrArg Prod.snd h)
  unmarked := by
    rintro T _ s ⟨rfl, rfl, h⟩
    exact ⟨h.unmarked, h.unmarked⟩
  signs := by
    rintro T _ s ⟨rfl, -, -⟩
    rfl
  settle := by
    rintro T _ s ⟨rfl, rfl, h⟩
    refine telling_onward h (keeps_settle s) (by simpa using h.unmarked) (by simp) (fun b hb => ?_)
    obtain rfl := List.mem_singleton.1 hb
    rfl
  taken := by
    rintro T _ s t t' v v' ⟨rfl, rfl, h⟩ hs hs'
    refine telling_onward h (keeps_taken s) (by simpa using h.unmarked) ?_ (fun b hb => ?_)
    · rw [significant_taken hs, hs]
      exact List.suffix_cons t v
    · obtain rfl := List.mem_singleton.1 hb
      exact congrArg Token.location (List.cons.inj (hs'.symm.trans hs)).1
  keepFlags := by
    rintro T _ s ⟨rfl, rfl, h⟩ flags
    exact telling_onward h (.refl _) h.unmarked List.suffix_rfl (fun _ hb => nomatch hb)
  enter := by
    rintro T _ s ⟨rfl, rfl, h⟩ construct
    exact telling_onward (t := s.enter construct) h (.refl _) h.unmarked List.suffix_rfl (fun _ hb => nomatch hb)
  leave := by
    rintro T T' _ s _ t ⟨rfl, rfl, -⟩ - ⟨rfl, rfl, h⟩
    exact telling_onward (t := t.leave s.checkpoint) h (.refl _) h.unmarked List.suffix_rfl (fun _ hb => nomatch hb)
  failed_here _ _ := trivial
  failed_at _ _ _ := trivial
  abandon {T _ _ _ _ _ _ _} _ _ _ := ⟨T, .refl T, trivial⟩
  shared _ := trivial
  openNode := by
    rintro T _ s _ l p ⟨rfl, rfl, h⟩ rfl - - -
    have hsaved : (s.openNode p l).2.stream.saved = none := by
      rw [stream_openNode]
      exact h.unmarked
    have hmade := (bears_openNode s p l).payload?
    refine telling_onward (t := (s.openNode p l).2) h (keeps_openNode s p l) hsaved (by simp) (fun b hb => ?_)
    obtain rfl := List.mem_singleton.1 hb
    exact ⟨rfl, Option.isSome_iff_exists.2 ⟨p, hmade⟩⟩
  attach := by
    rintro T _ s _ i _ j ⟨rfl, rfl, h⟩ ⟨rfl, p, hp, hblock⟩ ⟨rfl, -⟩
    have hnot : s.tree.payload? i ≠ some .statementsBlock := fun heq => hblock (Option.some.inj (hp.symm.trans heq))
    exact ⟨_, Tree.extends_attach _ _ _, ⟨rfl, rfl, h.attached (.inl hnot)⟩, fun _ hb => nomatch hb⟩
  owner := by
    rintro T _ s _ i ⟨rfl, rfl, h⟩ ⟨rfl, hi⟩ hkind
    obtain ⟨p, hp⟩ := Option.isSome_iff_exists.1 hi
    refine ⟨rfl, p, hp, ?_⟩
    rintro rfl
    obtain ⟨n, hn, hpayload⟩ := Option.map_eq_some_iff.1 hp
    rw [Tree.kind?, hn, Option.map_some, Node.kind, hpayload] at hkind
    exact hkind rfl
  nodeLocation := by
    rintro T _ s _ i ⟨rfl, rfl, h⟩ ⟨rfl, hi⟩
    obtain ⟨p, hp⟩ := Option.isSome_iff_exists.1 hi
    obtain ⟨n, hn, -⟩ := Option.map_eq_some_iff.1 hp
    exact ⟨n, n, hn, hn, rfl⟩

instance telling_exact (base : Stream) : (telling base).Exact where
  text h := congrArg Prod.snd h
  shared_any _ := trivial

/-- A block gets the statements that were read in it as its children. -/
theorem parallel_statements_telling {base : Stream} (hplain : ∀ t ∈ significant base.tokens, t.Plain) (room : Nat) (Γ : List Bond)
    (h : Inner.Coupled (telling base) ⟨fun rule => Rule.parse room rule⟩) :
    (telling base).Parallel false Γ (statements ⟨fun rule => Rule.parse room rule⟩) (statements ⟨fun rule => Rule.parse room rule⟩)
      (fun i j => [.node i j]) := by
  have hround : ∀ {block block' : NodeId} {Γ : List Bond}, .node block block' ∈ Γ → (telling base).Parallel true Γ
      (Rule.statement.parse room >>= fun i => attach block i) (Rule.statement.parse room >>= fun i => attach block' i)
      (fun _ _ => []) := by
    intro block block' Γ hblock w s s' hs hΓ
    obtain ⟨rfl, -⟩ := hΓ _ hblock
    have hstatement : (telling base).Parallel true Γ (Rule.statement.parse room) (Rule.statement.parse room) (fun i j => [.node i j]) :=
      h.rule .statement trivial
    rcases hstatement w s s' hs hΓ with ⟨i, i', t, t', hmt, hnt, hstep⟩ | ⟨e, e', t, t', hmt, hnt, hfail⟩
    · obtain ⟨rfl, rfl, htelling⟩ := id hs
      obtain ⟨w', hlater, ⟨rfl, rfl, ht⟩, hbonds⟩ := hstep.onward
      obtain ⟨rfl, -⟩ := hbonds (.node i i') List.mem_cons_self
      have hsuffix := htelling.ahead
      have hread := (((sound_parse room).form (r := .statement) rfl s'.significant) s' htelling.unmarked rfl).ok hmt
      obtain ⟨-, -, v, hv, hsig⟩ := hread
      have htold := (makes_statement (fun u hu => hplain u (hsuffix.subset hu)) s' (.refl _) htelling.unmarked rfl).ok hmt
      obtain ⟨before, hbefore⟩ := hsuffix
      have hstated : Stated (significant base.tokens) t'.tree i' :=
        ⟨before, v, t'.significant, by rw [← hbefore, hsig], hv, hsig ▸ htold.2.2⟩
      have hattach : ∀ u : ParserState, attach block' i' u = .ok () (u.attached block' i') := fun _ => rfl
      refine .inl ⟨(), (), _, _, (bind_eq_of_ok hmt).trans (hattach t'), (bind_eq_of_ok hnt).trans (hattach t'), ?_⟩
      refine ⟨⟨_, hlater.trans (Tree.extends_attach _ _ _), ⟨rfl, rfl, ht.attached (.inr hstated)⟩, fun _ hb => nomatch hb⟩,
        hstep.constructs, hstep.constructs', hstep.length_le, hstep.length_lt⟩
    · exact .inr ⟨e, e', t, t', bind_eq_of_error hmt, bind_eq_of_error hnt, hfail⟩
  unfold statements
  refine parallel_location.bind (fun start start' => ?_)
  refine (parallel_openNode (by simp) ⟨by nofun, by nofun⟩ rfl).bind (fun block block' => ?_)
  exact (parallel_loop (fun _ => parallel_inBlock) (hround (by simp))).bind (fun _ _ => parallel_pure (by simp))

end Parser

/-! ## Statements in a tree -/

/-- How a statement assigns, by the tokens from its first one on. Its node stands at that token. If the tokens begin with a target and
an assignment operator, the children of the node are that target and a message `:=`, and the node is an assignment if the target begins with
a name. Otherwise it begins with `self` or `super`, and the node is a message that is sent. No other statement is a message `:=` that
is sent to an instance. -/
structure Tree.AssignsAs (tree : Tree) (v : List Token) (n : Node) : Prop where
  place : v.head?.map Token.location = some n.location
  target {w : List Token} {op : Token} {u : List Token} {p : Payload} (hv : v = w ++ op :: u) (hop : op.kind = .assignment)
    (hw : Target w p) : n.children.map tree.payload? = [some p, some (.message ":=" none)] ∧
      (Parser.BeginsName v → n.payload = .assignment) ∧ (¬Parser.BeginsName v → n.payload = .sendMessage)
  sent {p : Payload} (hsend : n.payload = .sendMessage) (hchildren : n.children.map tree.payload? = [some p, some (.message ":=" none)])
    (hp : p.kind = .inst) : ∃ w op u, v = w ++ op :: u ∧ op.kind = .assignment ∧ Spells (.symbol .inst) w ∧ ¬Parser.BeginsName v

namespace Parser

/-- Of an assignment or a message that is sent, all children are known once two are. -/
theorem children_of_stands {tree : Tree} (hshapely : tree.Shapely) {i j m : NodeId} {p : Payload} {v : List Token} {n : Node}
    (h : Stands tree i p v [j, m]) (hp : p = .assignment ∨ p = .sendMessage) (hn : tree.node? i = some n) :
    n.payload = p ∧ n.children = [j, m] := by
  obtain ⟨l, ⟨n', hn', rfl, -, hsub⟩, -⟩ := h
  obtain rfl := Option.some.inj (hn.symm.trans hn')
  obtain ⟨below, hbelow, hadmits⟩ := hshapely.children hn
  have hlength : n.children.length = 2 := by
    have hsame := congrArg List.length hbelow
    rw [List.length_map, List.length_map] at hsame
    rw [hsame]
    rcases hp with hp | hp
    · rw [hp] at hadmits
      obtain ⟨target, rfl, -⟩ := hadmits
      rfl
    · rw [hp] at hadmits
      obtain ⟨receiver, name, rfl, -⟩ := hadmits
      rfl
  exact ⟨rfl, (hsub.eq_of_length hlength.symm).symm⟩

/-- In a tree that is well shaped, a statement assigns as its tokens tell. -/
theorem Told.assignsAs {tree : Tree} {v : List Token} {i : NodeId} (h : Told tree v i) (hshapely : tree.Shapely) (hv : v ≠ []) :
    ∃ n, tree.node? i = some n ∧ tree.AssignsAs v n := by
  obtain ⟨q, ⟨l, ⟨n, hn, rfl, rfl, -⟩, hplace⟩, hsent⟩ := h.stands
  refine ⟨n, hn, ?_, fun {w op u p} heq hop hw => ?_, fun {p} hsend hchildren hp => ?_⟩
  · cases v with
    | nil => exact absurd rfl hv
    | cons t v => rw [List.head?_cons, Option.map_some, hplace t rfl]
  · obtain ⟨j, m, hj, hm, hname, hother⟩ := h.assigns heq hop hw
    have hchildren : n.children = [j, m] → n.children.map tree.payload? = [some p, some (.message ":=" none)] := by
      intro hchildren
      rw [hchildren, List.map_cons, List.map_cons, hj, hm]
      rfl
    by_cases hbegins : BeginsName v
    · obtain ⟨hpayload, hboth⟩ := children_of_stands hshapely (hname hbegins) (.inl rfl) hn
      exact ⟨hchildren hboth, fun _ => hpayload, fun hnot => absurd hbegins hnot⟩
    · obtain ⟨hpayload, hboth⟩ := children_of_stands hshapely (hother hbegins) (.inr rfl) hn
      exact ⟨hchildren hboth, fun hname => absurd hname hbegins, fun _ => hpayload⟩
  · obtain ⟨j, m, q, q', hj, hm, hstands, honly⟩ := hsent hsend
    obtain ⟨-, hboth⟩ := children_of_stands hshapely hstands (.inr rfl) hn
    rw [hboth, List.map_cons, List.map_cons, hj, hm] at hchildren
    obtain ⟨hq, hrest⟩ := List.cons.inj hchildren
    obtain rfl := Option.some.inj hq
    exact honly hp (Option.some.inj (List.cons.inj hrest).1)

end Parser

namespace Stream

open Courier.Parser

/-- Every child of a block of statements in a parsed text was read as a statement of the text and assigns as its tokens tell. So a
statement that assigns is an assignment if and only if its target begins with a name; if that begins with `self` or `super`, the
statement is a message `:=` that is sent to the target. -/
theorem assigns_of_parse {file text : String} {s : Stream} {trace : Bool} {tree : Tree} (hs : Stream.tokenize file text = .ok s)
    (htree : (s.parse trace).1 = .ok tree) {i : NodeId} {block : Node} (hi : tree.node? i = some block)
    (hblock : block.payload = .statementsBlock) {j : NodeId} (hj : j ∈ block.children) :
    ∃ before v after n, significant s.tokens = before ++ (v ++ after) ∧ Spells (.symbol .statement) v ∧ tree.node? j = some n ∧
      tree.AssignsAs (v ++ after) n := by
  obtain ⟨root, t, ht, rfl⟩ := parse_eq_ok.1 htree
  have hshapely := shapely_of_unit hs ht
  have hplain : ∀ t ∈ significant s.tokens, t.Plain := fun t ht => plain_of_tokenize hs (List.mem_filter.1 ht).1
  have hinitial : (telling s).State (.empty s.file) (.initial s trace) (.initial s trace) :=
    ⟨rfl, rfl, rfl, List.suffix_rfl, fun hn => nomatch hn⟩
  have hcoupled := coupled_parse_of (telling s) (fun _ _ => parallel_flags) (fun _ _ => parallel_inst)
    (fun room Γ h => parallel_statements_telling hplain room Γ h) maxNesting
  have hunit : (telling s).Parallel true [] (Rule.unit.parse maxNesting) (Rule.unit.parse maxNesting) (fun i j => [.node i j]) :=
    hcoupled.rule .unit trivial
  have htelling : Telling s t := by
    rcases hunit _ _ _ hinitial (by simp) with ⟨_, _, u, u', hu, -, hstep⟩ | ⟨e, _, u, _, he, -, -⟩
    · obtain ⟨-, rfl⟩ := EStateM.Result.ok.inj (ht.symm.trans hu)
      obtain ⟨_, -, ⟨-, -, htelling⟩, -⟩ := hstep.onward
      exact htelling
    · nomatch ht.symm.trans he
  have hkeeps : t.tree.Keeps (t.finish root) := (Tree.keeps_attachComments _ root _).trans (Tree.keeps_setRoot _ root)
  rcases hkeeps.old_or_new hi with ⟨m, hm, hnode⟩ | hnone
  · obtain ⟨before, v, after, hts, hv, htold⟩ := htelling.stated hm (hnode.payload ▸ hblock) (hnode.children ▸ hj)
    have hne : v ++ after ≠ [] := List.append_ne_nil_of_left_ne_nil (begins_statement.ne_nil v hv) after
    obtain ⟨n, hn, hassigns⟩ := (htold.later hkeeps.extends).assignsAs hshapely hne
    exact ⟨before, v, after, n, hts, hv, hn, hassigns⟩
  · rw [hnone] at hj
    nomatch hj

/-- A target that begins with `self` is accepted, and what assigns to it is no assignment. -/
theorem not_assignment_of_self : ∃ s tree block n, Stream.tokenize "unit" "\x7b self.x := 1; \x7d" = .ok s ∧ (s.parse true).1 = .ok tree ∧
    tree.node? 1 = some block ∧ block.payload = .statementsBlock ∧ block.children = [3] ∧ tree.node? 3 = some n ∧
    n.payload = .sendMessage ∧ n.children.map tree.payload? = [some (.inst "self.x" none), some (.message ":=" none)] := by
  obtain ⟨s, tree, hs, htree, hnodes⟩ := exists_parse_eq "unit" "\x7b self.x := 1; \x7d" true
    (fun tree => ((tree.node? 1).map (fun n => (n.payload, n.children)),
      (tree.node? 3).map (fun n => (n.payload, n.children.map tree.payload?))))
    (a := (some (.statementsBlock, [3]), some (.sendMessage, [some (.inst "self.x" none), some (.message ":=" none)]))) (by decide +kernel)
  obtain ⟨hblock, hsend⟩ := Prod.mk.inj hnodes
  obtain ⟨block, hi, hblock⟩ := Option.map_eq_some_iff.1 hblock
  obtain ⟨n, hn, hsend⟩ := Option.map_eq_some_iff.1 hsend
  exact ⟨s, tree, block, n, hs, htree, hi, (Prod.mk.inj hblock).1, (Prod.mk.inj hblock).2, hn, (Prod.mk.inj hsend).1,
    (Prod.mk.inj hsend).2⟩

theorem assigns_of_parse_name : ∃ s tree block, Stream.tokenize "unit" "\x7b a.b := 1; \x7d" = .ok s ∧ (s.parse true).1 = .ok tree ∧
    tree.node? 1 = some block ∧ block.payload = .statementsBlock ∧ 2 ∈ block.children ∧
    ∃ before v after n, significant s.tokens = before ++ (v ++ after) ∧ Spells (.symbol .statement) v ∧ tree.node? 2 = some n ∧
      tree.AssignsAs (v ++ after) n := by
  obtain ⟨s, tree, hs, htree, hnode⟩ := exists_parse_eq "unit" "\x7b a.b := 1; \x7d" true
    (fun tree => (tree.node? 1).map (fun n => (n.payload, n.children))) (a := some (.statementsBlock, [2])) (by decide +kernel)
  obtain ⟨block, hi, hblock⟩ := Option.map_eq_some_iff.1 hnode
  obtain ⟨hpayload, hchildren⟩ := Prod.mk.inj hblock
  have hj : 2 ∈ block.children := hchildren ▸ List.mem_singleton.2 rfl
  exact ⟨s, tree, block, hs, htree, hi, hpayload, hj, assigns_of_parse hs htree hi hpayload hj⟩

end Stream

end Courier
