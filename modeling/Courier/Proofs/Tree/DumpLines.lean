import Courier.Proofs.Lexical.Recased
import Courier.Proofs.Parser.Balance
import Courier.Proofs.Report.Wording
import Courier.Proofs.Tree.Traversals
import Courier.Proofs.Tree.Whole

/-!
# The lines of a dump

The dump of a tree has an entry for each node, with a line feed behind it. But an entry may hold more line feeds: those of the text of a
comment or of a string, which stand in it as they are written. So the dump of a text that parses has as many line feeds as there are nodes
and as its tokens hold, together (`Stream.feeds_dump_of_parse`), and its lines are those of the nodes if and only if no token goes on over
a line feed. The ledger of line feeds counts those of the tokens and those of the descriptions and flags of nodes (`feedLedger`).
-/

namespace Courier

open Text

/-- The line feeds of a text. -/
def Text.feeds (text : String) : List Char :=
  text.toList.filter (· == '\n')

namespace Text

theorem feeds_append (a b : String) : feeds (a ++ b) = feeds a ++ feeds b := by
  rw [feeds, String.toList_append, List.filter_append]
  rfl

theorem feeds_eq_nil {text : String} : feeds text = [] ↔ OneLine text := by
  rw [feeds, List.filter_eq_nil_iff, OneLine]
  exact ⟨fun h hmem => h _ hmem rfl, fun h c hc hfeed => h ((beq_iff_eq.1 hfeed) ▸ hc)⟩

theorem length_feeds (text : String) : (feeds text).length = text.toList.count '\n' := by
  rw [feeds, List.count_eq_length_filter]

end Text

namespace Payload

theorem oneLine_name (k : Kind) : OneLine k.name := by
  cases k <;> decide

theorem oneLine_suffixed {separator : String} (hseparator : OneLine separator) {text : Option String} (h : ∀ t ∈ text, OneLine t) :
    OneLine (suffixed separator text) := by
  cases text with
  | none => exact List.not_mem_nil
  | some t => exact oneLine_append.2 ⟨hseparator, h t rfl⟩

/-- A description goes on over a line feed only for a comment or a literal. -/
theorem oneLine_describe {p : Payload} (h : p.Named OneLine) : OneLine p.describe := by
  have hbrackets : ∀ texts : List String, (∀ t ∈ texts, OneLine t) → OneLine (" [" ++ String.intercalate ", " texts ++ "]") :=
    fun texts htexts => oneLine_append.2 ⟨oneLine_append.2 ⟨by decide, oneLine_intercalate (by decide) htexts⟩, by decide⟩
  have hword : ∀ {text : String}, OneLine text → OneLine (" " ++ text) := fun htext => oneLine_append.2 ⟨by decide, htext⟩
  refine oneLine_append.2 ⟨oneLine_name _, ?_⟩
  cases p with
  | comment text => exact h.elim
  | literal k value => exact h.elim
  | «variable» name typeName => exact oneLine_append.2 ⟨hword h.1, oneLine_suffixed (by decide) h.2⟩
  | inst name typeName => exact oneLine_append.2 ⟨hword h.1, oneLine_suffixed (by decide) h.2⟩
  | tuple types => exact hbrackets types h
  | namedTuple fields =>
    refine hbrackets _ (fun t ht => ?_)
    obtain ⟨f, hf, rfl⟩ := List.mem_map.1 ht
    exact oneLine_append.2 ⟨oneLine_append.2 ⟨(h f hf).1, by decide⟩, (h f hf).2⟩
  | message name answer => exact hword h
  | param name typeName => exact oneLine_append.2 ⟨oneLine_append.2 ⟨hword h.1, by decide⟩, h.2⟩
  | messageDeclaration name =>
    cases name with
    | none => decide
    | some name => exact hword (h name rfl)
  | scope visibility => cases visibility <;> decide
  | classBlock name superclass => exact oneLine_append.2 ⟨hword h.1, oneLine_suffixed (by decide) h.2⟩
  | recordBlock name superclass => exact oneLine_append.2 ⟨hword h.1, oneLine_suffixed (by decide) h.2⟩
  | namespaceBlock name => exact hword h
  | moduleBlock name version => exact oneLine_append.2 ⟨hword h.1, oneLine_suffixed (by decide) h.2⟩
  | _ => decide

/-- The description of a literal has the line feeds of its text. -/
theorem feeds_describe_literal (k : LiteralKind) (value : String) : feeds (literal k value).describe = feeds value := by
  have hnone : ∀ {a : String}, OneLine a → feeds (a ++ value) = feeds value := by
    intro a ha
    rw [feeds_append, feeds_eq_nil.2 ha, List.nil_append]
  rw [describe, feeds_append, feeds_eq_nil.2 (oneLine_name _), List.nil_append]
  cases k with
  | string =>
    have hquote : feeds "\"" = [] := rfl
    rw [detail, feeds_append, hnone (by decide), hquote, List.append_nil]
  | _ => exact hnone (by decide)

end Payload

/-- Quotes are no line feeds. -/
theorem Grammar.feeds_unquote (text : String) : feeds (unquote text) = feeds text := by
  unfold unquote
  split
  · rename_i rest hrest
    split
    · rename_i hlast
      obtain ⟨body, rfl⟩ := List.getLast?_eq_some_iff.1 hlast
      rw [feeds, feeds, hrest, String.toList_ofList, List.dropLast_concat, List.filter_cons_of_neg (by decide), List.filter_append,
        List.filter_cons_of_neg (by decide), List.filter_nil, List.append_nil]
    · rfl
  · rfl

/-- Letters in lower case are no line feeds. -/
theorem Text.oneLine_lower {text : String} (h : OneLine text) : OneLine (String.ofList (text.toList.map Char.toLower)) := by
  rw [OneLine, String.toList_ofList, List.mem_map]
  rintro ⟨c, hc, hlower⟩
  rcases Lexical.eq_or_letters (show c.toLower = Char.toLower '\n' from hlower) with rfl | ⟨hletter, -⟩
  · exact h hc
  · exact absurd hletter (by unfold Lexical.Letter; decide)

/-- The node of a literal is described with the line feeds of its token. -/
theorem feeds_of_literalPayload? {t : Token} {p : Payload} (ht : t.Clean OneLine) (hp : Grammar.literalPayload? t = some p) :
    feeds t.text = feeds p.describe := by
  unfold Grammar.literalPayload? at hp
  split at hp
  case h_5 hkind =>
    obtain rfl := Option.some.inj hp
    have hline : OneLine t.text := ht (by simp [hkind]) (by simp [Token.isComment, hkind, TokenKind.isComment])
    rw [Payload.feeds_describe_literal, feeds_eq_nil.2 hline, feeds_eq_nil.2 (oneLine_lower hline)]
  case h_6 =>
    obtain rfl := Option.some.inj hp
    rw [Payload.feeds_describe_literal, Grammar.feeds_unquote]
  case h_7 hkind =>
    split at hp
    · obtain rfl := Option.some.inj hp
      have hline : OneLine t.text := ht (by simp [hkind]) (by simp [Token.isComment, hkind, TokenKind.isComment])
      rw [feeds_eq_nil.2 hline]
      rfl
    · nomatch hp
  case h_8 => nomatch hp
  all_goals
    obtain rfl := Option.some.inj hp
    rw [Payload.feeds_describe_literal]

theorem Tree.oneLine_flagSuffix {fs : List String} (h : ∀ f ∈ fs, OneLine f) : OneLine (flagSuffix (some fs)) :=
  oneLine_append.2 ⟨oneLine_append.2 ⟨by decide, oneLine_intercalate (by decide) h⟩, by decide⟩

/-- The line feeds of tokens, and those of the descriptions and the flags of nodes. -/
def feedLedger : Ledger Char where
  Name := OneLine
  token t _ := feeds t.text
  payload p := feeds p.describe
  flags fs := feeds (Tree.flagSuffix (some fs))
  dotted ha hb := oneLine_append.2 ⟨oneLine_append.2 ⟨ha, by decide⟩, hb⟩
  assigns := by decide
  named hp := feeds_eq_nil.2 (Payload.oneLine_describe hp)
  swap hfs := by rw [feeds_eq_nil.2 (Tree.oneLine_flagSuffix hfs), List.append_nil, List.nil_append]
  comment _ _ := by
    rw [Payload.describe, feeds_append, feeds_eq_nil.2 (Payload.oneLine_name _), Payload.detail, feeds_append]
    rfl
  literal ht hp _ := feeds_of_literalPayload? ht hp
  atSign {t} h {rest} hclean := by
    have hline : OneLine t.text :=
      hclean t List.mem_cons_self (by simp [h]) (by simp [Token.isComment, h, TokenKind.isComment])
    have hflags : ∀ f ∈ flagsBehind (significant rest), OneLine f := by
      intro f hf
      obtain ⟨u, hu, hkind, rfl⟩ := exists_of_mem_flagsBehind hf
      obtain ⟨hmem, hcomment⟩ := List.mem_filter.1 hu
      exact hclean u (List.mem_cons_of_mem t hmem) (by rcases hkind with h | h <;> simp [h]) (by simpa using hcomment)
    rw [feeds_eq_nil.2 hline, feeds_eq_nil.2 (Tree.oneLine_flagSuffix hflags)]
  other ht _ hstring hcomment _ := feeds_eq_nil.2 (ht hstring hcomment)

/-- The tokens count for as many line feeds as they hold. -/
theorem length_tokens_feedLedger (ts : List Token) :
    (feedLedger.tokens ts).length = (ts.map (fun t => t.text.toList.count '\n')).sum := by
  induction ts with
  | nil => rfl
  | cons t rest ih =>
    have htoken : (feedLedger.token t rest).length = t.text.toList.count '\n' := length_feeds t.text
    rw [Ledger.tokens, List.length_append, ih, htoken, List.map_cons, List.sum_cons]

theorem tokens_feedLedger_eq_nil {ts : List Token} : feedLedger.tokens ts = [] ↔ ∀ t ∈ ts, OneLine t.text := by
  induction ts with
  | nil => exact iff_of_true rfl (fun _ ht => (nomatch ht))
  | cons t rest ih => rw [Ledger.tokens, List.append_eq_nil_iff, ih, List.forall_mem_cons, ← feeds_eq_nil]; rfl

/-! ## Entries -/

/-- Lines with a line feed behind each are read back, and behind the last there is nothing. -/
theorem Text.linesOf_join {lines : List String} (h : ∀ line ∈ lines, OneLine line) :
    linesOf (String.join (lines.map (· ++ "\n"))) = lines ++ [""] := by
  induction lines with
  | nil => exact linesOf_of_oneLine (by decide)
  | cons line lines ih =>
    obtain ⟨hline, hlines⟩ := List.forall_mem_cons.1 h
    rw [List.map_cons, String.join_cons, linesOf_append_feed, linesOf_of_oneLine hline, ih hlines]
    rfl

namespace Tree

/-- What the dump shows of a node: as far to the right as it has ancestors, its description and its flags. -/
noncomputable def lineOf (t : Tree) (id : NodeId) : String :=
  String.join (List.replicate (t.depth id) "  ") ++ t.part "" (fun n => n.payload.describe ++
    match n.flags with
    | some flags => " @[" ++ String.intercalate ", " flags ++ "]"
    | none => "") id

/-- The dump is one line for each node, in the order in which a walk enters them. -/
structure DumpsLines (t : Tree) (visits : Nat) : Prop where
  count : t.dump.toList.count '\n' = t.size
  lines : linesOf t.dump = (t.entered visits).map t.lineOf ++ [""]
  /-- The walk enters every node once. -/
  all : (t.entered visits).Perm t.ids

theorem oneLine_indent (level : Nat) : OneLine (indent level) := by
  rw [OneLine, indent, String.toList_ofList]
  exact fun hmem => absurd (List.eq_of_mem_replicate hmem) (by decide)

theorem lineOf_eq {t : Tree} {id : NodeId} {n : Node} (hn : t.node? id = some n) :
    t.lineOf id = indent (t.depth id) ++ (n.payload.describe ++ flagSuffix n.flags) := by
  rw [lineOf, part_of_node? hn, indent_eq]
  cases n.flags <;> rfl

/-- What is shown of a node counts for its description and its flags. -/
theorem feeds_lineOf {t : Tree} {id : NodeId} {n : Node} (hn : t.node? id = some n) :
    feeds (t.lineOf id) = feedLedger.payload n.payload ++ feedLedger.due n.flags := by
  have hflags : feeds (flagSuffix n.flags) = feedLedger.due n.flags := by cases n.flags <;> rfl
  rw [lineOf_eq hn, feeds_append, feeds_eq_nil.2 (oneLine_indent _), List.nil_append, feeds_append, hflags]
  rfl

/-- What is read off each id is read off the nodes. -/
theorem map_part_ids {β : Type} (t : Tree) (absent : β) (g : Node → β) : t.ids.map (t.part absent g) = t.nodes.toList.map g := by
  refine List.ext_getElem? (fun i => ?_)
  rcases Nat.lt_or_ge i t.size with hi | hi
  · obtain ⟨n, hn⟩ := exists_node? hi
    have hid : t.ids[i]? = some i := List.getElem?_range hi
    have hnode : t.nodes.toList[i]? = some n := Array.getElem?_toList.trans hn
    rw [List.getElem?_map, List.getElem?_map, hid, hnode, Option.map_some, Option.map_some, part_of_node? hn]
  · rw [List.getElem?_eq_none (by rwa [List.length_map, ids, List.length_range]),
      List.getElem?_eq_none (by rwa [List.length_map, Array.length_toList])]

variable {t : Tree}

/-- The entries of the dump are the lines of the nodes, with a line feed behind each. -/
theorem Whole.entries_eq (h : t.Whole) (visits : Nat) : t.entries = ((t.entered visits).map t.lineOf).map (· ++ "\n") := by
  obtain ⟨root, hroot⟩ := h.rooted
  have hreachable : t.Reachable root := ⟨root, hroot, .refl⟩
  have hlines := h.branches.forall₂_entriesFrom hreachable t.size
  rw [h.branches.depth_root hroot, ← h.branches.enteredBelow_eq hreachable visits, ← entered_eq hroot] at hlines
  have hentries : List.Forall₂ Eq (((t.entered visits).map t.lineOf).map (· ++ "\n")) (t.entriesFrom t.size 0 root) := by
    rw [List.map_map]
    refine List.forall₂_map_left_iff.2 (hlines.imp ?_)
    rintro id _ ⟨n, hn, rfl⟩
    rw [Function.comp_apply, lineOf_eq hn, ← String.append_assoc]
    rfl
  rw [List.forall₂_eq_eq_eq] at hentries
  rw [entries, hroot, hentries]

/-- A walk enters every node once. -/
theorem Whole.perm_entered (h : t.Whole) (visits : Nat) : (t.entered visits).Perm t.ids := by
  obtain ⟨root, hroot⟩ := h.rooted
  have hreachable : t.Reachable root := ⟨root, hroot, .refl⟩
  have hnodup : (t.entered visits).Nodup := by
    rw [entered_eq hroot, h.branches.enteredBelow_eq hreachable]
    exact h.branches.nodup_preorder hreachable t.size
  refine (List.perm_ext_iff_of_nodup hnodup List.nodup_range).2 (fun id => ?_)
  rw [h.branches.mem_entered hroot, List.mem_range]
  exact ⟨fun hid => h.branches.present hid, fun hid => h.reachable hid⟩

/-- The dump has a line feed for each node, and those that the nodes count for. -/
theorem Whole.count_dump (h : t.Whole) : t.dump.toList.count '\n' = t.size + (feedLedger.nodes t).length := by
  have hlines : t.dump.toList.count '\n' = ((t.entered 0).map (fun id => (feeds (t.lineOf id)).length + 1)).sum := by
    rw [← length_feeds, dump, h.entries_eq 0, feeds, String.toList_join, List.filter_flatMap, List.length_flatMap, List.map_map,
      List.map_map]
    refine congrArg List.sum (List.map_congr_left (fun id _ => ?_))
    show (feeds (t.lineOf id ++ "\n")).length = _
    rw [feeds_append, List.length_append]
    rfl
  have hnodes : t.ids.map (fun id => (feeds (t.lineOf id)).length + 1) =
      t.nodes.toList.map (fun n => (feedLedger.payload n.payload ++ feedLedger.due n.flags).length + 1) := by
    rw [← t.map_part_ids 0]
    refine List.map_congr_left (fun id hid => ?_)
    obtain ⟨n, hn⟩ := exists_node? (List.mem_range.1 hid)
    rw [feeds_lineOf hn, part_of_node? hn]
  rw [hlines, ((h.perm_entered 0).map _).sum_eq, hnodes, List.sum_map_add, Ledger.nodes, List.length_flatMap, stock, List.map_map,
    List.map_const', List.sum_replicate_nat, Array.length_toList, Nat.mul_one, Nat.add_comm]
  rfl

end Tree

namespace Stream

/-- The dump of a text has a line feed for each node and each line feed of a token. Only strings and block comments hold any, and the dump
has one line for each node if and only if they hold none. -/
theorem feeds_dump_of_parse {file text : String} {s : Stream} {trace : Bool} {tree : Tree} (hs : Stream.tokenize file text = .ok s)
    (htree : (s.parse trace).1 = .ok tree) (visits : Nat) :
    tree.dump.toList.count '\n' = tree.size + (s.tokens.map (fun t => t.text.toList.count '\n')).sum ∧
    (tree.DumpsLines visits ↔ ∀ t ∈ s.tokens, OneLine t.text) ∧
    ∀ t ∈ s.tokens, ¬OneLine t.text → t.kind = .stringLiteral ∨ t.kind = .blockComment := by
  have hwhole := whole_of_parse hs htree
  have hlong : ∀ t ∈ s.tokens, ¬OneLine t.text → t.kind = .stringLiteral ∨ t.kind = .blockComment := by
    intro t ht hfeed
    obtain ⟨rest, hlexeme⟩ := isLexeme_of_tokenize hs ht
    exact hlexeme.stringLiteral_of_feed (Decidable.not_not.1 hfeed)
  have hclean : ∀ t ∈ s.tokens, t.Clean OneLine := by
    intro t ht hstring hcomment
    by_contra hfeed
    rcases hlong t ht hfeed with hkind | hkind
    · exact hstring hkind
    · simp [Token.isComment, hkind, TokenKind.isComment] at hcomment
  have hnodes : feedLedger.nodes tree = feedLedger.tokens s.tokens := by
    obtain ⟨root, t, ht, rfl⟩ := Parser.parse_eq_ok.1 htree
    exact (feedLedger.nodes_of_unit hclean ht).1
  have hcount := hwhole.count_dump
  rw [hnodes] at hcount
  refine ⟨by rw [hcount, length_tokens_feedLedger], ⟨fun hdump => ?_, fun hone => ?_⟩, hlong⟩
  · refine tokens_feedLedger_eq_nil.1 (List.length_eq_zero_iff.1 ?_)
    have hsize := hdump.count
    omega
  · have hnone := tokens_feedLedger_eq_nil.2 hone
    rw [hnone, List.length_nil] at hcount
    rw [hnone] at hnodes
    refine ⟨hcount, ?_, hwhole.perm_entered visits⟩
    rw [Tree.dump, hwhole.entries_eq visits, linesOf_join]
    intro line hline
    obtain ⟨id, hid, rfl⟩ := List.mem_map.1 hline
    obtain ⟨n, hn⟩ := Tree.exists_node? (List.mem_range.1 ((hwhole.perm_entered visits).subset hid))
    have hentry : (n.payload, n.flags) ∈ tree.stock := List.mem_map_of_mem (Array.mem_toList_iff.2 (Array.mem_of_getElem? hn))
    rw [← feeds_eq_nil, Tree.feeds_lineOf hn]
    rw [Ledger.nodes, List.flatMap_eq_nil_iff] at hnodes
    exact hnodes (n.payload, n.flags) hentry

theorem feeds_dump_of_parse_flagged : ∃ s tree, Stream.tokenize "unit" "@[f] \x7b x : T; # c\n \x7d" = .ok s ∧
    (s.parse true).1 = .ok tree ∧ tree.size = 4 ∧ tree.DumpsLines 0 := by
  obtain ⟨s, tree, hs, htree, hmade⟩ := Parser.exists_parse_eq "unit" "@[f] \x7b x : T; # c\n \x7d" true
    (fun tree => (tree.dump.toList.count '\n', tree.size)) (show _ = some (4, 4) by decide +kernel)
  obtain ⟨hfeeds, hsize⟩ := Prod.mk.inj hmade
  obtain ⟨hcount, hlines, -⟩ := feeds_dump_of_parse hs htree 0
  refine ⟨s, tree, hs, htree, hsize, hlines.2 (tokens_feedLedger_eq_nil.1 (List.length_eq_zero_iff.1 ?_))⟩
  rw [length_tokens_feedLedger]
  omega

/-- A string over two lines gives the dump of three nodes four lines. -/
theorem count_dump_string : ∃ s tree, Stream.tokenize "unit" "\x7b \"a\nb\"; \x7d" = .ok s ∧ (s.parse true).1 = .ok tree ∧
    tree.dump.toList.count '\n' = 4 ∧ tree.size = 3 := by
  obtain ⟨s, tree, hs, htree, hmade⟩ := Parser.exists_parse_eq "unit" "\x7b \"a\nb\"; \x7d" true
    (fun tree => (tree.dump.toList.count '\n', tree.size)) (show _ = some (4, 3) by decide +kernel)
  obtain ⟨hfeeds, hsize⟩ := Prod.mk.inj hmade
  exact ⟨s, tree, hs, htree, hfeeds, hsize⟩

end Stream

end Courier
