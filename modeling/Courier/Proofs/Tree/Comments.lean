import Courier.Proofs.Parser.Operation
import Courier.Proofs.Tree.Forest
import Courier.Proofs.Tree.Uncommented

/-!
# Where comments are filed

Of a node, only the payload, the place and the list of comments count here (`NodeView`); the views of a tree are in the order of the ids.
`Filed` says that every comment among some views is listed by a block or waits for one, and that all lists are in order. Two steps keep
it: a new node, which waits if it is a comment (`Filed.push`), and a block that lists all that wait (`Filed.list`). What it comes to in
a finished tree is `Tree.KeepsComments`.
-/

namespace Courier

/-- What a node shows where comments are concerned. -/
structure NodeView where
  payload : Payload
  location : Location
  comments : List NodeId

namespace NodeView

/-- Whether the view is of a comment. -/
def isComment (e : NodeView) : Bool :=
  e.payload.kind == .comment

/-- The view with more comments listed. -/
def adding (e : NodeView) (comments : List NodeId) : NodeView :=
  { e with comments := e.comments ++ comments }

end NodeView

/-- What the node shows where comments are concerned. -/
def Node.view (n : Node) : NodeView :=
  ⟨n.payload, n.location, n.comments⟩

/-- The payloads and the places of the comments, in order. -/
def notes (es : List NodeView) : List (Payload × Location) :=
  (es.filter NodeView.isComment).map (fun e => (e.payload, e.location))

/-- The payloads and the places that comments among tokens give, in order. -/
def tokenNotes (ts : List Token) : List (Payload × Location) :=
  (ts.filter Token.isComment).map (fun c => (.comment c.text, c.location))

/-- The tokens are in the order of their places. -/
def Ordered (ts : List Token) : Prop :=
  ts.Pairwise (fun t u => t.location.offset < u.location.offset)

/-- The place is before all tokens that are no comments. -/
def StandsBefore (ts : List Token) (l : Location) : Prop :=
  ∀ u ∈ significant ts, l.offset < u.location.offset

/-- The place is before all tokens that are no comments, or behind all of them. -/
def StandsOutside (ts : List Token) (l : Location) : Prop :=
  StandsBefore ts l ∨ ∀ u ∈ significant ts, u.location.offset < l.offset

namespace Tree

/-- The views of the nodes, in the order of their ids. -/
def views (t : Tree) : List NodeView :=
  t.nodes.toList.map Node.view

/-- One node is before another, by their ids and by their places. -/
def Precedes (t : Tree) (c d : NodeId) : Prop :=
  c < d ∧ ∃ m n, t.node? c = some m ∧ t.node? d = some n ∧ m.location.offset < n.location.offset

/-- The tree keeps the comments among some tokens: none is lost, none is there twice and all are in order. -/
structure KeepsComments (t : Tree) (ts : List Token) : Prop where
  /-- The comments of the tree, in the order of their ids, are those among the tokens, with their texts and their places. -/
  spelled : (t.nodes.toList.filter Node.isComment).map (fun n => (n.payload, n.location)) =
    (ts.filter Token.isComment).map (fun c => (.comment c.text, c.location))
  /-- A comment is listed once and by one node only, which is a block. -/
  listed {c : NodeId} (h : t.kind? c = some .comment) : ∃ b n, t.node? b = some n ∧ n.kind.isContainer = true ∧
    n.comments.count c = 1 ∧ ∀ b' n', t.node? b' = some n' → c ∈ n'.comments → b' = b
  /-- Nothing but comments is listed as one. -/
  comments {b : NodeId} {n : Node} (h : t.node? b = some n) : ∀ c ∈ n.comments, t.kind? c = some .comment
  ordered {b : NodeId} {n : Node} (h : t.node? b = some n) : n.comments.Pairwise t.Precedes
  /-- A comment before the first other token, or behind the last, is listed by the root. -/
  outside {c : NodeId} {m : Node} (h : t.node? c = some m) (hm : m.kind = .comment) (hout : StandsOutside ts m.location) :
    ∃ r n, t.root = some r ∧ t.node? r = some n ∧ c ∈ n.comments
  /-- What a node lists, unless it is the root, starts behind it. -/
  behind {b c : NodeId} {n m : Node} (h : t.node? b = some n) (hroot : t.root ≠ some b) (hc : c ∈ n.comments)
    (hm : t.node? c = some m) : n.location.offset < m.location.offset

section

variable {t : Tree} {i : NodeId}

/-! ## Views of trees -/

theorem length_views (t : Tree) : t.views.length = t.size := by
  rw [views, List.length_map, Array.length_toList, size]

theorem getElem?_views (t : Tree) (i : NodeId) : t.views[i]? = (t.node? i).map Node.view := by
  rw [views, List.getElem?_map, Array.getElem?_toList, node?]

theorem exists_view (h : i < t.size) : ∃ e, t.views[i]? = some e :=
  ⟨_, List.getElem?_eq_getElem (by rwa [length_views])⟩

theorem views_alloc (t : Tree) (p : Payload) (l : Location) : (t.alloc p l).2.views = t.views ++ [⟨p, l, []⟩] := by
  unfold alloc views
  rw [Array.toList_push, List.map_append]
  rfl

theorem views_update {f : Node → Node} {g : NodeView → NodeView} (hf : ∀ n, (f n).view = g n.view) (t : Tree) (i : NodeId) :
    (t.update i f).views = t.views.modify i g := by
  unfold update views
  rw [Array.toList_modify, map_modify hf]

/-- A change that shows in no view changes none. -/
theorem views_update_same {f : Node → Node} (hf : ∀ n, (f n).view = n.view) (t : Tree) (i : NodeId) :
    (t.update i f).views = t.views := by
  rw [views_update (g := id) hf, List.modify_id]

theorem views_setParent (t : Tree) (i p : NodeId) : (t.setParent i p).views = t.views :=
  views_update_same (f := fun n => { n with parent := some p }) (fun _ => rfl) t i

theorem views_attach (t : Tree) (p c : NodeId) : (t.attach p c).views = t.views := by
  have hlink : ∀ n : Node, { n with children := n.children ++ [c] : Node }.view = n.view := fun _ => rfl
  unfold attach
  rw [views_update_same hlink, views_setParent]

theorem views_withFlags (t : Tree) (i : NodeId) (flags : Option (List String)) : (t.withFlags i flags).views = t.views := by
  cases flags with
  | none => rfl
  | some flags => exact views_update_same (f := fun n => { n with flags := some flags }) (fun _ => rfl) t i

theorem views_attachComment (t : Tree) (p c : NodeId) : (t.attachComment p c).views = t.views.modify p (·.adding [c]) := by
  have hlink : ∀ n : Node, { n with comments := n.comments ++ [c] : Node }.view = n.view.adding [c] := fun _ => rfl
  unfold attachComment
  rw [views_update (g := fun e => e.adding [c]) hlink, views_setParent]

theorem views_attachComments (t : Tree) (p : NodeId) (cs : List NodeId) :
    (cs.foldl (fun t c => t.attachComment p c) t).views = t.views.modify p (·.adding cs) := by
  induction cs generalizing t with
  | nil =>
    have hnone : (fun e : NodeView => e.adding []) = id := funext (fun e => by simp [NodeView.adding])
    rw [List.foldl_nil, hnone, List.modify_id]
  | cons c cs ih =>
    have hboth : (NodeView.adding · cs) ∘ (NodeView.adding · [c]) = (NodeView.adding · (c :: cs)) :=
      funext (fun e => by simp [NodeView.adding])
    rw [List.foldl_cons, ih, views_attachComment, List.modify_modify_eq, hboth]

end

end Tree

/-! ## Notes -/

theorem tokenNotes_append (ts us : List Token) : tokenNotes (ts ++ us) = tokenNotes ts ++ tokenNotes us := by
  rw [tokenNotes, List.filter_append, List.map_append]
  rfl

theorem notes_append (es fs : List NodeView) : notes (es ++ fs) = notes es ++ notes fs := by
  rw [notes, List.filter_append, List.map_append]
  rfl

theorem NodeView.isComment_eq_false {e : NodeView} (h : e.payload.kind ≠ .comment) : e.isComment = false :=
  beq_eq_false_iff_ne.2 h

theorem notes_of_not_comment {e : NodeView} (h : e.payload.kind ≠ .comment) : notes [e] = [] := by
  have hfilter : [e].filter NodeView.isComment = [] :=
    List.filter_cons_of_neg (by rw [NodeView.isComment_eq_false h]; exact Bool.false_ne_true)
  rw [notes, hfilter, List.map_nil]

/-- The node of a comment notes what its token does. -/
theorem notes_comment {c : Token} (hc : c.isComment = true) : notes [⟨.comment c.text, c.location, []⟩] = tokenNotes [c] := by
  have hfilter : [c].filter Token.isComment = [c] := List.filter_cons_of_pos hc
  rw [tokenNotes, hfilter]
  rfl

/-- What a block lists is no part of the notes. -/
theorem notes_adding (es : List NodeView) (b : NodeId) (cs : List NodeId) : notes (es.modify b (·.adding cs)) = notes es :=
  map_filter_modify (f := (NodeView.adding · cs)) (fun _ => rfl) (fun _ _ _ => rfl)

/-! ## Views that are filed -/

/-- The id of a node, if its view is of a comment. -/
def commentId (i : NodeId) (e : NodeView) : List NodeId :=
  if e.isComment then [i] else []

/-- The node of an id is a comment. -/
def CommentAt (es : List NodeView) (c : NodeId) : Prop :=
  ∃ m, es[c]? = some m ∧ m.isComment = true

/-- The comments are listed by blocks, or wait for one. Those at places `P` are for the root. -/
structure Filed (P : Location → Prop) (root : Option NodeId) (waiting : List NodeId) (es : List NodeView) : Prop where
  listed {i : NodeId} {e : NodeView} (h : es[i]? = some e) : ∀ c ∈ e.comments, CommentAt es c
  waits : ∀ c ∈ waiting, CommentAt es c
  /-- A list is in the order of the ids, and what waits is younger than what is listed. -/
  increasing {i : NodeId} {e : NodeView} (h : es[i]? = some e) : (e.comments ++ waiting).Pairwise (· < ·)
  waiting_increasing : waiting.Pairwise (· < ·)
  container {i : NodeId} {e : NodeView} (h : es[i]? = some e) (hne : e.comments ≠ []) : e.payload.kind.isContainer = true
  held {c : NodeId} (h : CommentAt es c) : c ∈ waiting ∨ ∃ (i : NodeId) (e : NodeView), es[i]? = some e ∧ c ∈ e.comments
  behind {i c : NodeId} {e m : NodeView} (h : es[i]? = some e) (hroot : root ≠ some i) (hc : c ∈ e.comments)
    (hm : es[c]? = some m) : e.location.offset < m.location.offset
  outside {c : NodeId} {m : NodeView} (h : es[c]? = some m) (hm : m.isComment = true) (hP : P m.location) :
    c ∈ waiting ∨ ∃ (r : NodeId) (e : NodeView), root = some r ∧ es[r]? = some e ∧ c ∈ e.comments

section

variable {P : Location → Prop} {root : Option NodeId} {waiting : List NodeId} {es : List NodeView} {c : NodeId}

theorem CommentAt.lt_length (h : CommentAt es c) : c < es.length := by
  obtain ⟨m, hm, -⟩ := h
  exact (List.getElem?_eq_some_iff.1 hm).1

theorem filed_nil : Filed P root [] [] where
  listed h := nomatch h
  waits _ h := nomatch h
  increasing h := nomatch h
  waiting_increasing := .nil
  container h := nomatch h
  held h := nomatch h.choose_spec.1
  behind h := nomatch h
  outside h := nomatch h

theorem mem_commentId {i : NodeId} {e : NodeView} : c ∈ commentId i e ↔ c = i ∧ e.isComment = true := by
  unfold commentId
  split <;> simp [*]

theorem commentId_of_not_comment {e : NodeView} (h : e.payload.kind ≠ .comment) (i : NodeId) : commentId i e = [] :=
  if_neg (by rw [NodeView.isComment_eq_false h]; exact Bool.false_ne_true)

theorem pairwise_commentId (i : NodeId) (e : NodeView) : (commentId i e).Pairwise (· < ·) := by
  unfold commentId
  split
  · exact List.pairwise_singleton _ _
  · exact .nil

/-- The views with a new one are the old ones and that. -/
theorem getElem?_push {e' e : NodeView} {i : NodeId} (h : (es ++ [e'])[i]? = some e) :
    es[i]? = some e ∨ i = es.length ∧ e = e' := by
  rcases Nat.lt_trichotomy i es.length with hi | rfl | hi
  · rw [List.getElem?_append_left hi] at h
    exact .inl h
  · rw [List.getElem?_concat_length] at h
    exact .inr ⟨rfl, (Option.some.inj h).symm⟩
  · rw [List.getElem?_eq_none (by rw [List.length_append, List.length_singleton]; exact hi)] at h
    nomatch h

theorem getElem?_push_of_some {e' e : NodeView} {i : NodeId} (h : es[i]? = some e) : (es ++ [e'])[i]? = some e := by
  rw [List.getElem?_append_left (List.getElem?_eq_some_iff.1 h).1, h]

theorem CommentAt.push (h : CommentAt es c) (e : NodeView) : CommentAt (es ++ [e]) c := by
  obtain ⟨m, hm, hcomment⟩ := h
  exact ⟨m, getElem?_push_of_some hm, hcomment⟩

/-- A new node lists nothing; if it is a comment, it waits. -/
theorem Filed.push (h : Filed P root waiting es) (p : Payload) (l : Location) :
    Filed P root (waiting ++ commentId es.length ⟨p, l, []⟩) (es ++ [⟨p, l, []⟩]) := by
  have hyounger : ∀ {c}, CommentAt es c → ∀ d ∈ commentId es.length ⟨p, l, []⟩, c < d := by
    intro c hc d hd
    rw [(mem_commentId.1 hd).1]
    exact hc.lt_length
  have hwaiting : (waiting ++ commentId es.length ⟨p, l, []⟩).Pairwise (· < ·) :=
    List.pairwise_append.2 ⟨h.waiting_increasing, pairwise_commentId _ _, fun c hc => hyounger (h.waits c hc)⟩
  refine ⟨?_, ?_, ?_, ?_, ?_, ?_, ?_, ?_⟩
  · intro i e he c hc
    rcases getElem?_push he with he | ⟨-, rfl⟩
    · exact (h.listed he c hc).push _
    · nomatch hc
  · intro c hc
    rcases List.mem_append.1 hc with hc | hc
    · exact (h.waits c hc).push _
    · obtain ⟨rfl, hcomment⟩ := mem_commentId.1 hc
      exact ⟨_, List.getElem?_concat_length, hcomment⟩
  · intro i e he
    rcases getElem?_push he with he | ⟨-, rfl⟩
    · rw [← List.append_assoc]
      refine List.pairwise_append.2 ⟨h.increasing he, pairwise_commentId _ _, fun c hc => ?_⟩
      rcases List.mem_append.1 hc with hc | hc
      · exact hyounger (h.listed he c hc)
      · exact hyounger (h.waits c hc)
    · exact hwaiting
  · exact hwaiting
  · intro i e he hne
    rcases getElem?_push he with he | ⟨-, rfl⟩
    · exact h.container he hne
    · exact absurd rfl hne
  · rintro c ⟨m, hm, hcomment⟩
    rcases getElem?_push hm with hm | ⟨rfl, rfl⟩
    · rcases h.held ⟨m, hm, hcomment⟩ with hc | ⟨i, e, he, hc⟩
      · exact .inl (List.mem_append_left _ hc)
      · exact .inr ⟨i, e, getElem?_push_of_some he, hc⟩
    · exact .inl (List.mem_append_right _ (mem_commentId.2 ⟨rfl, hcomment⟩))
  · intro i c e m he hroot hc hm
    rcases getElem?_push he with he | ⟨-, rfl⟩
    · obtain ⟨k, hk, -⟩ := h.listed he c hc
      obtain rfl : k = m := Option.some.inj ((getElem?_push_of_some hk).symm.trans hm)
      exact h.behind he hroot hc hk
    · nomatch hc
  · intro c m hm hcomment hP
    rcases getElem?_push hm with hm | ⟨rfl, rfl⟩
    · rcases h.outside hm hcomment hP with hc | ⟨r, e, hr, he, hc⟩
      · exact .inl (List.mem_append_left _ hc)
      · exact .inr ⟨r, e, hr, getElem?_push_of_some he, hc⟩
    · exact .inl (List.mem_append_right _ (mem_commentId.2 ⟨rfl, hcomment⟩))

/-- Once a node lists more, a view is that of the node or as before. -/
theorem getElem?_adding {b i : NodeId} {cs : List NodeId} {e e' : NodeView} (hb : es[b]? = some e)
    (h : (es.modify b (·.adding cs))[i]? = some e') : i = b ∧ e' = e.adding cs ∨ es[i]? = some e' := by
  rw [List.getElem?_modify] at h
  obtain ⟨e₀, he₀, rfl⟩ := Option.map_eq_some_iff.1 h
  by_cases hi : b = i
  · subst hi
    obtain rfl : e₀ = e := Option.some.inj (he₀.symm.trans hb)
    exact .inl ⟨rfl, if_pos rfl⟩
  · rw [if_neg hi]
    exact .inr he₀

/-- The payload and the place of a view stay, and what it lists. -/
theorem exists_adding {i : NodeId} {e : NodeView} (h : es[i]? = some e) (b : NodeId) (cs : List NodeId) :
    ∃ e', (es.modify b (·.adding cs))[i]? = some e' ∧ e'.payload = e.payload ∧ e'.location = e.location ∧
      e.comments ⊆ e'.comments := by
  refine ⟨if b = i then e.adding cs else e, ?_, ?_⟩
  · rw [List.getElem?_modify, h]
    rfl
  · split
    · exact ⟨rfl, rfl, List.subset_append_left _ _⟩
    · exact ⟨rfl, rfl, List.Subset.refl _⟩

/-- The payload and the place of a view were there before. -/
theorem exists_of_adding {b i : NodeId} {cs : List NodeId} {e e' : NodeView} (hb : es[b]? = some e)
    (h : (es.modify b (·.adding cs))[i]? = some e') : ∃ e₀, es[i]? = some e₀ ∧ e'.payload = e₀.payload ∧ e'.location = e₀.location := by
  rcases getElem?_adding hb h with ⟨rfl, rfl⟩ | he
  · exact ⟨e, hb, rfl, rfl⟩
  · exact ⟨e', he, rfl, rfl⟩

/-- The node that lists more lists all of it. -/
theorem exists_listing {b : NodeId} {e : NodeView} (hb : es[b]? = some e) (cs : List NodeId) :
    ∃ e', (es.modify b (·.adding cs))[b]? = some e' ∧ ∀ c ∈ cs, c ∈ e'.comments := by
  refine ⟨e.adding cs, ?_, fun c hc => List.mem_append_right _ hc⟩
  rw [List.getElem?_modify, hb]
  exact congrArg some (if_pos rfl)

theorem CommentAt.adding (h : CommentAt es c) (b : NodeId) (cs : List NodeId) : CommentAt (es.modify b (·.adding cs)) c := by
  obtain ⟨m, hm, hcomment⟩ := h
  obtain ⟨m', hm', hpayload, -, -⟩ := exists_adding hm b cs
  exact ⟨m', hm', by rw [NodeView.isComment, hpayload]; exact hcomment⟩

/-- All that wait are listed by one block: by the root, or by one behind which they start, if none of them is for the root. -/
theorem Filed.list {root' : Option NodeId} {b : NodeId} {e : NodeView} (h : Filed P root waiting es) (hb : es[b]? = some e)
    (hblock : e.payload.kind.isContainer = true) (hroot : ∀ r, root = some r → root' = some r)
    (hown : root' = some b ∨ ∀ c ∈ waiting, ∀ m, es[c]? = some m → e.location.offset < m.location.offset ∧ ¬P m.location) :
    Filed P root' [] (es.modify b (·.adding waiting)) := by
  refine ⟨?_, (fun _ hc => nomatch hc), ?_, .nil, ?_, ?_, ?_, ?_⟩
  · intro i e' he' c hc
    rcases getElem?_adding hb he' with ⟨rfl, rfl⟩ | he'
    · rcases List.mem_append.1 hc with hc | hc
      · exact (h.listed hb c hc).adding _ waiting
      · exact (h.waits c hc).adding _ waiting
    · exact (h.listed he' c hc).adding _ waiting
  · intro i e' he'
    rw [List.append_nil]
    rcases getElem?_adding hb he' with ⟨rfl, rfl⟩ | he'
    · exact h.increasing hb
    · exact (List.pairwise_append.1 (h.increasing he')).1
  · intro i e' he' hne
    rcases getElem?_adding hb he' with ⟨rfl, rfl⟩ | he'
    · exact hblock
    · exact h.container he' hne
  · rintro c ⟨m', hm', hm'comment⟩
    obtain ⟨m, hm, hpayload, -⟩ := exists_of_adding hb hm'
    have hcommentAt : CommentAt es c := ⟨m, hm, by rw [NodeView.isComment, ← hpayload]; exact hm'comment⟩
    rcases h.held hcommentAt with hc | ⟨i, e₀, he₀, hc⟩
    · obtain ⟨e', he', hlists⟩ := exists_listing hb waiting
      exact .inr ⟨b, e', he', hlists c hc⟩
    · obtain ⟨e', he', -, -, hsub⟩ := exists_adding he₀ b waiting
      exact .inr ⟨i, e', he', hsub hc⟩
  · intro i c e' m' he' hne hc hm'
    obtain ⟨m, hm, -, hlocation⟩ := exists_of_adding hb hm'
    have hold : root ≠ some i := fun heq => hne (hroot i heq)
    rw [hlocation]
    rcases getElem?_adding hb he' with ⟨rfl, rfl⟩ | he'
    · rcases List.mem_append.1 hc with hc | hc
      · exact h.behind (e := e) hb hold hc hm
      · rcases hown with hroot' | hown
        · exact absurd hroot' hne
        · exact (hown c hc m hm).1
    · exact h.behind he' hold hc hm
  · intro c m' hm' hm'comment hP
    obtain ⟨m, hm, hpayload, hlocation⟩ := exists_of_adding hb hm'
    rw [hlocation] at hP
    rw [NodeView.isComment, hpayload] at hm'comment
    rcases h.outside hm hm'comment hP with hc | ⟨r, e₀, hr, he₀, hc⟩
    · rcases hown with hroot' | hown
      · obtain ⟨e', he', hlists⟩ := exists_listing hb waiting
        exact .inr ⟨b, e', hroot', he', hlists c hc⟩
      · exact absurd hP (hown c hc m hm).2
    · obtain ⟨e', he', -, -, hsub⟩ := exists_adding he₀ b waiting
      exact .inr ⟨r, e', hroot r hr, he', hsub hc⟩

/-- More places are for the root if no comment is there yet. -/
theorem Filed.mono {P' : Location → Prop} (h : Filed P root waiting es)
    (hP : ∀ {c : NodeId} {m : NodeView}, es[c]? = some m → m.isComment = true → P' m.location → P m.location) :
    Filed P' root waiting es :=
  { h with outside := fun hm hcomment hP' => h.outside hm hcomment (hP hm hcomment hP') }

end

/-! ## Finished trees -/

namespace Tree

variable {t : Tree} {ts : List Token} {root : NodeId}

theorem notes_views (t : Tree) :
    notes t.views = (t.nodes.toList.filter Node.isComment).map (fun n => (n.payload, n.location)) := by
  rw [notes, views, List.filter_map, List.map_map]
  rfl

theorem commentAt_iff {c : NodeId} : CommentAt t.views c ↔ t.kind? c = some .comment := by
  unfold CommentAt kind?
  rw [getElem?_views]
  cases t.node? c with
  | none => simp
  | some n => simp [NodeView.isComment, Node.view, Node.kind]

/-- Comments are in the order of their places if they are those among tokens that are. -/
theorem precedes_of_lt (hspelled : notes t.views = tokenNotes ts)
    (hts : Ordered ts) {c d : NodeId} (hlt : c < d)
    (hc : t.kind? c = some .comment) (hd : t.kind? d = some .comment) : t.Precedes c d := by
  have hnotes : (notes t.views).Pairwise (fun a b => a.2.offset < b.2.offset) := by
    rw [hspelled, tokenNotes, List.pairwise_map]
    exact hts.filter _
  rw [notes_views, List.pairwise_map, List.pairwise_filter, List.pairwise_iff_getElem] at hnotes
  obtain ⟨m, hm, hmkind⟩ := Option.map_eq_some_iff.1 hc
  obtain ⟨n, hn, hnkind⟩ := Option.map_eq_some_iff.1 hd
  rw [node?, ← Array.getElem?_toList] at hm hn
  obtain ⟨hci, hceq⟩ := List.getElem?_eq_some_iff.1 hm
  obtain ⟨hdi, hdeq⟩ := List.getElem?_eq_some_iff.1 hn
  have hplaces := hnotes c d hci hdi hlt (by rw [hceq, Node.isComment, hmkind]; rfl) (by rw [hdeq, Node.isComment, hnkind]; rfl)
  rw [hceq, hdeq] at hplaces
  rw [Array.getElem?_toList] at hm hn
  exact ⟨hlt, m, n, hm, hn, hplaces⟩

/-- A tree whose comments are filed, and are those among the tokens, keeps the comments among them. -/
theorem IsTree.keepsComments (h : t.IsTree root) (hfiled : Filed (StandsOutside ts) (some root) [] t.views)
    (hspelled : notes t.views = tokenNotes ts) (hts : Ordered ts) :
    t.KeepsComments ts := by
  have hview : ∀ {b n}, t.node? b = some n → t.views[b]? = some n.view := fun hn => by rw [getElem?_views, hn]; rfl
  have hnode : ∀ {b e}, t.views[b]? = some e → ∃ n, t.node? b = some n ∧ n.view = e := by
    intro b e he
    rw [getElem?_views] at he
    exact Option.map_eq_some_iff.1 he
  have hcomments : ∀ {b n}, t.node? b = some n → ∀ c ∈ n.comments, t.kind? c = some .comment :=
    fun hn c hc => commentAt_iff.1 (hfiled.listed (hview hn) c hc)
  have hincreasing : ∀ {b n}, t.node? b = some n → n.comments.Pairwise (· < ·) := by
    intro b n hn
    have hlist := hfiled.increasing (hview hn)
    rwa [List.append_nil] at hlist
  have hparent : ∀ {b n c}, t.node? b = some n → c ∈ n.comments → t.parent? c = some b :=
    fun hn hc => (h.listed_below hn (List.mem_append_right _ hc)).2
  refine ⟨?_, ?_, hcomments, ?_, ?_, ?_⟩
  · rw [← notes_views]
    exact hspelled
  · intro c hc
    rcases hfiled.held (commentAt_iff.2 hc) with hwaits | ⟨b, e, he, hlists⟩
    · nomatch hwaits
    · obtain ⟨n, hn, rfl⟩ := hnode he
      have hnodup : n.comments.Nodup := (hincreasing hn).imp Nat.ne_of_lt
      refine ⟨b, n, hn, hfiled.container he (List.ne_nil_of_mem hlists), hnodup.count.trans (if_pos hlists), ?_⟩
      intro b' n' hn' hc'
      exact Option.some.inj ((hparent hn' hc').symm.trans (hparent hn hlists))
  · intro b n hn
    exact (hincreasing hn).imp_of_mem (fun hc hd hlt => precedes_of_lt hspelled hts hlt (hcomments hn _ hc) (hcomments hn _ hd))
  · intro c m hm hkind hout
    have hcomment : m.view.isComment = true := by
      have hpayload : m.payload.kind = .comment := hkind
      simp [NodeView.isComment, Node.view, hpayload]
    rcases hfiled.outside (hview hm) hcomment hout with hwaits | ⟨r, e, hr, he, hlists⟩
    · nomatch hwaits
    · obtain ⟨n, hn, rfl⟩ := hnode he
      exact ⟨r, n, h.root_eq.trans hr, hn, hlists⟩
  · intro b c n m hn hroot hc hm
    exact hfiled.behind (hview hn) (fun heq => hroot (h.root_eq.trans heq)) hc (hview hm)

end Tree

end Courier
