import Courier.Check
import Courier.Proofs.Files.Registry
import Courier.Proofs.Parser.Tracing

/-!
# What a check says of each source

A check runs one registry through all its sources, but all that a source learns of those before it is whether one of its name could be cut
into tokens (`Registry.Behind`). So what is said of a source is its verdict behind those before it (`Registry.Behind.checkAll`): one that
cannot be read is told so, one whose name was tokenized is refused, and any other is tokenized and parsed by itself.
-/

namespace Courier

/-- A path, and what reading it gives. -/
abbrev Source : Type :=
  String × Except ReadFault String

namespace Source

variable {source : Source} {before : List Source} {trace : Bool} {text : String}

/-- The name under which a source is tokenized. -/
def name (source : Source) : String :=
  Path.fileName source.1

/-- The source can be read and cut into tokens. -/
def Lexes (source : Source) : Prop :=
  ∃ text, source.2 = .ok text ∧ (Stream.tokenize source.name text).isOk = true

instance (source : Source) : Decidable source.Lexes :=
  match h : source.2 with
  | .ok text => decidable_of_iff ((Stream.tokenize source.name text).isOk = true)
      ⟨fun hok => ⟨text, h, hok⟩, fun ⟨_, htext, hok⟩ => Except.ok.inj (h.symm.trans htext) ▸ hok⟩
  | .error _ => isFalse (fun ⟨_, htext, _⟩ => nomatch h.symm.trans htext)

/-- One of some sources has a name and could be cut into tokens. -/
def Tokenized (before : List Source) (file : String) : Prop :=
  ∃ earlier ∈ before, earlier.name = file ∧ earlier.Lexes

instance (before : List Source) (file : String) : Decidable (Tokenized before file) :=
  inferInstanceAs (Decidable (∃ earlier ∈ before, earlier.name = file ∧ earlier.Lexes))

theorem not_tokenized_nil (file : String) : ¬Tokenized [] file := by
  simp [Tokenized]

/-- What a check says of a source behind some others. -/
def verdict (trace : Bool) (before : List Source) (source : Source) : Except Failure Tree :=
  match source.2 with
  | .error fault => .error (.unreadable source.1 fault)
  | .ok text =>
    if Tokenized before source.name then .error (.lexical (.alreadyTokenized source.name))
    else parseSource source.name text trace

theorem verdict_of_error {fault : ReadFault} (h : source.2 = .error fault) :
    source.verdict trace before = .error (.unreadable source.1 fault) := by
  unfold verdict
  rw [h]

theorem verdict_of_again (h : source.2 = .ok text) (hagain : Tokenized before source.name) :
    source.verdict trace before = .error (.lexical (.alreadyTokenized source.name)) := by
  unfold verdict
  rw [h]
  exact if_pos hagain

theorem verdict_of_first (h : source.2 = .ok text) (hfirst : ¬Tokenized before source.name) :
    source.verdict trace before = parseSource source.name text trace := by
  unfold verdict
  rw [h]
  exact if_neg hfirst

/-- Where its name was not tokenized, a source is what it is by itself. -/
theorem verdict_of_not_tokenized (h : ¬Tokenized before source.name) :
    source.verdict trace before = parseFile source.1 source.2 trace := by
  cases hcontent : source.2 with
  | error fault => exact verdict_of_error hcontent
  | ok text => exact verdict_of_first hcontent h

/-- A source is accepted behind some others: it can be read, cut into tokens and parsed, and none of the others has its name and could be
cut into tokens. -/
def Accepted (before : List Source) (source : Source) : Prop :=
  (∃ text s tree, source.2 = .ok text ∧ Stream.tokenize source.name text = .ok s ∧ ∀ trace, (s.parse trace).1 = .ok tree) ∧
    ¬Tokenized before source.name

/-- Every one of some sources is accepted behind those before it. -/
def AllAccepted (sources : List Source) : Prop :=
  ∀ (k : Nat) (source : Source), sources[k]? = some source → source.Accepted (sources.take k)

/-- The verdict on a source is good exactly if it is accepted, whether failures tell constructs or not. -/
theorem isOk_verdict_iff (trace : Bool) : (source.verdict trace before).isOk = true ↔ source.Accepted before := by
  constructor
  · intro hok
    cases hcontent : source.2 with
    | error fault =>
      rw [verdict_of_error hcontent] at hok
      nomatch hok
    | ok text =>
      by_cases hagain : Tokenized before source.name
      · rw [verdict_of_again hcontent hagain] at hok
        nomatch hok
      · rw [verdict_of_first hcontent hagain, parseSource] at hok
        cases hs : Stream.tokenize source.name text with
        | error e =>
          rw [hs] at hok
          nomatch hok
        | ok s =>
          cases hparse : (s.parse trace).1 with
          | error e =>
            simp only [hs, hparse] at hok
            nomatch hok
          | ok tree => exact ⟨⟨text, s, tree, hcontent, hs, fun trace' => (Stream.parse_ok_congr trace' trace).2 hparse⟩, hagain⟩
  · rintro ⟨⟨text, s, tree, hcontent, hs, hparse⟩, hfirst⟩
    simp only [verdict_of_first hcontent hfirst, parseSource, hs, hparse trace]
    rfl

theorem allAccepted_singleton : AllAccepted [source] ↔ source.Accepted [] := by
  constructor
  · exact fun h => h 0 source rfl
  · intro h k source' hsource
    cases k with
    | zero =>
      obtain rfl := Option.some.inj hsource
      exact h
    | succ k => nomatch hsource

end Source

namespace Registry

open Source

variable {source : Source} {before : List Source} {r : Registry} {s : Stream}

/-- The registry of a check that has come behind some sources. It has seen the names of those that could be cut into tokens, and it holds
no stream but of a name that it has seen. -/
structure Behind (before : List Source) (r : Registry) : Prop where
  seen : ∀ file, r.hasSeen file = true ↔ Tokenized before file
  held : ∀ file, r.hasSeen file = false → r.stream? file = none

theorem behind_empty : Behind [] empty :=
  ⟨fun file => iff_of_false Bool.false_ne_true (not_tokenized_nil file), fun _ _ => rfl⟩

theorem tokenized_append {file : String} :
    Tokenized (before ++ [source]) file ↔ Tokenized before file ∨ (source.name = file ∧ source.Lexes) := by
  simp [Tokenized, or_and_right, exists_or]

/-- A source that cannot be cut into tokens, or whose name was seen, teaches nothing. -/
theorem Behind.same (h : Behind before r) (hsource : source.Lexes → r.hasSeen source.name = true) : Behind (before ++ [source]) r := by
  refine ⟨fun file => ?_, h.held⟩
  rw [h.seen, tokenized_append]
  constructor
  · exact .inl
  · rintro (hbefore | ⟨rfl, hlexes⟩)
    · exact hbefore
    · exact (h.seen _).1 (hsource hlexes)

/-- A source that is cut into tokens is seen from now on, and its stream is held as the parser leaves it. -/
theorem Behind.learn (h : Behind before r) (hlexes : source.Lexes) (rest : Stream) :
    Behind (before ++ [source]) (update ⟨(source.name, s) :: r.held, source.name :: r.seen⟩ source.name rest) := by
  have hseen : ∀ file, hasSeen (update ⟨(source.name, s) :: r.held, source.name :: r.seen⟩ source.name rest) file = true ↔
      file = source.name ∨ r.hasSeen file = true := by
    intro file
    simp [hasSeen, update]
  refine ⟨fun file => ?_, fun file hfresh => ?_⟩
  · rw [hseen, h.seen, tokenized_append, or_comm, eq_comm]
    exact or_congr_right ⟨fun hname => ⟨hname, hlexes⟩, fun hname => hname.1⟩
  · rw [← Bool.not_eq_true, hseen, not_or, Bool.not_eq_true] at hfresh
    obtain ⟨hne, hold⟩ := hfresh
    exact (lookup_update.trans (if_neg hne)).trans ((lookup_cons_of_ne hne).trans (h.held file hold))

/-- What a check says of a source is its verdict, and the registry is behind the source afterwards. -/
theorem Behind.checkOne (h : Behind before r) (trace : Bool) (source : Source) :
    (r.checkOne trace source.1 source.2).1 = ⟨source.1, source.verdict trace before⟩ ∧
      Behind (before ++ [source]) (r.checkOne trace source.1 source.2).2 := by
  have hname : Path.fileName source.1 = source.name := rfl
  cases hcontent : source.2 with
  | error fault =>
    rw [verdict_of_error hcontent]
    refine ⟨rfl, h.same (fun ⟨text, htext, _⟩ => ?_)⟩
    nomatch hcontent.symm.trans htext
  | ok text =>
    cases hseen : r.hasSeen source.name with
    | true =>
      simp only [Registry.checkOne, hname, tokenize_of_seen hseen]
      rw [verdict_of_again hcontent ((h.seen _).1 hseen)]
      exact ⟨rfl, h.same (fun _ => hseen)⟩
    | false =>
      have hfirst : ¬Tokenized before source.name := by
        rw [← h.seen, hseen]
        exact Bool.false_ne_true
      rw [verdict_of_first hcontent hfirst, parseSource]
      cases hs : Stream.tokenize source.name text with
      | error e =>
        simp only [Registry.checkOne, hname, tokenize_of_error hseen hs]
        refine ⟨trivial, h.same (fun ⟨text', htext', hlexes⟩ => ?_)⟩
        obtain rfl : text = text' := Except.ok.inj (hcontent.symm.trans htext')
        rw [hs] at hlexes
        nomatch hlexes
      | ok s =>
        have hnone : ({ r with seen := source.name :: r.seen } : Registry).stream? source.name = none := h.held _ hseen
        simp only [Registry.checkOne, hname, tokenize_of_ok hseen hs, holdNew_of_none hnone]
        exact ⟨trivial, h.learn ⟨text, hcontent, by rw [hs]; rfl⟩ (s.parse trace).2⟩

theorem length_checkAll (r : Registry) (trace : Bool) (sources : List Source) : (r.checkAll trace sources).length = sources.length := by
  induction sources generalizing r with
  | nil => rfl
  | cons source sources ih => exact congrArg (· + 1) (ih _)

/-- Each report of a check is the verdict on its source behind those before it. -/
theorem Behind.checkAll (h : Behind before r) (trace : Bool) (sources : List Source) (i : Nat) :
    (r.checkAll trace sources)[i]? = sources[i]?.map (fun source => ⟨source.1, source.verdict trace (before ++ sources.take i)⟩) := by
  induction sources generalizing r before i with
  | nil => rfl
  | cons source sources ih =>
    obtain ⟨hreport, hbehind⟩ := h.checkOne trace source
    simp only [Registry.checkAll]
    cases i with
    | zero => simp [hreport]
    | succ i =>
      rw [List.getElem?_cons_succ, List.getElem?_cons_succ, ih hbehind]
      simp

/-- A source that is checked alone is parsed by itself. -/
theorem checkAll_singleton (trace : Bool) (source : Source) :
    Registry.empty.checkAll trace [source] = [⟨source.1, parseFile source.1 source.2 trace⟩] := by
  have hreport := (behind_empty.checkOne trace source).1
  rw [verdict_of_not_tokenized (not_tokenized_nil _)] at hreport
  exact congrArg (fun r => [r]) hreport

end Registry

end Courier
