import Courier.Proofs.Files.Verdicts
import Courier.Source.Memory

/-!
# The files of a check do not influence each other

In memory, all paths of one name have one text. So what is said of a path depends on the paths before it only as far as one of them has its
name (`MemorySources.verdict`), and where no name stands twice the check says of each file what would be said of it alone.
-/

namespace Courier

namespace MemorySources

/-- What a check says of a path behind some others. A text that is not held cannot be read. A text that was cut into tokens before is
refused, whatever became of its parse. Any other text is tokenized and parsed by itself. -/
def verdict (sources : MemorySources) (trace : Bool) (before : List String) (path : String) : Except Failure Tree :=
  match sources.texts.lookup (Path.fileName path) with
  | none => .error (.unreadable path (.notInMemory (Path.fileName path)))
  | some text =>
    if (∃ earlier ∈ before, Path.fileName earlier = Path.fileName path) ∧ (Stream.tokenize (Path.fileName path) text).isOk then
      .error (.lexical (.alreadyTokenized (Path.fileName path)))
    else parseSource (Path.fileName path) text trace

/-- What is said of a path that is parsed by itself. -/
def alone (sources : MemorySources) (trace : Bool) (path : String) : FileReport :=
  ⟨path, parseFile path (sources.read path) trace⟩

variable {sources : MemorySources} {trace : Bool} {before : List String} {path text : String}

theorem read_eq_error (h : sources.texts.lookup (Path.fileName path) = none) :
    sources.read path = .error (.notInMemory (Path.fileName path)) := by
  unfold MemorySources.read
  rw [h]

theorem read_eq_ok (h : sources.texts.lookup (Path.fileName path) = some text) : sources.read path = .ok text := by
  unfold MemorySources.read
  rw [h]

/-- One of some paths was cut into tokens under a name exactly if it has that name, and the text of the name can be. -/
theorem tokenized_iff (before : List String) (h : sources.texts.lookup (Path.fileName path) = some text) :
    Source.Tokenized (before.map (fun path => (path, sources.read path))) (Path.fileName path) ↔
      (∃ earlier ∈ before, Path.fileName earlier = Path.fileName path) ∧ (Stream.tokenize (Path.fileName path) text).isOk = true := by
  have hlexes : ∀ earlier, Path.fileName earlier = Path.fileName path →
      (Source.Lexes (earlier, sources.read earlier) ↔ (Stream.tokenize (Path.fileName path) text).isOk = true) := by
    intro earlier hname
    have hread : sources.read earlier = .ok text := read_eq_ok (hname ▸ h)
    simp [Source.Lexes, Source.name, hread, hname]
  constructor
  · rintro ⟨_, hmem, hname, hok⟩
    obtain ⟨earlier, hearlier, rfl⟩ := List.mem_map.1 hmem
    exact ⟨⟨earlier, hearlier, hname⟩, (hlexes earlier hname).1 hok⟩
  · rintro ⟨⟨earlier, hearlier, hname⟩, hok⟩
    exact ⟨_, List.mem_map_of_mem hearlier, hname, (hlexes earlier hname).2 hok⟩

/-- What is said of a path in memory is the verdict on it. -/
theorem verdict_source (sources : MemorySources) (trace : Bool) (before : List String) (path : String) :
    Source.verdict trace (before.map (fun path => (path, sources.read path))) (path, sources.read path) =
      sources.verdict trace before path := by
  unfold verdict
  cases hlookup : sources.texts.lookup (Path.fileName path) with
  | none => exact Source.verdict_of_error (read_eq_error hlookup)
  | some text =>
    have hread : (path, sources.read path).2 = .ok text := read_eq_ok hlookup
    simp only [← tokenized_iff before hlookup]
    split
    · rename_i hagain
      exact Source.verdict_of_again hread hagain
    · rename_i hfirst
      exact Source.verdict_of_first hread hfirst

/-- Behind paths of other names, a path is what it is alone. -/
theorem verdict_of_new (h : ∀ earlier ∈ before, Path.fileName earlier ≠ Path.fileName path) :
    sources.verdict trace before path = parseFile path (sources.read path) trace := by
  rw [← verdict_source]
  refine Source.verdict_of_not_tokenized ?_
  rintro ⟨_, hmem, hname, -⟩
  obtain ⟨earlier, hearlier, rfl⟩ := List.mem_map.1 hmem
  exact h earlier hearlier hname

end MemorySources

namespace Registry

open MemorySources

variable {sources : MemorySources} {before : List String} {r : Registry}

/-- The registry of a check that has come behind some paths. -/
def Knows (sources : MemorySources) (before : List String) (r : Registry) : Prop :=
  Behind (before.map (fun path => (path, sources.read path))) r

theorem knows_empty : Knows sources [] empty :=
  behind_empty

/-- Each report of a check is the verdict on its path behind those before it. -/
theorem Knows.checkAll (h : Knows sources before r) (trace : Bool) (paths : List String) (i : Nat) :
    (r.checkAll trace (paths.map (fun path => (path, sources.read path))))[i]? =
      paths[i]?.map (fun path => ⟨path, sources.verdict trace (before ++ paths.take i) path⟩) := by
  refine (Behind.checkAll h trace _ i).trans ?_
  rw [List.getElem?_map, Option.map_map, ← List.map_take, ← List.map_append]
  congr 1
  funext path
  exact congrArg (FileReport.mk path) (verdict_source sources trace (before ++ paths.take i) path)

end Registry

/-! ## Whole checks -/

open MemorySources

variable {paths : List String}

/-- Where no name stands twice, the check says of each path what would be said of it alone. -/
theorem checkFiles_of_nodup (sources : MemorySources) (trace : Bool) (h : (paths.map Path.fileName).Nodup) :
    checkFiles sources.read paths trace = paths.map (sources.alone trace) := by
  refine List.ext_getElem? (fun i => ?_)
  rw [List.getElem?_map]
  refine (Registry.knows_empty.checkAll trace paths i).trans ?_
  cases hpath : paths[i]? with
  | none => rfl
  | some path =>
    obtain ⟨hi, rfl⟩ := List.getElem?_eq_some_iff.1 hpath
    have hsplit : paths.take i ++ paths[i] :: paths.drop (i + 1) = paths := by
      rw [← List.drop_eq_getElem_cons hi, List.take_append_drop]
    rw [← hsplit, List.map_append, List.map_cons] at h
    have hother : ∀ earlier ∈ paths.take i, Path.fileName earlier ≠ Path.fileName paths[i] := fun earlier hearlier =>
      (List.nodup_append.1 h).2.2 _ (List.mem_map_of_mem hearlier) _ (List.mem_cons_self ..)
    rw [Option.map_some, Option.map_some, List.nil_append, verdict_of_new hother, alone]

/-- The files of a check do not influence each other. There is one report for each path, in order, and it tells the verdict on the path
behind those before it; that a name was tokenized already is told without a place. So where no name stands twice, every order of the
paths gives each the report it has alone, and a check of one path says what parsing its text says. -/
theorem checkFiles_reports (sources : MemorySources) (paths : List String) (trace : Bool) :
    (checkFiles sources.read paths trace).length = paths.length ∧
    (∀ i, (checkFiles sources.read paths trace)[i]? =
      paths[i]?.map (fun path => FileReport.mk path (sources.verdict trace (paths.take i) path))) ∧
    (∀ file, (LexError.alreadyTokenized file).file = file ∧ (LexError.alreadyTokenized file).location.line = 0 ∧
      (LexError.alreadyTokenized file).message = s!"file '{file}' has already been tokenized") ∧
    (∀ paths', (paths.map Path.fileName).Nodup → paths'.Perm paths →
      checkFiles sources.read paths trace = paths.map (sources.alone trace) ∧
      checkFiles sources.read paths' trace = paths'.map (sources.alone trace) ∧
      (checkFiles sources.read paths' trace).Perm (checkFiles sources.read paths trace)) ∧
    (∀ (build : Build) path text, sources.read path = .ok text → checkFiles sources.read [path] (tracesByDefault build) =
      [⟨path, parseSource (Path.fileName path) text (tracesByDefault build)⟩]) := by
  refine ⟨?_, fun i => ?_, fun file => ⟨rfl, rfl, rfl⟩, fun paths' hnodup hperm => ?_,
    fun build path text htext => ?_⟩
  · exact (Registry.length_checkAll _ _ _).trans (List.length_map _)
  · exact Registry.knows_empty.checkAll trace paths i
  · have hnodup' : (paths'.map Path.fileName).Nodup := (hperm.map Path.fileName).nodup_iff.2 hnodup
    have hreports := checkFiles_of_nodup sources trace hnodup
    have hreports' := checkFiles_of_nodup sources trace hnodup'
    refine ⟨hreports, hreports', ?_⟩
    rw [hreports, hreports']
    exact hperm.map _
  · rw [checkFiles_of_nodup sources (tracesByDefault build) (by simp), List.map_singleton, alone, htext]
    rfl

end Courier
