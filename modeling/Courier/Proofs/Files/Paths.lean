import Courier.Path
import Mathlib.Data.List.Induction
import Mathlib.Algebra.Order.BigOperators.Group.List
import Mathlib.Algebra.Order.Group.Nat
import Mathlib.Tactic.TFAE

/-!
# File names are a normal form of paths

Where a path leads is told by its components alone (`Path.resolve`): a name leads down, two dots lead up and not above the root. The normal
form of a path is steps up and then names, with no step up from the root (`Path.IsNormal`), and leads where the path leads. Two normal forms
that lead to the same places are one: from a directory that is deep enough and of names that neither of them has, the names that are left of
it tell the steps up (`Path.IsNormal.unique`). So two paths have one file name exactly if they lead to the same places
(`Path.fileName_complete`).
-/

namespace Courier

namespace Path

/-! ## Where a path leads -/

/-- A name that can stand in a directory: neither empty nor one of the two marks for a place, and without a slash. -/
def IsName (name : String) : Prop :=
  name ≠ "" ∧ name ≠ "." ∧ name ≠ ".." ∧ '/' ∉ name.toList

instance (name : String) : Decidable (IsName name) :=
  inferInstanceAs (Decidable (name ≠ "" ∧ name ≠ "." ∧ name ≠ ".." ∧ '/' ∉ name.toList))

/-- The components of a path: what stands between its slashes. -/
def components (path : String) : List String :=
  (path.toList.splitOn '/').map String.ofList

/-- Where a component leads from a place. A place is told by the names that lead to it from the root. -/
def follow (place : List String) (component : String) : List String :=
  if component = "" ∨ component = "." then place
  else if component = ".." then place.dropLast
  else place ++ [component]

/-- Where a path leads from a directory: its components are followed in turn, from the root if it begins with a slash. -/
def resolve (directory : List String) (path : String) : List String :=
  (components path).foldl follow (if path.toList.head? = some '/' then [] else directory)

/-- Where a step leads from a place. -/
def stepFrom (place : List String) : PathStep → List String
  | .up => place.dropLast
  | .down name => place ++ [name]

/-- Where the steps of a path lead from a directory. -/
def placeFrom (p : Path) (directory : List String) : List String :=
  p.steps.foldl stepFrom (if p.absolute then [] else directory)

theorem segments_eq (cs : List Char) : segments cs = cs.splitOn '/' := by
  induction cs with
  | nil => rfl
  | cons c cs ih =>
    rw [segments]
    split
    · rename_i hc
      rw [hc, ih]
      exact (List.splitOn_append_cons_self [] cs).symm
    · rename_i hc
      rw [ih, List.splitOn, List.splitOn, List.splitOnP_cons_eq_if_modifyHead, if_neg (by simpa using hc)]
      cases hsplit : List.splitOnP (fun x => x == '/') cs with
      | nil => exact absurd hsplit (List.splitOnP_ne_nil _ cs)
      | cons piece rest => rfl

/-- The pieces of a text hold no slash. -/
theorem slash_notMem_of_mem_segments {piece cs : List Char} (h : piece ∈ segments cs) : '/' ∉ piece := by
  induction cs generalizing piece with
  | nil =>
    obtain rfl := List.mem_singleton.1 h
    exact List.not_mem_nil
  | cons c cs ih =>
    rw [segments] at h
    split at h
    · rcases List.mem_cons.1 h with rfl | h
      · exact List.not_mem_nil
      · exact ih h
    · rename_i hc
      split at h
      · rename_i first rest hsegments
        rw [hsegments] at ih
        rcases List.mem_cons.1 h with rfl | h
        · rw [List.mem_cons]
          exact not_or.2 ⟨Ne.symm hc, ih List.mem_cons_self⟩
        · exact ih (List.mem_cons_of_mem first h)
      · obtain rfl := List.mem_singleton.1 h
        simpa using Ne.symm hc

/-- A component leads where its step leads, and nowhere else if it stands for none. -/
theorem follow_ofList (place : List String) (piece : List Char) :
    follow place (String.ofList piece) = ((stepOf? piece).map (stepFrom place)).getD place := by
  have hof : ∀ {other : List Char}, String.ofList piece = String.ofList other ↔ piece = other := String.ofList_inj
  unfold stepOf?
  split
  · rfl
  · rfl
  · rfl
  · rename_i hempty hdot hdots
    unfold follow
    rw [if_neg (not_or.2 ⟨fun h => hempty (hof.1 h), fun h => hdot (hof.1 h)⟩), if_neg (fun h => hdots (hof.1 h))]
    rfl

theorem resolve_eq (directory : List String) (path : String) : resolve directory path = (ofText path).placeFrom directory := by
  have hfold : ∀ (pieces : List (List Char)) (place : List String),
      (pieces.map String.ofList).foldl follow place = (pieces.filterMap stepOf?).foldl stepFrom place := by
    intro pieces
    induction pieces with
    | nil => exact fun _ => rfl
    | cons piece pieces ih =>
      intro place
      rw [List.map_cons, List.foldl_cons, ih, follow_ofList, List.filterMap_cons]
      cases stepOf? piece <;> rfl
  unfold resolve components placeFrom ofText
  rw [hfold, segments_eq]
  simp

/-! ## Normal forms -/

/-- Steps in normal form: up, though not from the root, and then down to names. -/
def NormalSteps (absolute : Bool) (steps : List PathStep) : Prop :=
  ∃ (ups : Nat) (names : List String), steps = List.replicate ups .up ++ names.map .down ∧ (absolute = true → ups = 0) ∧
    ∀ name ∈ names, IsName name

/-- A path in normal form. -/
def IsNormal (p : Path) : Prop :=
  NormalSteps p.absolute p.steps

/-- The step is none down, or it is one to a name that can stand in a directory. -/
def IsNamed (step : PathStep) : Prop :=
  ∀ name, step = .down name → IsName name

theorem isNamed_of_stepOf? {piece : List Char} {step : PathStep} (hslash : '/' ∉ piece) (h : stepOf? piece = some step) :
    IsNamed step := by
  rintro name rfl
  unfold stepOf? at h
  split at h
  · nomatch h
  · nomatch h
  · nomatch h
  · rename_i hempty hdot hdots
    obtain rfl := PathStep.down.inj (Option.some.inj h)
    refine ⟨fun h => hempty (String.ofList_inj.1 h), fun h => hdot (String.ofList_inj.1 h), fun h => hdots (String.ofList_inj.1 h), ?_⟩
    rwa [String.toList_ofList]

/-- One more step keeps the normal form of the steps taken, which are held last step first. -/
theorem NormalSteps.takeStep {absolute : Bool} {taken : List PathStep} {step : PathStep} (h : NormalSteps absolute taken.reverse)
    (hstep : IsNamed step) : NormalSteps absolute (Path.takeStep absolute taken step).reverse := by
  obtain ⟨ups, names, hsteps, hroot, hnames⟩ := h
  have htaken : taken = (names.map PathStep.down).reverse ++ List.replicate ups .up := by
    rw [← List.reverse_reverse taken, hsteps, List.reverse_append, List.reverse_replicate]
  cases step with
  | down name =>
    refine ⟨ups, names ++ [name], by simp [Path.takeStep, hsteps], hroot, fun other hother => ?_⟩
    rcases List.mem_append.1 hother with hother | hother
    · exact hnames other hother
    · exact hstep other (by rw [List.mem_singleton.1 hother])
  | up =>
    induction names using List.reverseRecOn with
    | append_singleton names name _ =>
      exact ⟨ups, names, by simp [Path.takeStep, htaken], hroot, fun other hother => hnames other (List.mem_append_left _ hother)⟩
    | nil =>
      -- There is no name to cancel: another step up is kept, but for one at the root.
      cases ups with
      | succ ups =>
        have hup : taken = .up :: List.replicate ups .up := by rw [htaken, List.replicate_succ]; rfl
        refine ⟨ups + 2, [], ?_, fun habsolute => absurd (hroot habsolute) (Nat.succ_ne_zero ups), hnames⟩
        simp [Path.takeStep, hup, List.replicate_succ']
      | zero =>
        cases absolute with
        | true => exact ⟨0, [], by simp [Path.takeStep, htaken], fun _ => rfl, hnames⟩
        | false => exact ⟨1, [], by simp [Path.takeStep, htaken], fun habsolute => (nomatch habsolute), hnames⟩

/-- The normal form of the path of a text is one. -/
theorem isNormal_normalize (path : String) : (ofText path).normalize.IsNormal := by
  have hfold : ∀ (absolute : Bool) (steps taken : List PathStep), (∀ step ∈ steps, IsNamed step) → NormalSteps absolute taken.reverse →
      NormalSteps absolute (steps.foldl (takeStep absolute) taken).reverse := by
    intro absolute steps
    induction steps with
    | nil => exact fun _ _ h => h
    | cons step steps ih =>
      intro taken hnamed h
      exact ih _ (fun other hother => hnamed other (List.mem_cons_of_mem step hother)) (h.takeStep (hnamed step List.mem_cons_self))
  refine hfold _ (ofText path).steps [] (fun step hstep => ?_) ⟨0, [], rfl, fun _ => rfl, fun _ hname => nomatch hname⟩
  obtain ⟨piece, hpiece, hstep⟩ := List.mem_filterMap.1 hstep
  exact isNamed_of_stepOf? (slash_notMem_of_mem_segments hpiece) hstep

/-- A path in normal form is its own normal form: no step cancels another. -/
theorem IsNormal.normalize_eq {p : Path} (h : p.IsNormal) : p.normalize = p := by
  obtain ⟨absolute, steps⟩ := p
  obtain ⟨ups, names, rfl, hroot, -⟩ := h
  have hups : ∀ n, (absolute = true → n = 0) →
      (List.replicate n PathStep.up).foldl (takeStep absolute) [] = List.replicate n .up := by
    intro n
    induction n with
    | zero => exact fun _ => rfl
    | succ n ih =>
      intro hn
      cases absolute with
      | true => exact absurd (hn rfl) (Nat.succ_ne_zero n)
      | false =>
        rw [List.replicate_succ', List.foldl_append, ih (fun h => nomatch h), ← List.replicate_succ']
        cases n <;> rfl
  have hnames : ∀ (names : List String) (taken : List PathStep),
      (names.map PathStep.down).foldl (takeStep absolute) taken = (names.map PathStep.down).reverse ++ taken := by
    intro names
    induction names with
    | nil => exact fun _ => rfl
    | cons name names ih => exact fun taken => by simp [ih, takeStep]
  rw [normalize, List.foldl_append, hups ups hroot, hnames, List.reverse_append, List.reverse_reverse, List.reverse_replicate]

/-! ## Texts of normal forms -/

theorem stepOf?_stepText {step : PathStep} (h : IsNamed step) : stepOf? (stepText step).toList = some step := by
  cases step with
  | up => rfl
  | down name =>
    obtain ⟨hempty, hdot, hdots, -⟩ := h name rfl
    unfold stepText stepOf?
    split
    · rename_i heq
      exact absurd (String.toList_eq_nil_iff.1 heq) hempty
    · rename_i heq
      exact absurd (String.toList_inj.1 (heq.trans rfl)) hdot
    · rename_i heq
      exact absurd (String.toList_inj.1 (heq.trans rfl)) hdots
    · rw [String.ofList_toList]

theorem slash_notMem_stepText {step : PathStep} (h : IsNamed step) : '/' ∉ (stepText step).toList := by
  cases step with
  | up => decide
  | down name => exact (h name rfl).2.2.2

theorem IsNormal.isNamed {p : Path} (h : p.IsNormal) : ∀ step ∈ p.steps, IsNamed step := by
  obtain ⟨ups, names, hsteps, -, hnames⟩ := h
  rintro step hstep name rfl
  rw [hsteps, List.mem_append] at hstep
  rcases hstep with hstep | hstep
  · nomatch List.eq_of_mem_replicate hstep
  · obtain ⟨other, hother, heq⟩ := List.mem_map.1 hstep
    exact PathStep.down.inj heq ▸ hnames other hother

/-- The text of a path in normal form stands for that path. -/
theorem IsNormal.ofText_toText {p : Path} (h : p.IsNormal) : ofText p.toText = p := by
  have hnamed := h.isNamed
  obtain ⟨absolute, steps⟩ := p
  let texts := steps.map (fun step => (stepText step).toList)
  have hslash : ∀ text ∈ texts, '/' ∉ text := by
    intro text htext
    obtain ⟨step, hstep, rfl⟩ := List.mem_map.1 htext
    exact slash_notMem_stepText (hnamed step hstep)
  have hsteps : texts.filterMap stepOf? = steps := by
    rw [List.filterMap_map]
    exact (List.filterMap_congr (fun step hstep => stepOf?_stepText (hnamed step hstep))).trans (List.filterMap_some)
  have hjoined : (segments (['/'].intercalate texts)).filterMap stepOf? = steps := by
    rw [segments_eq]
    by_cases hnil : texts = []
    · rw [hnil] at hsteps ⊢
      exact hsteps
    · rw [List.splitOn_intercalate '/' hslash hnil, hsteps]
  have htext : (Path.toText ⟨absolute, steps⟩).toList = (if absolute then ['/'] else []) ++ ['/'].intercalate texts := by
    have htexts : (steps.map stepText).map String.toList = texts := List.map_map
    rw [toText, String.toList_append, String.toList_intercalate, htexts]
    cases absolute <;> simp
  have hhead : (['/'].intercalate texts).head? ≠ some '/' := by
    intro hfront
    obtain ⟨cs, hcs⟩ := List.head?_eq_some_iff.1 hfront
    have hnil : texts ≠ [] := by
      intro hnil
      rw [hnil] at hcs
      nomatch hcs
    -- The first piece would be empty, and no step has an empty text.
    have hpieces : texts = [] :: cs.splitOn '/' := by
      rw [← List.splitOn_intercalate '/' hslash hnil, hcs]
      exact List.splitOn_append_cons_self [] cs
    obtain ⟨step, hstep, hempty⟩ := List.mem_map.1 (hpieces ▸ List.mem_cons_self : [] ∈ texts)
    have hnone := stepOf?_stepText (hnamed step hstep)
    rw [hempty] at hnone
    nomatch hnone
  unfold ofText
  rw [htext]
  cases absolute with
  | true => exact congrArg (Path.mk true) hjoined
  | false => exact congrArg₂ Path.mk (decide_eq_false hhead) hjoined

/-! ## Normal forms that lead to the same places -/

theorem takeStep_place (absolute : Bool) (taken : List PathStep) (step : PathStep) {place : List String}
    (hplace : absolute = true → place = []) :
    (takeStep absolute taken step).reverse.foldl stepFrom place = stepFrom (taken.reverse.foldl stepFrom place) step := by
  cases step with
  | down name => simp [takeStep]
  | up =>
    cases taken with
    | cons last rest => cases last <;> simp [takeStep, stepFrom]
    | nil =>
      cases absolute with
      | true =>
        obtain rfl := hplace rfl
        rfl
      | false => rfl

/-- The normal form of a path leads where the path leads. -/
theorem placeFrom_normalize (p : Path) (directory : List String) : p.normalize.placeFrom directory = p.placeFrom directory := by
  have hfold : ∀ (steps taken : List PathStep) {place : List String}, (p.absolute = true → place = []) →
      (steps.foldl (takeStep p.absolute) taken).reverse.foldl stepFrom place = steps.foldl stepFrom (taken.reverse.foldl stepFrom place) := by
    intro steps
    induction steps with
    | nil => exact fun _ _ _ => rfl
    | cons step steps ih =>
      intro taken place hplace
      rw [List.foldl_cons, List.foldl_cons, ih _ hplace, takeStep_place _ _ _ hplace]
  exact hfold p.steps [] (fun habsolute => if_pos habsolute)

/-- Where a path in normal form leads: the steps up leave so many names less, and then the names follow. -/
theorem placeFrom_eq {p : Path} {ups : Nat} {names : List String} (h : p.steps = List.replicate ups .up ++ names.map .down)
    (directory : List String) :
    p.placeFrom directory =
      (if p.absolute then [] else directory).take ((if p.absolute then [] else directory).length - ups) ++ names := by
  have hups : ∀ (n : Nat) (place : List String),
      (List.replicate n PathStep.up).foldl stepFrom place = place.take (place.length - n) := by
    intro n
    induction n with
    | zero => exact fun place => by simp
    | succ n ih =>
      intro place
      rw [List.replicate_succ', List.foldl_append, ih]
      simp [stepFrom, List.dropLast_eq_take, List.take_take]
      omega
  have hnames : ∀ (names place : List String), (names.map PathStep.down).foldl stepFrom place = place ++ names := by
    intro names
    induction names with
    | nil => exact fun place => (List.append_nil place).symm
    | cons name names ih => exact fun place => by simp [ih, stepFrom]
  rw [placeFrom, h, List.foldl_append, hups, hnames]

/-- There is a name that is none of the given ones. -/
theorem exists_isName_notMem (names : List String) : ∃ name, IsName name ∧ name ∉ names := by
  let letters := List.replicate (names.map String.length).sum 'a'
  have hne : ∀ {text : String}, text.toList.head? ≠ some 'a' → String.ofList ('a' :: letters) ≠ text := by
    rintro text htext rfl
    exact htext (by rw [String.toList_ofList]; rfl)
  refine ⟨String.ofList ('a' :: letters), ⟨hne (by decide), hne (by decide), hne (by decide), ?_⟩, ?_⟩
  · rw [String.toList_ofList, List.mem_cons, not_or]
    exact ⟨by decide, fun hmem => absurd (List.eq_of_mem_replicate hmem) (by decide)⟩
  · -- It is longer than all of them together.
    intro hmem
    have hle := List.le_sum_of_mem (List.mem_map_of_mem (f := String.length) hmem)
    simp only [String.length_ofList, List.length_cons, letters, List.length_replicate] at hle
    exact Nat.not_succ_le_self _ hle

/-- Paths in normal form that lead to the same places are one. In a directory of one name, which is new to both of them, the names that are
left are counted: their number tells the steps up, and none is left by a path from the root. -/
theorem IsNormal.unique {p q : Path} (hp : p.IsNormal) (hq : q.IsNormal)
    (h : ∀ directory : List String, (∀ name ∈ directory, IsName name) → p.placeFrom directory = q.placeFrom directory) : p = q := by
  obtain ⟨absolute, steps⟩ := p
  obtain ⟨absolute', steps'⟩ := q
  obtain ⟨ups, names, rfl, hroot, -⟩ := hp
  obtain ⟨ups', names', rfl, hroot', -⟩ := hq
  obtain ⟨name, hname, hnew⟩ := exists_isName_notMem (names ++ names')
  rw [List.mem_append, not_or] at hnew
  have hplace := h (List.replicate (ups + ups' + 1) name) (fun other hother => List.eq_of_mem_replicate hother ▸ hname)
  rw [placeFrom_eq rfl, placeFrom_eq rfl] at hplace
  have hcount := congrArg (List.count name) hplace
  rw [List.count_append, List.count_append, List.count_eq_zero_of_not_mem hnew.1, List.count_eq_zero_of_not_mem hnew.2] at hcount
  cases absolute with
  | true =>
    cases absolute' with
    | true =>
      obtain rfl : ups = 0 := hroot rfl
      obtain rfl : ups' = 0 := hroot' rfl
      obtain rfl : names = names' := by simpa using hplace
      rfl
    | false =>
      simp at hcount
      omega
  | false =>
    cases absolute' with
    | true =>
      simp at hcount
      omega
    | false =>
      simp only [Bool.false_eq_true, if_false, List.take_replicate, List.length_replicate, List.count_replicate_self] at hcount hplace
      obtain rfl : ups = ups' := by omega
      rw [List.append_cancel_left hplace]

/-! ## File names -/

/-- What a file name is, and what it tells of its path. -/
structure NamesFile (path name : String) : Prop where
  /-- A file name is its own file name. -/
  again : fileName name = name
  /-- It is made of marks for the parent and then of names, with one slash between two of them. One that begins with a slash has none of the
  marks. -/
  form : ∃ (absolute : Bool) (ups : Nat) (names : List String), (absolute = true → ups = 0) ∧ (∀ name ∈ names, IsName name) ∧
    name = (if absolute then "/" else "") ++ String.intercalate "/" (List.replicate ups ".." ++ names)
  /-- It leads where the path leads. -/
  resolve : ∀ directory, resolve directory name = Path.resolve directory path

theorem namesFile (path : String) : NamesFile path (fileName path) := by
  have hnormal := isNormal_normalize path
  have htext : ofText (fileName path) = (ofText path).normalize := hnormal.ofText_toText
  refine ⟨?_, ?_, fun directory => ?_⟩
  · rw [fileName, htext, hnormal.normalize_eq]
    rfl
  · obtain ⟨ups, names, hsteps, hroot, hnames⟩ := hnormal
    refine ⟨_, ups, names, hroot, hnames, ?_⟩
    rw [fileName, toText, hsteps, List.map_append, List.map_replicate, List.map_map]
    congr
    exact List.map_id names
  · rw [resolve_eq, resolve_eq, htext, placeFrom_normalize]

/-- File names are a complete normal form of paths: a path's name is in normal form and leads where the path leads, and two paths have one
name exactly if they lead to the same places, be it from any list of names or only from those that can stand in directories. -/
theorem fileName_complete :
    (∀ path, NamesFile path (fileName path)) ∧
    ∀ p q, [fileName p = fileName q, ∀ directory, resolve directory p = resolve directory q,
      ∀ directory : List String, (∀ name ∈ directory, IsName name) → resolve directory p = resolve directory q].TFAE := by
  refine ⟨namesFile, fun p q => ?_⟩
  tfae_have 1 → 2 := by
    intro h directory
    rw [← (namesFile p).resolve, h, (namesFile q).resolve]
  tfae_have 2 → 3 := fun h directory _ => h directory
  tfae_have 3 → 1 := by
    intro h
    refine congrArg toText ((isNormal_normalize p).unique (isNormal_normalize q) (fun directory hdirectory => ?_))
    rw [placeFrom_normalize, placeFrom_normalize, ← resolve_eq, ← resolve_eq]
    exact h directory hdirectory
  tfae_finish

end Path

end Courier
