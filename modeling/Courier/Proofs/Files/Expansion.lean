import Courier.Command
import Courier.Proofs.Files.Paths
import Courier.Proofs.Files.Verdicts
import Mathlib.Data.List.Nodup
import Mathlib.Data.String.Basic

/-!
# The sources below a directory

A directory among the arguments stands for the sources below it. The names that lead from a directory to an entry below it are its path
there (`DiskEntry.Leads`). The walk over a tree finds the files by these paths, each once, since the names in a directory are distinct
(`DiskEntry.Regular.exists_sourcesAt`). It finds them in the order of the listings, but a list without repetitions can be sorted in one way
only, so what is made of it does not depend on that order (`Disk.collects`).
-/

namespace Courier

namespace DiskEntry

/-- What holds of files, of directories that cannot be listed, and of a directory if it holds of what is in it, holds of every entry. -/
theorem induction {P : DiskEntry → Prop} (file : ∀ content, P (.file content)) (closed : ∀ fault, P (.closed fault))
    (directory : ∀ entries, (∀ name entry, (name, entry) ∈ entries → P entry) → P (.directory entries)) : ∀ e, P e
  | .file content => file content
  | .closed fault => closed fault
  | .directory entries => directory entries (fun name entry hmem =>
      have : sizeOf entry < sizeOf entries := by
        have hlt := List.sizeOf_lt_of_mem hmem
        simp only [Prod.mk.sizeOf_spec] at hlt
        omega
      induction file closed directory entry)

/-- Some names lead from an entry to one at or below it. -/
inductive Leads : DiskEntry → List String → DiskEntry → Prop where
  | here {e : DiskEntry} : Leads e [] e
  | into {name : String} {names : List String} {entries : List (String × DiskEntry)} {entry e : DiskEntry}
      (hentry : (name, entry) ∈ entries) (h : Leads entry names e) : Leads (.directory entries) (name :: names) e

/-- The directories of a tree can be listed, and what is in one has names that are distinct. -/
structure Regular (e : DiskEntry) : Prop where
  listed : ∀ names fault, ¬e.Leads names (.closed fault)
  nodup : ∀ names entries, e.Leads names (.directory entries) → (entries.map Prod.fst).Nodup
  isName : ∀ names entries, e.Leads names (.directory entries) → ∀ name ∈ entries.map Prod.fst, Path.IsName name

/-- The directories of the tree at a path can be read: they are regular, and their paths are not too long for the system. -/
structure Readable (path : String) (e : DiskEntry) : Prop extends e.Regular where
  reached : ∀ names entries, e.Leads names (.directory entries) → Text.byteLength (joinNames path names).toList ≤ maxPathLength

section

variable {e d entry : DiskEntry} {name path : String} {names : List String} {entries rest : List (String × DiskEntry)}
  {content : Except ReadFault String}

/-! ## Leading below -/

theorem leads_nil_iff : e.Leads [] d ↔ d = e := by
  constructor
  · intro h
    cases h
    rfl
  · rintro rfl
    exact .here

theorem leads_cons_iff :
    (directory entries).Leads (name :: names) d ↔ ∃ entry, (name, entry) ∈ entries ∧ entry.Leads names d := by
  constructor
  · intro h
    cases h with
    | into hentry h => exact ⟨_, hentry, h⟩
  · rintro ⟨entry, hentry, h⟩
    exact .into hentry h

/-- A file that is led to from a directory is led to from its first entry or from the others. -/
theorem leads_file_iff : (directory ((name, entry) :: rest)).Leads names (.file content) ↔
    (∃ below, names = name :: below ∧ entry.Leads below (.file content)) ∨ (directory rest).Leads names (.file content) := by
  cases names with
  | nil => simp [leads_nil_iff]
  | cons first below =>
    simp only [leads_cons_iff, List.mem_cons, Prod.mk.injEq, or_and_right, exists_or, List.cons.injEq]
    constructor
    · rintro (⟨d, ⟨rfl, rfl⟩, h⟩ | h)
      · exact .inl ⟨below, ⟨rfl, rfl⟩, h⟩
      · exact .inr h
    · rintro (⟨below, ⟨rfl, rfl⟩, h⟩ | h)
      · exact .inl ⟨entry, ⟨rfl, rfl⟩, h⟩
      · exact .inr h

theorem Regular.inside (h : (directory entries).Regular) (hentry : (name, entry) ∈ entries) : entry.Regular :=
  ⟨fun names fault hleads => h.listed (name :: names) fault (.into hentry hleads),
    fun names list hleads => h.nodup (name :: names) list (.into hentry hleads),
    fun names list hleads => h.isName (name :: names) list (.into hentry hleads)⟩

/-- What is regular is regular without its first entry. -/
theorem Regular.tail (h : (directory ((name, entry) :: rest)).Regular) : (directory rest).Regular := by
  have hlift : ∀ {first : String} {below : List String} {d : DiskEntry}, (directory rest).Leads (first :: below) d →
      (directory ((name, entry) :: rest)).Leads (first :: below) d := by
    intro first below d hleads
    obtain ⟨e, he, hleads⟩ := leads_cons_iff.1 hleads
    exact .into (List.mem_cons_of_mem _ he) hleads
  refine ⟨fun names fault hleads => ?_, fun names list hleads => ?_, fun names list hleads => ?_⟩
  · cases names with
    | nil => nomatch leads_nil_iff.1 hleads
    | cons first below => exact h.listed _ fault (hlift hleads)
  · cases names with
    | nil =>
      obtain rfl := directory.inj (leads_nil_iff.1 hleads)
      exact (List.nodup_cons.1 (h.nodup [] _ .here)).2
    | cons first below => exact h.nodup _ list (hlift hleads)
  · cases names with
    | nil =>
      obtain rfl := directory.inj (leads_nil_iff.1 hleads)
      exact fun other hother => h.isName [] _ .here other (List.mem_cons_of_mem name hother)
    | cons first below => exact h.isName _ list (hlift hleads)

/-! ## The walk -/

/-- The last of some names is that of a source: a stem with the extension behind it. -/
def EndsInSource (names : List String) : Prop :=
  ∃ stem, stem ≠ "" ∧ names.getLast? = some (stem ++ ".cour")

theorem isSourceName_iff : isSourceName name = true ↔ ∃ stem, stem ≠ "" ∧ name = stem ++ ".cour" := by
  have hextension : sourceExtension = ".cour".toList := rfl
  unfold isSourceName
  rw [Bool.and_eq_true, List.isSuffixOf_iff_suffix, decide_eq_true_iff, hextension]
  constructor
  · rintro ⟨⟨stem, hstem⟩, hlength⟩
    refine ⟨String.ofList stem, ?_, ?_⟩
    · intro hempty
      have hnil : stem = [] := by simpa using congrArg String.toList hempty
      rw [← hstem, hnil] at hlength
      exact Nat.lt_irrefl _ hlength
    · rw [← String.toList_inj, String.toList_append, String.toList_ofList, hstem]
  · rintro ⟨stem, hne, rfl⟩
    rw [String.toList_append]
    refine ⟨List.suffix_append _ _, ?_⟩
    rw [List.length_append]
    have hpos : 0 < stem.toList.length := List.length_pos_iff.2 (fun hnil => hne (String.toList_eq_nil_iff.1 hnil))
    omega

theorem endsInSource_iff : EndsInSource names ↔ (names.getLast?.map isSourceName).getD false = true := by
  unfold EndsInSource
  cases names.getLast? with
  | none => simp
  | some last =>
    simp only [Option.some.injEq, Option.map_some, Option.getD_some, isSourceName_iff]

/-- What a walk finds below some names: the files that are sources, each once. -/
structure Finds (above : List String) (e : DiskEntry) (found : List Below) : Prop where
  nodup : (found.map Prod.fst).Nodup
  mem_iff : ∀ names content, (names, content) ∈ found ↔
    ∃ below, names = above ++ below ∧ e.Leads below (.file content) ∧ EndsInSource names

/-- What is found in the first entry of a directory, and behind that what is found in the others, is what is found in it. -/
theorem Finds.cons {above : List String} {here others : List Below} (hhere : Finds (above ++ [name]) entry here)
    (hothers : Finds above (directory rest) others) (hnew : name ∉ rest.map Prod.fst) :
    Finds above (directory ((name, entry) :: rest)) (here ++ others) := by
  refine ⟨?_, fun names content => ?_⟩
  · rw [List.map_append]
    refine List.nodup_append'.2 ⟨hhere.nodup, hothers.nodup, List.disjoint_left.2 (fun names hmem hmem' => ?_)⟩
    obtain ⟨⟨_, content⟩, hb, rfl⟩ := List.mem_map.1 hmem
    obtain ⟨⟨_, content'⟩, hb', heq⟩ := List.mem_map.1 hmem'
    obtain ⟨below, hnames, -⟩ := (hhere.mem_iff _ _).1 hb
    obtain ⟨below', hnames', hleads, -⟩ := (hothers.mem_iff _ _).1 hb'
    cases below' with
    | nil => nomatch leads_nil_iff.1 hleads
    | cons first below' =>
      obtain ⟨e, he, -⟩ := leads_cons_iff.1 hleads
      dsimp only at heq
      rw [hnames', hnames, List.append_assoc] at heq
      obtain ⟨rfl, -⟩ := List.cons.inj (List.append_cancel_left heq)
      exact hnew (List.mem_map_of_mem he)
  · rw [List.mem_append, hhere.mem_iff, hothers.mem_iff]
    simp only [leads_file_iff]
    constructor
    · rintro (⟨below, rfl, hleads, hsource⟩ | ⟨below, rfl, hleads, hsource⟩)
      · exact ⟨name :: below, List.append_assoc _ _ _, .inl ⟨below, rfl, hleads⟩, hsource⟩
      · exact ⟨below, rfl, .inr hleads, hsource⟩
    · rintro ⟨below, rfl, (⟨below, rfl, hleads⟩ | hleads), hsource⟩
      · exact .inl ⟨below, (List.append_assoc _ [name] below).symm, hleads, hsource⟩
      · exact .inr ⟨below, rfl, hleads, hsource⟩

theorem file_leads_iff {held : Except ReadFault String} : (file held).Leads names (.file content) ↔ names = [] ∧ content = held := by
  constructor
  · intro h
    cases h
    exact ⟨rfl, rfl⟩
  · rintro ⟨rfl, rfl⟩
    exact .here

/-- A file is found if its own name is that of a source. -/
theorem exists_sourcesAt_file (held : Except ReadFault String) (above : List String) :
    ∃ found, sourcesAt above (file held) = .ok found ∧ Finds above (file held) found := by
  refine ⟨_, by rw [sourcesAt], ?_⟩
  split
  · rename_i hsource
    refine ⟨List.nodup_singleton _, fun names content => ?_⟩
    simp only [List.mem_singleton, Prod.mk.injEq, file_leads_iff, endsInSource_iff]
    constructor
    · rintro ⟨rfl, rfl⟩
      exact ⟨[], (List.append_nil _).symm, ⟨rfl, rfl⟩, hsource⟩
    · rintro ⟨below, rfl, ⟨rfl, rfl⟩, -⟩
      exact ⟨List.append_nil _, rfl⟩
  · rename_i hsource
    refine ⟨List.nodup_nil, fun names content => ?_⟩
    simp only [List.not_mem_nil, false_iff, file_leads_iff, endsInSource_iff]
    rintro ⟨below, rfl, ⟨rfl, rfl⟩, hnot⟩
    rw [List.append_nil] at hnot
    exact hsource hnot

/-- What is found in a directory is what is found at its entries, if each of them is walked over. -/
theorem Regular.exists_sourcesIn (above : List String) : ∀ {list : List (String × DiskEntry)}, (directory list).Regular →
    (∀ name entry, (name, entry) ∈ list → entry.Regular → ∀ above, ∃ found, sourcesAt above entry = .ok found ∧ Finds above entry found) →
    ∃ found, sourcesIn above list = .ok found ∧ Finds above (directory list) found := by
  intro list
  induction list with
  | nil =>
    intro _ _
    refine ⟨[], by rw [sourcesIn], List.nodup_nil, fun names content => ?_⟩
    simp only [List.not_mem_nil, false_iff]
    rintro ⟨below, -, hleads, -⟩
    cases hleads with
    | into hentry => nomatch hentry
  | cons p list ih =>
    obtain ⟨name, entry⟩ := p
    intro hregular hwalks
    have hentry := hregular.inside List.mem_cons_self
    obtain ⟨here, hhere, hfinds⟩ := hwalks name entry List.mem_cons_self hentry (above ++ [name])
    obtain ⟨others, hothers, hfinds'⟩ := ih hregular.tail (fun name entry hmem => hwalks name entry (List.mem_cons_of_mem _ hmem))
    refine ⟨here ++ others, ?_, hfinds.cons hfinds' (List.nodup_cons.1 (hregular.nodup [] _ .here)).1⟩
    rw [sourcesIn, hhere, hothers]
    rfl

/-- The walk over a regular tree finds its sources: by induction on the tree. -/
theorem Regular.exists_sourcesAt : ∀ {e : DiskEntry}, e.Regular → ∀ above, ∃ found, sourcesAt above e = .ok found ∧ Finds above e found := by
  intro e
  induction e using DiskEntry.induction with
  | file held => exact fun _ above => exists_sourcesAt_file held above
  | closed fault => exact fun h => absurd .here (h.listed [] fault)
  | directory entries ih =>
    intro h above
    rw [sourcesAt]
    exact h.exists_sourcesIn above ih

/-! ## What shows at a path -/

/-- The text of a file as it shows at a path: none if the path is too long for the system. -/
def textAt (path : String) (held : Except ReadFault String) : Except ReadFault String :=
  if maxPathLength < Text.byteLength path.toList then .error .nameTooLong else held

/-- An entry as it shows at its own path. -/
def shownAt (path : String) (e : DiskEntry) : DiskEntry :=
  if maxPathLength < Text.byteLength path.toList then .file (.error .nameTooLong) else e.seenAt path

theorem joinNames_nil (path : String) : joinNames path [] = path := by
  simp [joinNames]

/-- The text of a path that names are joined to: it ends with a slash. -/
def stemOf (path : String) : String :=
  if path.toList.getLast? = some '/' then path else path ++ "/"

theorem joinNames_of_ne_nil (path : String) (h : names ≠ []) : joinNames path names = stemOf path ++ String.intercalate "/" names := by
  have hsome : names.isEmpty = false := List.isEmpty_eq_false_iff.2 h
  rw [joinNames, hsome, stemOf]
  simp only [Bool.false_or, decide_eq_true_eq]
  split <;> rfl

/-- Behind a path with a name, more names are joined as behind the path they are joined to with that name. -/
theorem joinNames_cons (path : String) (h : Path.IsName name) (names : List String) :
    joinNames (joinNames path [name]) names = joinNames path (name :: names) := by
  obtain ⟨hne, -, -, hslash⟩ := h
  have hstem : ∀ front : String, stemOf (front ++ name) = front ++ name ++ "/" := by
    intro front
    refine if_neg (fun hlast => ?_)
    rw [String.toList_append, List.getLast?_append_of_ne_nil _ (fun hnil => hne (String.toList_eq_nil_iff.1 hnil))] at hlast
    exact hslash (List.mem_of_getLast? hlast)
  cases names with
  | nil => exact joinNames_nil _
  | cons other names =>
    rw [joinNames_of_ne_nil _ (List.cons_ne_nil other names), joinNames_of_ne_nil _ (List.cons_ne_nil name []),
      joinNames_of_ne_nil _ (List.cons_ne_nil name _), String.intercalate_singleton, hstem, String.intercalate_cons_cons]
    simp only [String.append_assoc]

theorem entriesSeenAt_eq (path : String) (entries : List (String × DiskEntry)) :
    entriesSeenAt path entries = entries.map (fun p => (p.1, p.2.shownAt (joinNames path [p.1]))) := by
  induction entries with
  | nil => rw [entriesSeenAt]; rfl
  | cons p entries ih =>
    obtain ⟨name, entry⟩ := p
    rw [entriesSeenAt, ih]
    rfl

/-- A file shows as its text does. -/
theorem shownAt_file (path : String) (held : Except ReadFault String) : (file held).shownAt path = .file (textAt path held) := by
  rw [shownAt, textAt, seenAt]
  · split <;> rfl
  · exact fun _ => DiskEntry.noConfusion

theorem shownAt_directory (h : Text.byteLength path.toList ≤ maxPathLength) :
    (directory entries).shownAt path = .directory (entries.map (fun p => (p.1, p.2.shownAt (joinNames path [p.1])))) := by
  rw [shownAt, if_neg (Nat.not_lt_of_le h), seenAt, entriesSeenAt_eq]

/-- What is led to in what shows is what shows of something that is led to. -/
theorem Regular.exists_of_leads_shownAt (h : e.Regular) (hleads : (e.shownAt path).Leads names d) :
    ∃ d', e.Leads names d' ∧ d = d'.shownAt (joinNames path names) := by
  induction names generalizing e path with
  | nil => exact ⟨e, .here, by rw [joinNames_nil, leads_nil_iff.1 hleads]⟩
  | cons name names ih =>
    by_cases hlong : maxPathLength < Text.byteLength path.toList
    · rw [shownAt, if_pos hlong] at hleads
      nomatch hleads
    · cases e with
      | file held =>
        rw [shownAt_file] at hleads
        nomatch hleads
      | closed fault => exact absurd .here (h.listed [] fault)
      | directory entries =>
        rw [shownAt_directory (Nat.le_of_not_lt hlong)] at hleads
        obtain ⟨shown, hmem, hleads⟩ := leads_cons_iff.1 hleads
        obtain ⟨⟨other, entry⟩, hentry, heq⟩ := List.mem_map.1 hmem
        obtain ⟨rfl, rfl⟩ := Prod.mk.inj heq
        obtain ⟨d', hd', rfl⟩ := ih (h.inside hentry) hleads
        have hname := h.isName [] entries .here other (List.mem_map_of_mem hentry)
        exact ⟨d', .into hentry hd', by rw [joinNames_cons path hname]⟩

theorem Readable.inside (h : (directory entries).Readable path) (hentry : (name, entry) ∈ entries) :
    entry.Readable (joinNames path [name]) := by
  refine ⟨h.toRegular.inside hentry, fun names list hleads => ?_⟩
  have hname := h.isName [] entries .here name (List.mem_map_of_mem hentry)
  rw [joinNames_cons path hname]
  exact h.reached _ list (.into hentry hleads)

/-- What is led to shows, where all directories can be reached. -/
theorem Readable.leads_shownAt (h : e.Readable path) (hleads : e.Leads names d) :
    (e.shownAt path).Leads names (d.shownAt (joinNames path names)) := by
  induction hleads generalizing path with
  | here =>
    rw [joinNames_nil]
    exact .here
  | @into name names entries entry d hentry _ ih =>
    have hshort := h.reached [] entries .here
    rw [joinNames_nil] at hshort
    rw [shownAt_directory hshort, ← joinNames_cons path (h.isName [] entries .here name (List.mem_map_of_mem hentry))]
    exact .into (List.mem_map_of_mem (f := fun p => (p.1, shownAt (joinNames path [p.1]) p.2)) hentry) (ih (h.inside hentry))

/-- The files that show are those that are there. -/
theorem Readable.leads_shownAt_iff (h : e.Readable path) :
    (e.shownAt path).Leads names (.file content) ↔ ∃ held, e.Leads names (.file held) ∧ content = textAt (joinNames path names) held := by
  constructor
  · intro hleads
    obtain ⟨d, hd, heq⟩ := h.toRegular.exists_of_leads_shownAt hleads
    cases d with
    | file held =>
      rw [shownAt_file] at heq
      exact ⟨held, hd, file.inj heq⟩
    | closed fault => exact absurd hd (h.listed names fault)
    | directory list =>
      rw [shownAt_directory (h.reached names list hd)] at heq
      nomatch heq
  · rintro ⟨held, hheld, rfl⟩
    rw [← shownAt_file]
    exact h.leads_shownAt hheld

/-- What shows of a tree that can be read is regular. -/
theorem Readable.regular_shownAt (h : e.Readable path) : (e.shownAt path).Regular := by
  have hdirectory : ∀ names list, (e.shownAt path).Leads names (.directory list) →
      ∃ held, e.Leads names (.directory held) ∧ list.map Prod.fst = held.map Prod.fst := by
    intro names list hleads
    obtain ⟨d, hd, heq⟩ := h.toRegular.exists_of_leads_shownAt hleads
    cases d with
    | file held =>
      rw [shownAt_file] at heq
      nomatch heq
    | closed fault => exact absurd hd (h.listed names fault)
    | directory held =>
      rw [shownAt_directory (h.reached names held hd)] at heq
      obtain rfl := directory.inj heq
      exact ⟨held, hd, by rw [List.map_map]; rfl⟩
  refine ⟨fun names fault hleads => ?_, fun names list hleads => ?_, fun names list hleads => ?_⟩
  · obtain ⟨d, hd, heq⟩ := h.toRegular.exists_of_leads_shownAt hleads
    cases d with
    | file held =>
      rw [shownAt_file] at heq
      nomatch heq
    | closed fault => exact h.listed names fault hd
    | directory held =>
      rw [shownAt_directory (h.reached names held hd)] at heq
      nomatch heq
  · obtain ⟨held, hd, heq⟩ := hdirectory names list hleads
    exact heq ▸ h.nodup names held hd
  · obtain ⟨held, hd, heq⟩ := hdirectory names list hleads
    exact heq ▸ h.isName names held hd

/-! ## The order of paths -/

theorem namesLe_trans : ∀ a b c : List String, namesLe a b = true → namesLe b c = true → namesLe a c = true
  | [], _, _, _, _ => by rw [namesLe]
  | _ :: _, [], _, hab, _ => by rw [namesLe] at hab; nomatch hab
  | _ :: _, _ :: _, [], _, hbc => by rw [namesLe] at hbc; nomatch hbc
  | a :: as, b :: bs, c :: cs, hab, hbc => by
    rw [namesLe] at hab hbc ⊢
    by_cases hab' : a = b
    · subst hab'
      rw [if_pos rfl] at hab
      split
      · rename_i hac
        subst hac
        rw [if_pos rfl] at hbc
        exact namesLe_trans as bs cs hab hbc
      · rename_i hac
        rwa [if_neg hac] at hbc
    · rw [if_neg hab', decide_eq_true_iff] at hab
      by_cases hbc' : b = c
      · subst hbc'
        rw [if_neg hab', decide_eq_true_iff]
        exact hab
      · rw [if_neg hbc', decide_eq_true_iff] at hbc
        have hac := String.lt_trans hab hbc
        rw [if_neg (fun heq => String.lt_irrefl a (by rwa [← heq] at hac)), decide_eq_true_iff]
        exact hac

theorem namesLe_total : ∀ a b : List String, (namesLe a b || namesLe b a) = true
  | [], _ => by rw [namesLe]; rfl
  | _ :: _, [] => by rw [namesLe, namesLe]; rfl
  | a :: as, b :: bs => by
    rw [namesLe, namesLe]
    by_cases hab : a = b
    · subst hab
      rw [if_pos rfl, if_pos rfl]
      exact namesLe_total as bs
    · rw [if_neg hab, if_neg (Ne.symm hab), Bool.or_eq_true, decide_eq_true_iff, decide_eq_true_iff]
      exact lt_or_gt_of_ne hab

/-- Names that come before others are those, or are before them in the lexicographic order. -/
theorem lex_of_namesLe : ∀ {a b : List String}, namesLe a b = true → a ≠ b → List.Lex (· < ·) a b
  | [], [], _, hne => absurd rfl hne
  | [], _ :: _, _, _ => .nil
  | _ :: _, [], h, _ => by rw [namesLe] at h; nomatch h
  | a :: as, b :: bs, h, hne => by
    rw [namesLe] at h
    split at h
    · rename_i hab
      subst hab
      exact .cons (lex_of_namesLe h (fun heq => hne (by rw [heq])))
    · exact .rel (of_decide_eq_true h)

/-- What was found, in the order of paths. -/
def sorted (found : List Below) : List Below :=
  found.mergeSort (fun a b => namesLe a.1 b.1)

theorem pairwise_sorted {found : List Below} (h : (found.map Prod.fst).Nodup) :
    ((sorted found).map Prod.fst).Pairwise (List.Lex (· < ·)) := by
  have hle : ((sorted found).map Prod.fst).Pairwise (fun a b => namesLe a b = true) := by
    rw [List.pairwise_map]
    exact List.pairwise_mergeSort (fun a b c => namesLe_trans a.1 b.1 c.1) (fun a b => namesLe_total a.1 b.1) found
  have hne : ((sorted found).map Prod.fst).Nodup := ((List.mergeSort_perm found _).map Prod.fst).nodup_iff.2 h
  exact (hle.and hne).imp (fun ⟨hab, hne⟩ => lex_of_namesLe hab hne)

/-- There is one way to sort what was found. -/
theorem sorted_eq {found found' : List Below} (h : (found.map Prod.fst).Nodup) (h' : (found'.map Prod.fst).Nodup)
    (hmem : ∀ b, b ∈ found ↔ b ∈ found') : sorted found = sorted found' := by
  have hperm : found.Perm found' := (List.perm_ext_iff_of_nodup (.of_map _ h) (.of_map _ h')).2 hmem
  have hantisymm : ∀ a b : Below, List.Lex (· < ·) a.1 b.1 → List.Lex (· < ·) b.1 a.1 → a = b :=
    fun _ _ hab hba => absurd hba (asymm_of (List.Lex (· < ·)) hab)
  refine List.Perm.eq_of_pairwise (fun a b _ _ => hantisymm a b) (List.pairwise_map.1 (pairwise_sorted h))
    (List.pairwise_map.1 (pairwise_sorted h')) ?_
  exact (List.mergeSort_perm found _).trans (hperm.trans (List.mergeSort_perm found' _).symm)

/-! ## Other orders of the listings -/

/-- One tree is another with the entries of its directories in another order. -/
inductive Reordered : DiskEntry → DiskEntry → Prop where
  | file {content : Except ReadFault String} : Reordered (.file content) (.file content)
  | empty : Reordered (.directory []) (.directory [])
  /-- The first entry of a directory may come anywhere. -/
  | insert {name : String} {entry entry' : DiskEntry} {rest before after : List (String × DiskEntry)} (hentry : Reordered entry entry')
      (h : Reordered (.directory rest) (.directory (before ++ after))) :
      Reordered (.directory ((name, entry) :: rest)) (.directory (before ++ (name, entry') :: after))

theorem Reordered.perm_names {e' : DiskEntry} (h : e.Reordered e') :
    ∀ list list', e = .directory list → e' = .directory list' → (list.map Prod.fst).Perm (list'.map Prod.fst) := by
  induction h with
  | file => exact fun _ _ h => nomatch h
  | empty =>
    rintro list list' h h'
    obtain rfl := directory.inj h
    obtain rfl := directory.inj h'
    exact .refl _
  | @insert name entry entry' rest before after _ _ _ ih =>
    rintro list list' h h'
    obtain rfl := directory.inj h
    obtain rfl := directory.inj h'
    have hperm := ih rest (before ++ after) rfl rfl
    rw [List.map_append] at hperm ⊢
    exact (hperm.cons name).trans List.perm_middle.symm

/-- In a tree in another order, the same names lead to what is in another order. -/
theorem Reordered.exists_of_leads {e' d' : DiskEntry} (h : e.Reordered e') (hleads : e'.Leads names d') :
    ∃ d, e.Leads names d ∧ d.Reordered d' := by
  induction h generalizing names with
  | file =>
    cases hleads
    exact ⟨_, .here, .file⟩
  | empty =>
    cases hleads with
    | here => exact ⟨_, .here, .empty⟩
    | into hentry => nomatch hentry
  | @insert name entry entry' rest before after hentry hrest ih ihrest =>
    cases names with
    | nil =>
      obtain rfl := leads_nil_iff.1 hleads
      exact ⟨_, .here, .insert hentry hrest⟩
    | cons first below =>
      obtain ⟨x, hx, hbelow⟩ := leads_cons_iff.1 hleads
      rw [List.mem_append, List.mem_cons, or_left_comm, ← List.mem_append] at hx
      rcases hx with hx | hx
      · obtain ⟨rfl, rfl⟩ := Prod.mk.inj hx
        obtain ⟨d, hd, hreordered⟩ := ih hbelow
        exact ⟨d, .into List.mem_cons_self hd, hreordered⟩
      · obtain ⟨d, hd, hreordered⟩ := ihrest (.into hx hbelow)
        obtain ⟨y, hy, hd⟩ := leads_cons_iff.1 hd
        exact ⟨d, .into (List.mem_cons_of_mem _ hy) hd, hreordered⟩

/-- The same names lead to the same files. -/
theorem Reordered.leads_file_iff {e' : DiskEntry} (h : e.Reordered e') :
    e.Leads names (.file content) ↔ e'.Leads names (.file content) := by
  constructor
  · intro hleads
    induction h generalizing names with
    | file => exact hleads
    | empty => exact hleads
    | insert _ _ ih ihrest =>
      rcases DiskEntry.leads_file_iff.1 hleads with ⟨below, rfl, hbelow⟩ | hrest
      · exact .into (List.mem_append_right _ List.mem_cons_self) (ih hbelow)
      · cases ihrest hrest with
        | into hentry hbelow =>
          refine .into ?_ hbelow
          rw [List.mem_append] at hentry ⊢
          exact hentry.imp_right (List.mem_cons_of_mem _)
  · intro hleads
    obtain ⟨d, hd, hreordered⟩ := h.exists_of_leads hleads
    cases hreordered
    exact hd

theorem Reordered.readable {e' : DiskEntry} (h : e.Reordered e') (hreadable : e.Readable path) : e'.Readable path := by
  have hdirectory : ∀ names list', e'.Leads names (.directory list') →
      ∃ list, e.Leads names (.directory list) ∧ (list.map Prod.fst).Perm (list'.map Prod.fst) := by
    intro names list' hleads
    obtain ⟨d, hd, hreordered⟩ := h.exists_of_leads hleads
    cases d with
    | file held => nomatch hreordered
    | closed fault => nomatch hreordered
    | directory list => exact ⟨list, hd, hreordered.perm_names list list' rfl rfl⟩
  refine ⟨⟨fun names fault hleads => ?_, fun names list' hleads => ?_, fun names list' hleads name hname => ?_⟩, fun names list' hleads => ?_⟩
  · obtain ⟨d, hd, hreordered⟩ := h.exists_of_leads hleads
    nomatch hreordered
  · obtain ⟨list, hlist, hperm⟩ := hdirectory names list' hleads
    exact hperm.nodup_iff.1 (hreadable.nodup names list hlist)
  · obtain ⟨list, hlist, hperm⟩ := hdirectory names list' hleads
    exact hreadable.isName names list hlist name (hperm.mem_iff.2 hname)
  · obtain ⟨list, hlist, -⟩ := hdirectory names list' hleads
    exact hreadable.reached names list hlist

/-! ## Arguments -/

theorem joinNames_inj {names' : List String} (h : names ≠ []) (h' : names' ≠ []) (hnames : ∀ name ∈ names, Path.IsName name)
    (hnames' : ∀ name ∈ names', Path.IsName name) (heq : joinNames path names = joinNames path names') : names = names' := by
  rw [joinNames_of_ne_nil path h, joinNames_of_ne_nil path h', String.append_right_inj] at heq
  have hsplit : ∀ {list : List String}, list ≠ [] → (∀ name ∈ list, Path.IsName name) →
      (String.intercalate "/" list).toList.splitOn '/' = list.map String.toList := by
    intro list hne hlist
    rw [String.toList_intercalate]
    refine List.splitOn_intercalate '/' (fun piece hpiece => ?_) (by simpa using hne)
    obtain ⟨name, hname, rfl⟩ := List.mem_map.1 hpiece
    exact (hlist name hname).2.2.2
  have hpieces := hsplit h hnames
  rw [heq, hsplit h' hnames'] at hpieces
  exact (List.map_injective_iff.2 (fun _ _ => String.toList_inj.1) hpieces).symm

/-- What leads somewhere in a regular tree are names. -/
theorem Regular.isName_of_leads (h : e.Regular) (hleads : e.Leads names d) : ∀ name ∈ names, Path.IsName name := by
  induction hleads with
  | here => exact fun _ hname => nomatch hname
  | into hentry _ ih =>
    intro other hother
    rcases List.mem_cons.1 hother with rfl | hother
    · exact h.isName [] _ .here _ (List.mem_map_of_mem hentry)
    · exact ih (h.inside hentry) other hother

/-- The sources that a path argument stands for, by what lies there: the path itself if that is no directory, whether there is something or
not; else the files at any depth below it whose last name is that of a source, each once, in the order of the names that lead to them. -/
inductive Expands (path : String) : Except ReadFault DiskEntry → List Source → Prop where
  | nothing {fault : ReadFault} : Expands path (.error fault) [(path, .error fault)]
  | file {content : Except ReadFault String} : Expands path (.ok (.file content)) [(path, content)]
  | directory {entries : List (String × DiskEntry)} {below : List Below}
      (hmem : ∀ names content, (names, content) ∈ below ↔ ∃ held, (DiskEntry.directory entries).Leads names (.file held) ∧
        EndsInSource names ∧ content = textAt (joinNames path names) held)
      (hsorted : (below.map Prod.fst).Pairwise (List.Lex (· < ·))) (honce : (below.map (fun b => joinNames path b.1)).Nodup) :
      Expands path (.ok (.directory entries)) (below.map (fun b => (joinNames path b.1, b.2)))

/-- A directory that can be read is expanded to what a walk finds in it, sorted. -/
theorem Readable.exists_expand (h : (directory entries).Readable path) : ∃ found : List Below,
    expand path (.ok (.directory entries)) = .ok ((sorted found).map (fun b => (joinNames path b.1, b.2))) ∧
    (found.map Prod.fst).Nodup ∧
    ∀ names content, (names, content) ∈ found ↔ ∃ held, (directory entries).Leads names (.file held) ∧ EndsInSource names ∧
      content = textAt (joinNames path names) held := by
  have hshort := h.reached [] entries .here
  rw [joinNames_nil] at hshort
  have hshown : (directory entries).seenAt path = (directory entries).shownAt path := (if_neg (Nat.not_lt_of_le hshort)).symm
  obtain ⟨found, hfound, hfinds⟩ := h.regular_shownAt.exists_sourcesAt []
  refine ⟨found, ?_, hfinds.nodup, fun names content => ?_⟩
  · unfold expand
    simp only [hshown, hfound]
    rfl
  · rw [hfinds.mem_iff]
    simp only [List.nil_append, h.leads_shownAt_iff]
    constructor
    · rintro ⟨_, rfl, ⟨held, hheld, hcontent⟩, hsource⟩
      exact ⟨held, hheld, hsource, hcontent⟩
    · rintro ⟨held, hheld, hsource, hcontent⟩
      exact ⟨names, rfl, ⟨held, hheld, hcontent⟩, hsource⟩

theorem exists_expands (found : Except ReadFault DiskEntry) (h : ∀ e, found = .ok e → e.Readable path) :
    ∃ sources, expand path found = .ok sources ∧ Expands path found sources := by
  cases found with
  | error fault => exact ⟨_, rfl, .nothing⟩
  | ok e =>
    have hreadable := h e rfl
    cases e with
    | file content => exact ⟨_, rfl, .file⟩
    | closed fault => exact absurd .here (hreadable.listed [] fault)
    | directory entries =>
      obtain ⟨found, hexpand, hnodup, hmem⟩ := hreadable.exists_expand
      have hmem' : ∀ names content, (names, content) ∈ sorted found ↔ (names, content) ∈ found :=
        fun names content => (List.mergeSort_perm found _).mem_iff
      refine ⟨_, hexpand, .directory (fun names content => (hmem' names content).trans (hmem names content)) (pairwise_sorted hnodup) ?_⟩
      have hnodup' : ((sorted found).map Prod.fst).Nodup := ((List.mergeSort_perm found _).map Prod.fst).nodup_iff.2 hnodup
      have hjoin : (sorted found).map (fun b => joinNames path b.1) = ((sorted found).map Prod.fst).map (joinNames path) := by
        rw [List.map_map]
        rfl
      rw [hjoin]
      refine hnodup'.map_on (fun names hnames names' hnames' heq => ?_)
      have hled : ∀ names ∈ (sorted found).map Prod.fst, names ≠ [] ∧ ∀ name ∈ names, Path.IsName name := by
        intro names hnames
        obtain ⟨⟨_, content⟩, hb, rfl⟩ := List.mem_map.1 hnames
        obtain ⟨held, hleads, -⟩ := (hmem _ _).1 ((hmem' _ _).1 hb)
        refine ⟨?_, hreadable.isName_of_leads hleads⟩
        rintro rfl
        nomatch leads_nil_iff.1 hleads
      exact joinNames_inj (hled names hnames).1 (hled names' hnames').1 (hled names hnames).2 (hled names' hnames').2 heq

theorem readable_file (path : String) (held : Except ReadFault String) : (file held).Readable path := by
  refine ⟨⟨?_, ?_, ?_⟩, ?_⟩ <;> exact fun names _ hleads => nomatch hleads

/-- A directory can be read if its own path is not too long, its names are distinct and what is in it can be read. -/
theorem readable_directory (hshort : Text.byteLength path.toList ≤ maxPathLength) (hnodup : (entries.map Prod.fst).Nodup)
    (hnames : ∀ name ∈ entries.map Prod.fst, Path.IsName name)
    (hentries : ∀ p ∈ entries, p.2.Readable (joinNames path [p.1])) : (directory entries).Readable path := by
  refine ⟨⟨?_, ?_, ?_⟩, ?_⟩
  · rintro _ _ (_ | ⟨hentry, hleads⟩)
    exact (hentries _ hentry).listed _ _ hleads
  · rintro _ _ (_ | ⟨hentry, hleads⟩)
    · exact hnodup
    · exact (hentries _ hentry).nodup _ _ hleads
  · rintro _ _ (_ | ⟨hentry, hleads⟩)
    · exact hnames
    · exact (hentries _ hentry).isName _ _ hleads
  · rintro _ _ (_ | ⟨hentry, hleads⟩)
    · rwa [joinNames_nil]
    · have hname := hnames _ (List.mem_map_of_mem hentry)
      rw [← joinNames_cons path hname]
      exact (hentries _ hentry).reached _ _ hleads

/-- What lies at a path is the same but for the order of listings. -/
inductive SameAt : Except ReadFault DiskEntry → Except ReadFault DiskEntry → Prop where
  | nothing {fault : ReadFault} : SameAt (.error fault) (.error fault)
  | reordered {e e' : DiskEntry} (h : e.Reordered e') : SameAt (.ok e) (.ok e')

/-- An argument stands for the same sources in whatever order the listings are. -/
theorem SameAt.expand_eq {found found' : Except ReadFault DiskEntry} (h : SameAt found found')
    (hreadable : ∀ e, found = .ok e → e.Readable path) :
    expand path found' = expand path found := by
  cases h with
  | nothing => rfl
  | @reordered e e' h =>
    have he := hreadable e rfl
    have he' := h.readable he
    cases e with
    | closed fault => exact absurd .here (he.listed [] fault)
    | file content =>
      cases h
      rfl
    | directory entries =>
      cases e' with
      | closed fault => exact absurd .here (he'.listed [] fault)
      | file content => nomatch h
      | directory entries' =>
        obtain ⟨found, hexpand, hnodup, hmem⟩ := he.exists_expand
        obtain ⟨found', hexpand', hnodup', hmem'⟩ := he'.exists_expand
        rw [hexpand, hexpand', sorted_eq hnodup' hnodup]
        rintro ⟨names, content⟩
        rw [hmem, hmem']
        simp only [h.leads_file_iff]

end

end DiskEntry

open DiskEntry

/-- Where the trees at some paths can be read, the paths stand for sources: each for its own, in the order of the paths. The order in which
the directories are listed makes no difference. -/
theorem Disk.collects {disk : Disk} {paths : List String} (h : ∀ path ∈ paths, ∀ e, disk path = .ok e → e.Readable path) :
    (∃ groups, Invocation.collect disk paths = .ok groups.flatten ∧
      List.Forall₂ (fun path sources => Expands path (disk path) sources) paths groups) ∧
    ∀ disk' : Disk, (∀ path ∈ paths, SameAt (disk path) (disk' path)) →
      Invocation.collect disk' paths = Invocation.collect disk paths := by
  induction paths with
  | nil => exact ⟨⟨[], rfl, .nil⟩, fun _ _ => rfl⟩
  | cons path paths ih =>
    obtain ⟨⟨groups, hcollect, hgroups⟩, hsame⟩ := ih (fun other hother => h other (List.mem_cons_of_mem path hother))
    have hpath := h path List.mem_cons_self
    obtain ⟨sources, hexpand, hsources⟩ := exists_expands (disk path) hpath
    refine ⟨⟨sources :: groups, ?_, .cons hsources hgroups⟩, fun disk' hdisk' => ?_⟩
    · rw [Invocation.collect, hexpand, hcollect]
      rfl
    · rw [Invocation.collect, Invocation.collect, (hdisk' path List.mem_cons_self).expand_eq hpath,
        hsame disk' (fun other hother => hdisk' other (List.mem_cons_of_mem path hother))]

/-- A directory with the name of a source is searched, not listed, and paths are ordered by their names: a directory comes before a file of
its name with a dot behind it. -/
theorem Disk.collects_nested : ∃ (disk : Disk) (paths : List String), (∀ path ∈ paths, ∀ e, disk path = .ok e → e.Readable path) ∧
    ∃ sources, Invocation.collect disk paths = .ok sources ∧
      sources.map Prod.fst = ["notes.txt", "src/a/z.cour", "src/a.cour", "src/b.cour/x.cour", "gone"] := by
  let tree : DiskEntry := .directory [("a.cour", .file (.ok "")), ("b.cour", .directory [("x.cour", .file (.ok ""))]),
    (".cour", .file (.ok "")), ("a", .directory [("z.cour", .file (.ok ""))])]
  let disk : Disk := fun path =>
    if path = "src" then .ok tree else if path = "notes.txt" then .ok (.file (.ok "")) else .error .missing
  have hreadable : ∀ path ∈ ["notes.txt", "src", "gone"], ∀ e, disk path = .ok e → e.Readable path := by
    intro path hpath e he
    simp only [List.mem_cons, List.not_mem_nil, or_false] at hpath
    rcases hpath with rfl | rfl | rfl
    · obtain rfl := Except.ok.inj (he.symm.trans (rfl : disk "notes.txt" = .ok (.file (.ok ""))))
      exact readable_file _ _
    · obtain rfl := Except.ok.inj (he.symm.trans (rfl : disk "src" = .ok tree))
      refine readable_directory (by decide) (by decide) (by decide) (fun p hp => ?_)
      simp only [List.mem_cons, List.not_mem_nil, or_false] at hp
      rcases hp with rfl | rfl | rfl | rfl
      · exact readable_file _ _
      · refine readable_directory (by decide) (by decide) (by decide) (fun p hp => ?_)
        obtain rfl := List.mem_singleton.1 hp
        exact readable_file _ _
      · exact readable_file _ _
      · refine readable_directory (by decide) (by decide) (by decide) (fun p hp => ?_)
        obtain rfl := List.mem_singleton.1 hp
        exact readable_file _ _
    · nomatch he
  obtain ⟨⟨groups, hcollect, -⟩, -⟩ := Disk.collects hreadable
  refine ⟨disk, _, hreadable, groups.flatten, hcollect, ?_⟩
  let walked : List Below := [(["a.cour"], .ok ""), (["b.cour", "x.cour"], .ok ""), (["a", "z.cour"], .ok "")]
  let ordered : List Below := [(["a", "z.cour"], .ok ""), (["a.cour"], .ok ""), (["b.cour", "x.cour"], .ok "")]
  have hwalk : sourcesAt [] (tree.seenAt "src") = .ok walked := by
    decide +kernel
  have hsorted : sorted walked = ordered := by
    have hordered : sorted ordered = ordered := List.mergeSort_of_pairwise (by decide)
    have hperm : walked.Perm ordered := by decide
    exact (sorted_eq (by decide) (by decide) (fun _ => hperm.mem_iff)).trans hordered
  have hexpand : expand "src" (.ok tree) = .ok (ordered.map (fun b => (joinNames "src" b.1, b.2))) := by
    rw [← hsorted]
    unfold expand
    simp only [tree, hwalk]
    rfl
  have hall : Invocation.collect disk ["notes.txt", "src", "gone"] =
      .ok ([("notes.txt", .ok "")] ++ (ordered.map (fun b => (joinNames "src" b.1, b.2)) ++ [("gone", .error .missing)])) := by
    simp only [Invocation.collect]
    rw [show disk "src" = .ok tree from rfl, hexpand]
    rfl
  rw [hcollect] at hall
  rw [Except.ok.inj hall]
  decide +kernel

end Courier
