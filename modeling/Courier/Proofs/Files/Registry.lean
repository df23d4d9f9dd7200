import Courier.Proofs.Parser.Acts
import Courier.Token.Registry
import Mathlib.Data.List.Induction

/-!
# What becomes of a file in a registry

The user of a registry tokenizes texts, looks at streams, uses them and takes them out, in any order (`Registry.Call`). To each file it
happens as if it were alone (`Life`): its name is free until a text is cut into tokens under it, then its stream is held and used, and
at last it may be taken. A registry agrees with the lives of all files (`Agrees`), which every call keeps. What a call answers is read
off the life of its file, and the life of a file off the calls before (`Began`).
-/

namespace Courier

namespace Registry

/-! ## Calls -/

/-- What a user may do with a registry. -/
inductive Call where
  | tokenize (file source : String)
  | stream (file : String)
  | use (file : String) (act : Stream.Act)
  | take (file : String)
  deriving DecidableEq, Repr

/-- The file that a call is about. -/
def Call.file : Call → String
  | tokenize file _ | stream file | use file _ | take file => file

/-- What a call answers. -/
inductive Reply where
  | tokenized (result : Except LexError Stream)
  | found (s : Option Stream)
  | used (answer : Option Stream.Answer)
  | taken (s : Option Stream)

/-- The answer of a call, and the registry after it. -/
def perform (r : Registry) : Call → Reply × Registry
  | .tokenize file source =>
    match r.tokenize file source with
    | .ok (s, r') => (.tokenized (.ok s), r')
    | .error e => (.tokenized (.error e), r)
  | .stream file => (.found (r.stream? file), r)
  | .use file act =>
    match r.stream? file with
    | some s => (.used (some (s.perform act).1), r.update file (s.perform act).2)
    | none => (.used none, r)
  | .take file =>
    match r.take file with
    | some (s, r') => (.taken (some s), r')
    | none => (.taken none, r)

/-- The registry after some calls. -/
def after (r : Registry) (calls : List Call) : Registry :=
  calls.foldl (fun r call => (r.perform call).2) r

/-- The call found no stream, or was refused. -/
def Reply.Failed : Reply → Prop
  | tokenized (.error _) | found none | used none | used (some (.refused _)) | taken none => True
  | _ => False

/-! ## Streams by name -/

section

variable {held : List (String × Stream)} {file name : String} {s : Stream}

theorem lookup_cons_of_ne {α : Type} {key : String} {held : List (String × α)} {a : α} (h : name ≠ key) :
    ((key, a) :: held).lookup name = held.lookup name := by
  have hne : (name == key) = false := by simpa using h
  rw [List.lookup_cons, hne]

theorem lookup_update : (held.map (fun entry => if entry.1 == file then (file, s) else entry)).lookup name =
    if name = file then (held.lookup file).map (fun _ => s) else held.lookup name := by
  induction held with
  | nil => simp
  | cons entry held ih =>
    obtain ⟨key, t⟩ := entry
    by_cases hkey : key = file
    · subst hkey
      rw [List.map_cons, if_pos (by simp)]
      by_cases hname : name = key
      · subst hname
        rw [List.lookup_cons_self, if_pos rfl, List.lookup_cons_self, Option.map_some]
      · rw [lookup_cons_of_ne hname, ih, if_neg hname, if_neg hname, lookup_cons_of_ne hname]
    · rw [List.map_cons, if_neg (by simpa using hkey), lookup_cons_of_ne (Ne.symm hkey)]
      by_cases hname : name = key
      · subst hname
        rw [List.lookup_cons_self, if_neg hkey, List.lookup_cons_self]
      · rw [lookup_cons_of_ne hname, ih, lookup_cons_of_ne hname]

theorem lookup_remove : (held.filter (fun entry => entry.1 != file)).lookup name =
    if name = file then none else held.lookup name := by
  induction held with
  | nil => simp
  | cons entry held ih =>
    obtain ⟨key, t⟩ := entry
    by_cases hkey : key = file
    · subst hkey
      rw [List.filter_cons_of_neg (by simp), ih]
      by_cases hname : name = key
      · rw [if_pos hname, if_pos hname]
      · rw [if_neg hname, if_neg hname, lookup_cons_of_ne hname]
    · rw [List.filter_cons_of_pos (by simpa using hkey)]
      by_cases hname : name = key
      · subst hname
        rw [List.lookup_cons_self, if_neg hkey, List.lookup_cons_self]
      · rw [lookup_cons_of_ne hname, ih, lookup_cons_of_ne hname]

theorem mem_keys_iff : name ∈ held.map Prod.fst ↔ (held.lookup name).isSome := by
  induction held with
  | nil => simp
  | cons entry held ih =>
    obtain ⟨key, t⟩ := entry
    by_cases hname : name = key
    · subst hname
      simp
    · rw [lookup_cons_of_ne hname, ← ih]
      simp [hname]

/-- A stream that is put where it was changes nothing. -/
theorem update_same (hnodup : (held.map Prod.fst).Nodup) (h : held.lookup file = some s) :
    held.map (fun entry => if entry.1 == file then (file, s) else entry) = held := by
  induction held with
  | nil => rfl
  | cons entry held ih =>
    obtain ⟨key, t⟩ := entry
    obtain ⟨hfresh, hnodup⟩ := List.nodup_cons.1 hnodup
    by_cases hkey : key = file
    · subst hkey
      have hrest : ∀ entry ∈ held, (if entry.1 == key then (key, s) else entry) = entry := by
        intro entry hentry
        rw [if_neg]
        intro heq
        exact hfresh (List.mem_map.2 ⟨entry, hentry, by simpa using heq⟩)
      obtain rfl : t = s := by simpa using h
      rw [List.map_cons, if_pos (by simp), List.map_congr_left hrest, List.map_id']
    · rw [lookup_cons_of_ne (Ne.symm hkey)] at h
      rw [List.map_cons, if_neg (by simpa using hkey), ih hnodup h]

end

/-! ## Lives -/

/-- What has become of the file of a name. -/
inductive Life where
  | free
  | held (s : Stream)
  | taken

/-- The stream of a file that is held. -/
def Life.stream? : Life → Option Stream
  | held s => some s
  | _ => none

/-- What a call makes of the life of a file. -/
def Life.step (file : String) : Life → Call → Life
  | free, .tokenize name source =>
    if name = file then
      match Stream.tokenize file source with
      | .ok s => held s
      | .error _ => free
    else free
  | held s, .use name act => if name = file then held (s.perform act).2 else held s
  | held s, .take name => if name = file then taken else held s
  | l, _ => l

/-- The life of a file after some calls. -/
def lifeAfter (calls : List Call) (file : String) : Life :=
  calls.foldl (Life.step file) .free

/-- The registry agrees with the life of a file: it has seen the name if it is not free, and it holds the stream that is held. -/
structure Agrees (r : Registry) (file : String) (l : Life) : Prop where
  seen : r.hasSeen file = true ↔ l ≠ .free
  stream : r.stream? file = l.stream?

/-! ## What calls do -/

section

variable {r : Registry} {file name source : String} {s : Stream} {l : Life} {call : Call}

theorem seen_holdNew (r : Registry) (file : String) (s : Stream) : (r.holdNew file s).2.seen = r.seen := by
  unfold holdNew
  split <;> rfl

theorem holdNew_of_none (h : r.stream? file = none) : r.holdNew file s = (s, { r with held := (file, s) :: r.held }) := by
  unfold holdNew
  rw [h]

theorem stream?_holdNew_of_ne (h : name ≠ file) : (r.holdNew file s).2.stream? name = r.stream? name := by
  unfold holdNew
  split
  · rfl
  · exact lookup_cons_of_ne h

theorem nodup_holdNew (h : r.files.Nodup) : (r.holdNew file s).2.files.Nodup := by
  unfold holdNew
  split
  · exact h
  · rename_i hnone
    have hfresh : file ∉ r.held.map Prod.fst := by
      rw [mem_keys_iff, show r.held.lookup file = none from hnone]
      simp
    exact List.nodup_cons.2 ⟨hfresh, h⟩

theorem tokenize_of_seen (h : r.hasSeen file = true) : r.tokenize file source = .error (.alreadyTokenized file) := by
  unfold tokenize
  rw [if_pos h]

theorem tokenize_of_error {e : LexError} (h : r.hasSeen file = false) (he : Stream.tokenize file source = .error e) :
    r.tokenize file source = .error e := by
  unfold tokenize
  rw [if_neg (by simp [h]), he]
  rfl

theorem tokenize_of_ok (h : r.hasSeen file = false) (hs : Stream.tokenize file source = .ok s) :
    r.tokenize file source = .ok ({ r with seen := file :: r.seen }.holdNew file s) := by
  unfold tokenize
  rw [if_neg (by simp [h]), hs]
  rfl

theorem perform_tokenize_seen (h : r.hasSeen file = true) :
    r.perform (.tokenize file source) = (.tokenized (.error (.alreadyTokenized file)), r) := by
  simp only [perform, tokenize_of_seen h]

theorem perform_tokenize_error {e : LexError} (h : r.hasSeen file = false) (he : Stream.tokenize file source = .error e) :
    r.perform (.tokenize file source) = (.tokenized (.error e), r) := by
  simp only [perform, tokenize_of_error h he]

theorem perform_tokenize_ok (h : r.hasSeen file = false) (hs : Stream.tokenize file source = .ok s) :
    r.perform (.tokenize file source) = (.tokenized (.ok ({ r with seen := file :: r.seen }.holdNew file s).1),
      ({ r with seen := file :: r.seen }.holdNew file s).2) := by
  simp only [perform, tokenize_of_ok h hs]

theorem perform_use (h : r.stream? file = some s) (act : Stream.Act) :
    r.perform (.use file act) = (.used (some (s.perform act).1), r.update file (s.perform act).2) := by
  simp only [perform, h]

theorem perform_use_none (h : r.stream? file = none) (act : Stream.Act) : r.perform (.use file act) = (.used none, r) := by
  simp only [perform, h]

theorem perform_take (h : r.stream? file = some s) :
    r.perform (.take file) = (.taken (some s), { r with held := r.held.filter (fun entry => entry.1 != file) }) := by
  simp only [perform, take, h, Option.map_some]

theorem perform_take_none (h : r.stream? file = none) : r.perform (.take file) = (.taken none, r) := by
  simp only [perform, take, h, Option.map_none]

/-- What a call does: nothing, or it holds a new stream, or it changes one that is held, or it takes one out. -/
theorem perform_cases (r : Registry) (call : Call) :
    (r.perform call).2 = r ∨
    (∃ s t, r.perform call = (.tokenized (.ok t), ({ r with seen := call.file :: r.seen }.holdNew call.file s).2)) ∨
    (∃ act s, r.stream? call.file = some s ∧
      r.perform call = (.used (some (s.perform act).1), r.update call.file (s.perform act).2)) ∨
    (∃ s, r.perform call = (.taken (some s), { r with held := r.held.filter (fun entry => entry.1 != call.file) })) := by
  cases call with
  | tokenize file source =>
    cases hseen : r.hasSeen file with
    | true => exact .inl (congrArg Prod.snd (perform_tokenize_seen hseen))
    | false =>
      cases hs : Stream.tokenize file source with
      | error e => exact .inl (congrArg Prod.snd (perform_tokenize_error hseen hs))
      | ok s => exact .inr (.inl ⟨s, _, perform_tokenize_ok hseen hs⟩)
  | stream file => exact .inl rfl
  | use file act =>
    cases hs : r.stream? file with
    | none => exact .inl (congrArg Prod.snd (perform_use_none hs act))
    | some s => exact .inr (.inr (.inl ⟨act, s, hs, perform_use hs act⟩))
  | take file =>
    cases hs : r.stream? file with
    | none => exact .inl (congrArg Prod.snd (perform_take_none hs))
    | some s => exact .inr (.inr (.inr ⟨s, perform_take hs⟩))

/-- A call is about one file: what is known of another is not changed. -/
theorem perform_frame (h : call.file ≠ file) :
    (r.perform call).2.hasSeen file = r.hasSeen file ∧ (r.perform call).2.stream? file = r.stream? file := by
  obtain hsame | ⟨s, t, hnew⟩ | ⟨act, s, -, hused⟩ | ⟨s, htaken⟩ := r.perform_cases call
  · rw [hsame]
    exact ⟨rfl, rfl⟩
  · rw [hnew]
    refine ⟨?_, stream?_holdNew_of_ne (Ne.symm h)⟩
    have hne : (file == call.file) = false := by simpa using Ne.symm h
    unfold hasSeen
    rw [seen_holdNew, List.contains_cons, hne, Bool.false_or]
  · rw [hused]
    exact ⟨rfl, lookup_update.trans (if_neg (Ne.symm h))⟩
  · rw [htaken]
    exact ⟨rfl, lookup_remove.trans (if_neg (Ne.symm h))⟩

theorem Life.step_of_ne (h : call.file ≠ file) : l.step file call = l := by
  cases call <;> cases l <;> first | rfl | exact if_neg h

theorem Agrees.hasSeen_of_free (h : Agrees r file .free) : r.hasSeen file = false := by
  have hnot : ¬ r.hasSeen file = true := fun hseen => h.seen.1 hseen rfl
  simpa using hnot

/-- A call about a file does to it what it makes of its life. -/
theorem Agrees.perform_same (h : Agrees r call.file l) : Agrees (r.perform call).2 call.file (l.step call.file call) := by
  cases call with
  | tokenize file source =>
    simp only [Call.file] at h ⊢
    cases l with
    | free =>
      cases hs : Stream.tokenize file source with
      | error e =>
        rw [perform_tokenize_error h.hasSeen_of_free hs]
        simpa only [Life.step, if_true, hs] using h
      | ok s =>
        have hnone : ({ r with seen := file :: r.seen } : Registry).stream? file = none := h.stream
        rw [perform_tokenize_ok h.hasSeen_of_free hs, holdNew_of_none hnone]
        simp only [Life.step, if_true, hs]
        exact ⟨by simp [hasSeen], List.lookup_cons_self⟩
    | held t =>
      rw [perform_tokenize_seen (h.seen.2 (by simp))]
      exact h
    | taken =>
      rw [perform_tokenize_seen (h.seen.2 (by simp))]
      exact h
  | stream file => cases l <;> exact h
  | use file act =>
    simp only [Call.file] at h ⊢
    cases l with
    | held t =>
      have hheld : r.held.lookup file = some t := h.stream
      have hstream : (r.update file (t.perform act).2).stream? file = some (t.perform act).2 :=
        lookup_update.trans (by rw [if_pos rfl, hheld, Option.map_some])
      rw [perform_use h.stream]
      simp only [Life.step, if_true]
      exact ⟨⟨fun _ => by simp, fun _ => h.seen.2 (by simp)⟩, hstream⟩
    | free =>
      rw [perform_use_none h.stream]
      exact h
    | taken =>
      rw [perform_use_none h.stream]
      exact h
  | take file =>
    simp only [Call.file] at h ⊢
    cases l with
    | held t =>
      rw [perform_take h.stream]
      simp only [Life.step, if_true]
      exact ⟨⟨fun _ => by simp, fun _ => h.seen.2 (by simp)⟩, lookup_remove.trans (if_pos rfl)⟩
    | free =>
      rw [perform_take_none h.stream]
      exact h
    | taken =>
      rw [perform_take_none h.stream]
      exact h

/-- A call keeps the agreement with the life of every file. -/
theorem Agrees.perform (h : Agrees r file l) (call : Call) : Agrees (r.perform call).2 file (l.step file call) := by
  by_cases hfile : call.file = file
  · subst hfile
    exact h.perform_same
  · obtain ⟨hseen, hstream⟩ := perform_frame (r := r) hfile
    rw [Life.step_of_ne hfile]
    exact ⟨hseen ▸ h.seen, hstream.trans h.stream⟩

theorem files_update (r : Registry) (file : String) (s : Stream) : (r.update file s).files = r.files := by
  unfold files update
  rw [List.map_map]
  refine List.map_congr_left (fun entry _ => ?_)
  by_cases hentry : entry.1 = file
  · simp [hentry]
  · simp [hentry]

theorem nodup_perform (h : r.files.Nodup) (call : Call) : (r.perform call).2.files.Nodup := by
  obtain hsame | ⟨s, t, hnew⟩ | ⟨act, s, -, hused⟩ | ⟨s, htaken⟩ := r.perform_cases call
  · rw [hsame]
    exact h
  · rw [hnew]
    exact nodup_holdNew h
  · rw [hused, files_update]
    exact h
  · rw [htaken]
    exact h.sublist (List.filter_sublist.map _)

/-! ## What calls answer -/

/-- A text is tokenized where its name is free and it can be cut into tokens, and then its own stream is the answer and is held. -/
theorem Agrees.tokenized_iff (h : Agrees r file l) :
    (r.perform (.tokenize file source)).1 = .tokenized (.ok s) ↔ l = .free ∧ Stream.tokenize file source = .ok s := by
  cases l with
  | free =>
    cases hs : Stream.tokenize file source with
    | error e => simp [perform_tokenize_error h.hasSeen_of_free hs]
    | ok t =>
      have hnone : ({ r with seen := file :: r.seen } : Registry).stream? file = none := h.stream
      simp [perform_tokenize_ok h.hasSeen_of_free hs, holdNew_of_none hnone]
  | held t => simp [perform_tokenize_seen (h.seen.2 (by simp))]
  | taken => simp [perform_tokenize_seen (h.seen.2 (by simp))]

theorem Agrees.taken_iff (h : Agrees r file l) : (r.perform (.take file)).1 = .taken (some s) ↔ l = .held s := by
  cases l with
  | held t => simp [perform_take h.stream]
  | free => simp [perform_take_none h.stream]
  | taken => simp [perform_take_none h.stream]

/-- A call that fails changes nothing. -/
theorem perform_of_failed (hnodup : r.files.Nodup) (h : (r.perform call).1.Failed) : (r.perform call).2 = r := by
  obtain hsame | ⟨s, t, hnew⟩ | ⟨act, s, hs, hused⟩ | ⟨s, htaken⟩ := r.perform_cases call
  · exact hsame
  · rw [hnew] at h
    exact h.elim
  · rw [hused] at h ⊢
    cases hanswer : (s.perform act).1 with
    | refused cause =>
      rw [Stream.perform_of_refused hanswer]
      exact congrArg (fun held => { r with held := held }) (update_same hnodup hs)
    | done =>
      rw [hanswer] at h
      exact h.elim
    | parsed result =>
      rw [hanswer] at h
      exact h.elim
  · rw [htaken] at h
    exact h.elim

end

/-! ## Runs of calls -/

section

variable {calls before since : List Call} {call : Call} {file source : String} {s : Stream}

theorem Agrees.foldl {r : Registry} {l : Life} (h : Agrees r file l) (calls : List Call) :
    Agrees (r.after calls) file (calls.foldl (Life.step file) l) := by
  induction calls generalizing r l with
  | nil => exact h
  | cons call calls ih => exact ih (h.perform call)

theorem agrees_after (calls : List Call) (file : String) : Agrees (empty.after calls) file (lifeAfter calls file) :=
  Agrees.foldl ⟨by simp [hasSeen, empty], rfl⟩ calls

theorem nodup_after {r : Registry} (h : r.files.Nodup) (calls : List Call) : (r.after calls).files.Nodup := by
  induction calls generalizing r with
  | nil => exact h
  | cons call calls ih => exact ih (nodup_perform h call)

/-- Among the calls is one that tokenizes the file, with the stream `s`, and `since` are the calls behind it. -/
def Began (calls : List Call) (file : String) (s : Stream) (since : List Call) : Prop :=
  ∃ before source, calls = before ++ .tokenize file source :: since ∧
    ((empty.after before).perform (.tokenize file source)).1 = .tokenized (.ok s)

/-- The act on the stream of a file that a call is. -/
def Call.act? (file : String) : Call → Option Stream.Act
  | use name act => if name = file then some act else none
  | _ => none

/-- A stream that is held goes on as the acts on it say, until it is taken. -/
theorem Life.step_held (s : Stream) (call : Call) : Life.step file (.held s) call =
    if call = .take file then .taken else .held (s.after (call.act? file).toList) := by
  cases call with
  | tokenize name source => rfl
  | stream name => rfl
  | use name act => by_cases hname : name = file <;> simp [Life.step, Call.act?, hname, Stream.after]
  | take name => by_cases hname : name = file <;> simp [Life.step, Call.act?, hname, Stream.after]

theorem Life.foldl_taken (since : List Call) : since.foldl (Life.step file) .taken = .taken := by
  induction since with
  | nil => rfl
  | cons call since ih => cases call <;> exact ih

theorem Life.foldl_held (since : List Call) (s : Stream) : since.foldl (Life.step file) (.held s) =
    if .take file ∈ since then .taken else .held (s.after (since.filterMap (Call.act? file))) := by
  induction since generalizing s with
  | nil => rfl
  | cons call since ih =>
    rw [List.foldl_cons, Life.step_held]
    by_cases htake : call = .take file
    · rw [if_pos htake, Life.foldl_taken, if_pos (by simp [htake])]
    · have hmem : Call.take file ∈ call :: since ↔ Call.take file ∈ since := by simp [Ne.symm htake]
      have hacts : (call :: since).filterMap (Call.act? file) = (call.act? file).toList ++ since.filterMap (Call.act? file) := by
        cases hact : call.act? file <;> simp [hact]
      rw [if_neg htake, ih, hacts]
      simp only [hmem, Stream.after, List.foldl_append]

theorem Began.life_eq (h : Began calls file s since) : lifeAfter calls file =
    if .take file ∈ since then .taken else .held (s.after (since.filterMap (Call.act? file))) := by
  obtain ⟨before, source, rfl, hs⟩ := h
  obtain ⟨hfree, htokens⟩ := (agrees_after before file).tokenized_iff.1 hs
  have hstep : (lifeAfter before file).step file (.tokenize file source) = .held s := by
    rw [hfree]
    simp only [Life.step, if_true, htokens]
  unfold lifeAfter
  rw [List.foldl_append, List.foldl_cons]
  rw [lifeAfter] at hstep
  rw [hstep, Life.foldl_held]

theorem Began.life_ne_free (h : Began calls file s since) : lifeAfter calls file ≠ .free := by
  rw [h.life_eq]
  split <;> simp

/-- A call that comes later changes nothing about what began. -/
theorem Began.append (h : Began calls file s since) (more : List Call) : Began (calls ++ more) file s (since ++ more) := by
  obtain ⟨before, source, rfl, hs⟩ := h
  exact ⟨before, source, by simp, hs⟩

/-- A name that is not free was tokenized. -/
theorem lifeAfter_eq_free : lifeAfter calls file = .free ↔ ¬ ∃ s since, Began calls file s since := by
  constructor
  · rintro h ⟨s, since, hbegan⟩
    exact hbegan.life_ne_free h
  · intro h
    induction calls using List.reverseRecOn with
    | nil => rfl
    | append_singleton calls call ih =>
      have hfree : lifeAfter calls file = .free := ih (fun ⟨s, since, hbegan⟩ => h ⟨s, _, hbegan.append [call]⟩)
      have hstep : lifeAfter (calls ++ [call]) file = Life.step file .free call := by
        rw [lifeAfter, List.foldl_append, ← lifeAfter, hfree]
        rfl
      rw [hstep]
      cases call with
      | tokenize name source =>
        by_cases hname : name = file
        · subst hname
          cases hs : Stream.tokenize name source with
          | error e => simp [Life.step, hs]
          | ok s =>
            have hbegan : Began (calls ++ [.tokenize name source]) name s [] :=
              ⟨calls, source, rfl, (agrees_after calls name).tokenized_iff.2 ⟨hfree, hs⟩⟩
            exact absurd ⟨s, [], hbegan⟩ h
        · simp [Life.step, hname]
      | stream name => rfl
      | use name act => rfl
      | take name => rfl

/-- Behind a call that tokenizes a file, no other one does. -/
theorem not_tokenized_again {since' : List Call} {source' : String} {s' : Stream}
    (h : ((empty.after before).perform (.tokenize file source)).1 = .tokenized (.ok s)) :
    ((empty.after (before ++ .tokenize file source :: since')).perform (.tokenize file source')).1 ≠ .tokenized (.ok s') := by
  intro h'
  have hbegan : Began (before ++ .tokenize file source :: since') file s since' := ⟨before, source, rfl, h⟩
  exact hbegan.life_ne_free ((agrees_after _ file).tokenized_iff.1 h').1

/-- At most one call tokenizes a file. -/
theorem Began.unique {s' : Stream} {since' : List Call} (h : Began calls file s since) (h' : Began calls file s' since') :
    s = s' ∧ since = since' := by
  obtain ⟨before, source, rfl, hs⟩ := h
  obtain ⟨before', source', heq, hs'⟩ := h'
  rcases List.append_eq_append_iff.1 heq with ⟨between, rfl, hcut⟩ | ⟨between, rfl, hcut⟩
  · cases between with
    | nil =>
      obtain ⟨hcall, rfl⟩ := List.cons.inj hcut
      obtain rfl : source = source' := by simpa using hcall
      rw [List.append_nil] at hs'
      exact ⟨by simpa [hs] using hs', rfl⟩
    | cons call between =>
      obtain ⟨rfl, -⟩ := List.cons.inj hcut
      exact absurd hs' (not_tokenized_again hs)
  · cases between with
    | nil =>
      obtain ⟨hcall, rfl⟩ := List.cons.inj hcut
      obtain rfl : source' = source := by simpa using hcall
      rw [List.append_nil] at hs
      exact ⟨by simpa [hs] using hs', rfl⟩
    | cons call between =>
      obtain ⟨rfl, -⟩ := List.cons.inj hcut
      exact absurd hs (not_tokenized_again hs')

/-- A file is held if it was tokenized and not taken since, and its stream is as the acts on it left it. -/
theorem lifeAfter_eq_held : lifeAfter calls file = .held s ↔
    ∃ s₀ since, Began calls file s₀ since ∧ .take file ∉ since ∧ s = s₀.after (since.filterMap (Call.act? file)) := by
  constructor
  · intro h
    have hbegan : ∃ s₀ since, Began calls file s₀ since := by
      by_contra hnone
      rw [lifeAfter_eq_free.2 hnone] at h
      nomatch h
    obtain ⟨s₀, since, hbegan⟩ := hbegan
    rw [hbegan.life_eq] at h
    split at h
    · nomatch h
    · rename_i htake
      exact ⟨s₀, since, hbegan, htake, (Life.held.inj h).symm⟩
  · rintro ⟨s₀, since, hbegan, htake, rfl⟩
    rw [hbegan.life_eq, if_neg htake]

/-- A file is held by the registry if its life says so. -/
theorem mem_files_after : file ∈ (empty.after calls).files ↔ ∃ s, lifeAfter calls file = .held s := by
  have hstream : (empty.after calls).held.lookup file = (lifeAfter calls file).stream? := (agrees_after calls file).stream
  unfold files
  rw [mem_keys_iff, hstream]
  cases lifeAfter calls file with
  | free => simp [Life.stream?]
  | held s => simp [Life.stream?]
  | taken => simp [Life.stream?]

/-- The law of a registry. Whatever calls were made, at most one of them tokenized a file. A text is tokenized if none did and if it can
be cut into tokens; its own stream is the answer and is held. A call that fails changes nothing. A file that was tokenized is held until
it is taken, which gives its stream as it was left; from then on there is none, and the name stays refused. The files held are those. -/
theorem law_of_calls (calls : List Call) (file : String) :
    let r := empty.after calls
    (∀ s since s' since', Began calls file s since → Began calls file s' since' → s = s' ∧ since = since') ∧
    (∀ source s, (r.perform (.tokenize file source)).1 = .tokenized (.ok s) ↔
      (¬ ∃ s since, Began calls file s since) ∧ Stream.tokenize file source = .ok s) ∧
    (∀ source s, (r.perform (.tokenize file source)).1 = .tokenized (.ok s) →
      (r.perform (.tokenize file source)).2.stream? file = some s) ∧
    (∀ call, (r.perform call).1.Failed → (r.perform call).2 = r) ∧
    (∀ s, (r.perform (.take file)).1 = .taken (some s) ↔ ∃ s₀ since, Began calls file s₀ since ∧ .take file ∉ since ∧
      s = s₀.after (since.filterMap (Call.act? file))) ∧
    (∀ s since, Began calls file s since → ∀ more source, ((empty.after (calls ++ more)).perform (.tokenize file source)).1 =
      .tokenized (.error (.alreadyTokenized file))) ∧
    (file ∈ r.files ↔ ∃ s since, Began calls file s since ∧ .take file ∉ since) ∧ r.files.Nodup := by
  intro r
  have hr : Agrees r file (lifeAfter calls file) := agrees_after calls file
  have hnodup : r.files.Nodup := nodup_after (r := empty) List.nodup_nil calls
  refine ⟨fun _ _ _ _ h h' => h.unique h', fun source s => ?_, fun source s h => ?_, fun call => ?_, fun s => ?_,
    fun s since h more source => ?_, ?_, hnodup⟩
  · rw [hr.tokenized_iff, lifeAfter_eq_free]
  · obtain ⟨hfree, hs⟩ := hr.tokenized_iff.1 h
    rw [(hr.perform (.tokenize file source)).stream, hfree]
    simp only [Life.step, if_true, hs, Life.stream?]
  · exact perform_of_failed hnodup
  · rw [hr.taken_iff, lifeAfter_eq_held]
  · have hseen := (agrees_after (calls ++ more) file).seen.2 (h.append more).life_ne_free
    rw [perform_tokenize_seen hseen]
  · rw [mem_files_after]
    constructor
    · rintro ⟨s, hs⟩
      obtain ⟨s₀, since, hbegan, htake, -⟩ := lifeAfter_eq_held.1 hs
      exact ⟨s₀, since, hbegan, htake⟩
    · rintro ⟨s₀, since, hbegan, htake⟩
      exact ⟨_, lifeAfter_eq_held.2 ⟨s₀, since, hbegan, htake, rfl⟩⟩

end

end Registry

end Courier
