import Courier.Command
import Courier.Proofs.Json.Fields
import Courier.Proofs.Json.Printing
import Courier.Proofs.Files.Verdicts

/-!
# The commands agree with each other

`lex` tokenizes a file by itself, and `parse` and `check` tokenize it in a registry. They exit alike all the same, and a failure before any
parse is the same for the three of them, since a file that is checked alone is what it is by itself (`Disk.consistent`). A check counts,
lists and prints in separate passes over its reports. What it leaves is told by the verdicts on its sources: each of them is an entry and,
where it is not accepted, an error, in the order of the sources (`Invocation.tells_runCheck`).
-/

namespace Courier

/-! ## Reports -/

namespace FileReport

/-- Where a check tells of a file in text: a line of the first stream, or a failure for the second one. -/
def told (r : FileReport) : String ⊕ String :=
  match r.failure? with
  | none => .inl (Invocation.okLine r)
  | some f => .inr f.report.render

theorem isOk_of_none {r : FileReport} (h : r.failure? = none) : r.isOk = true := by
  obtain ⟨path, t | f⟩ := r
  · nomatch h
  · rfl

theorem isOk_of_some {r : FileReport} {f : Failure} (h : r.failure? = some f) : r.isOk = false := by
  obtain ⟨path, t | f⟩ := r
  · rfl
  · nomatch h

theorem field?_reportJson_file (r : FileReport) : (Invocation.reportJson r).field? "file" = some (.text r.path) := by
  obtain ⟨path, t | f⟩ := r
  · rw [Invocation.reportJson, Json.field?_ofFields _ (by simp)]
    rfl
  · rw [Invocation.reportJson, Json.field?_ofFields _ (by simp)]
    rfl

theorem flag?_reportJson_ok (r : FileReport) : (Invocation.reportJson r).flag? "ok" = some r.isOk := by
  obtain ⟨path, t | f⟩ := r
  · rw [Json.flag?, Invocation.reportJson, Json.field?_ofFields _ (by simp)]
    rfl
  · rw [Json.flag?, Invocation.reportJson, Json.field?_ofFields _ (by simp)]
    rfl

theorem field?_reportJson_error (r : FileReport) :
    (Invocation.reportJson r).field? "error" = r.failure?.map (fun f => f.report.toJson) := by
  obtain ⟨path, t | f⟩ := r
  · rw [Invocation.reportJson, Json.field?_ofFields _ (by simp)]
    rfl
  · rw [Invocation.reportJson, Json.field?_ofFields _ (by simp)]
    rfl

theorem field?_reportJson_nodes (r : FileReport) :
    (Invocation.reportJson r).field? "nodes" = r.result.toOption.map (fun t => .number t.size) := by
  obtain ⟨path, t | f⟩ := r
  · rw [Invocation.reportJson, Json.field?_ofFields _ (by simp)]
    rfl
  · rw [Invocation.reportJson, Json.field?_ofFields _ (by simp)]
    rfl

variable (reports : List FileReport)

theorem length_filter_not_isOk : (reports.filter (fun r => !r.isOk)).length = (reports.filterMap failure?).length := by
  induction reports with
  | nil => rfl
  | cons r reports ih =>
    cases hf : r.failure? with
    | none => simp [isOk_of_none hf, hf, ih]
    | some f => simp [isOk_of_some hf, hf, ih]

theorem filterMap_told_left : (reports.map told).filterMap Sum.getLeft? = (reports.filter isOk).map Invocation.okLine := by
  induction reports with
  | nil => rfl
  | cons r reports ih =>
    cases hf : r.failure? with
    | none => simp [told, isOk_of_none hf, hf, ih]
    | some f => simp [told, isOk_of_some hf, hf, ih, List.filterMap_cons]

theorem filterMap_told_right :
    (reports.map told).filterMap Sum.getRight? = (reports.filterMap failure?).map (fun f => f.report.render) := by
  rw [List.filterMap_map, List.map_filterMap]
  refine List.filterMap_congr (fun r _ => ?_)
  cases hf : r.failure? <;> simp [told, hf]

end FileReport

/-! ## What a check leaves -/

open Source

/-- An entry of a check in JSON tells the verdict on the file at a path: how many nodes its tree has, or its failure. -/
def Json.TellsVerdict (entry : Json) (path : String) (verdict : Except Failure Tree) : Prop :=
  entry.field? "file" = some (.text path) ∧
  match verdict with
  | .ok tree => entry.flag? "ok" = some true ∧ entry.field? "nodes" = some (.number tree.size) ∧ entry.field? "error" = none
  | .error f => entry.flag? "ok" = some false ∧ entry.field? "nodes" = none ∧ entry.field? "error" = some f.report.toJson

/-- What a check of some sources leaves, told by the verdicts on them, with the option that the command and the build give. -/
structure Invocation.Tells (i : Invocation) (build : Build) (sources : List Source) (o : Outcome) : Prop where
  /-- The check is successful exactly if every source is accepted behind those before it. -/
  code : o.code = 0 ↔ AllAccepted sources
  /-- In JSON the streams tell one value and the objects of failures. The value has an entry for each source, in their order, that tells the
  verdict on it. The number told of failures is that of the entries that say so and that of the objects, which are those of the entries. -/
  json : i.output = .json → ∃ (value : Json) (items : List Json) (failures : List Failure),
    Json.Prints o.stdout [value] ∧ Json.Prints o.stderr (failures.map (fun f => f.report.toJson)) ∧
    value.field? "files" = some (.array items) ∧ value.field? "checked" = some (.number items.length) ∧
    value.field? "failed" = some (.number failures.length) ∧
    items.map (Json.field? "file") = sources.map (fun source => some (.text source.1)) ∧
    (∀ (k : Nat) (source : Source), sources[k]? = some source → ∃ item, items[k]? = some item ∧
      item.TellsVerdict source.1 (source.verdict (i.trace build) (sources.take k))) ∧
    (items.filter (fun item => item.flag? "ok" = some false)).length = failures.length ∧
    items.filterMap (Json.field? "error") = failures.map (fun f => f.report.toJson)
  /-- In text there is a line for each source, in their order, that tells the verdict on it: in the first stream if the source is accepted,
  in the second one, with the failure, if not. -/
  text : i.output = .text → i.quiet = false → ∃ lines : List (String ⊕ String),
    lines.length = sources.length ∧
    (∀ (k : Nat) (source : Source), sources[k]? = some source →
      (∃ tree, source.verdict (i.trace build) (sources.take k) = .ok tree ∧ source.Accepted (sources.take k) ∧
        lines[k]? = some (.inl ("ok: " ++ source.1))) ∨
      (∃ f, source.verdict (i.trace build) (sources.take k) = .error f ∧ ¬source.Accepted (sources.take k) ∧
        lines[k]? = some (.inr f.report.render))) ∧
    o.stdout = String.join ((lines.filterMap Sum.getLeft?).map (· ++ "\n")) ++
      s!"{sources.length} file(s) checked, {(lines.filterMap Sum.getRight?).length} failed" ++ "\n" ∧
    o.stderr = String.join ((lines.filterMap Sum.getRight?).map (· ++ "\n"))

/-- The entry of a report tells what the report says. -/
theorem FileReport.tellsVerdict_reportJson (r : FileReport) : (Invocation.reportJson r).TellsVerdict r.path r.result := by
  refine ⟨r.field?_reportJson_file, ?_⟩
  have hok := r.flag?_reportJson_ok
  have hnodes := r.field?_reportJson_nodes
  have herror := r.field?_reportJson_error
  obtain ⟨path, t | f⟩ := r
  · exact ⟨hok, hnodes, herror⟩
  · exact ⟨hok, hnodes, herror⟩

section

variable {sources : List Source} {source : Source} {k : Nat}

/-- The reports of a whole check are the verdicts on its sources. -/
theorem getElem?_checkAll (trace : Bool) (h : sources[k]? = some source) :
    (Registry.empty.checkAll trace sources)[k]? = some ⟨source.1, source.verdict trace (sources.take k)⟩ := by
  rw [Registry.behind_empty.checkAll trace sources k, h]
  rfl

theorem map_path_checkAll (trace : Bool) (sources : List Source) :
    (Registry.empty.checkAll trace sources).map FileReport.path = sources.map Prod.fst := by
  refine List.ext_getElem? (fun k => ?_)
  rw [List.getElem?_map, List.getElem?_map, Registry.behind_empty.checkAll trace sources k, Option.map_map]
  rfl

theorem all_isOk_checkAll (trace : Bool) : (Registry.empty.checkAll trace sources).all FileReport.isOk = true ↔ AllAccepted sources := by
  rw [List.all_eq_true]
  constructor
  · intro hall k source hsource
    exact (isOk_verdict_iff trace).1 (hall _ (List.mem_of_getElem? (getElem?_checkAll trace hsource)))
  · intro haccepted r hr
    obtain ⟨k, hk⟩ := List.mem_iff_getElem?.1 hr
    rw [Registry.behind_empty.checkAll trace sources k] at hk
    obtain ⟨source, hsource, rfl⟩ := Option.map_eq_some_iff.1 hk
    exact (isOk_verdict_iff trace).2 (haccepted k source hsource)

end

/-- The file at a path is refused before any parse: it cannot be read, or its text cannot be cut into tokens. -/
def Disk.Refuses (disk : Disk) (path : String) (f : Failure) : Prop :=
  (∃ fault, disk.read path = .error fault ∧ f = .unreadable path fault) ∨
    ∃ text e, disk.read path = .ok text ∧ Stream.tokenize (Path.fileName path) text = .error e ∧ f = .lexical e

namespace Invocation

variable {i j : Invocation} {build : Build} {disk : Disk} {path : String} {paths : List String} {sources : List Source}

theorem code_runCheck (h : collect disk paths = .ok sources) :
    (i.runCheck build disk paths).code = 0 ↔ AllAccepted sources := by
  rw [← all_isOk_checkAll (i.trace build)]
  simp [runCheck, h]

/-- In JSON a check tells its entries, how many there are, and how many of them failed. -/
theorem exists_showReports_json (h : i.output = .json) (reports : List FileReport) : ∃ value : Json,
    i.showReports reports = value.pretty ++ "\n" ∧ value.field? "files" = some (.array (reports.map reportJson)) ∧
    value.field? "checked" = some (.number reports.length) ∧
    value.field? "failed" = some (.number (reports.filterMap FileReport.failure?).length) := by
  have hfield := Json.field?_ofFields [("checked", .number reports.length),
    ("failed", .number (reports.filter (fun r => !r.isOk)).length), ("files", .array (reports.map reportJson))] (by simp)
  refine ⟨_, ?_, hfield "files", hfield "checked", ?_⟩
  · simp only [showReports, h]
  · rw [← FileReport.length_filter_not_isOk]
    exact hfield "failed"

theorem showReports_text (h : i.output = .text) (hquiet : i.quiet = false) (reports : List FileReport) :
    i.showReports reports = String.join (((reports.map FileReport.told).filterMap Sum.getLeft?).map (· ++ "\n")) ++
      s!"{reports.length} file(s) checked, {((reports.map FileReport.told).filterMap Sum.getRight?).length} failed" ++ "\n" := by
  rw [FileReport.filterMap_told_left, FileReport.filterMap_told_right, List.length_map, ← FileReport.length_filter_not_isOk]
  simp [showReports, h, hquiet, unlines, String.append_assoc]

theorem complaint_json (h : i.output = .json) : i.complaint = fun f => f.report.toJson.pretty ++ "\n" := by
  funext f
  simp only [complaint, h]

theorem complaint_text (h : i.output = .text) (hquiet : i.quiet = false) : i.complaint = fun f => f.report.render ++ "\n" := by
  funext f
  simp [complaint, h, hquiet]

/-- What a check leaves is told by the verdicts on its sources. -/
theorem tells_runCheck (h : collect disk paths = .ok sources) : i.Tells build sources (i.runCheck build disk paths) := by
  have hlength := Registry.length_checkAll Registry.empty (i.trace build) sources
  have hpath := map_path_checkAll (i.trace build) sources
  have hreport := fun (k : Nat) (source : Source) (hsource : sources[k]? = some source) => getElem?_checkAll (i.trace build) hsource
  have hout : (i.runCheck build disk paths).stdout = i.showReports (Registry.empty.checkAll (i.trace build) sources) := by
    simp only [runCheck, h]
  have herr : (i.runCheck build disk paths).stderr =
      String.join (((Registry.empty.checkAll (i.trace build) sources).filterMap FileReport.failure?).map i.complaint) := by
    simp only [runCheck, h]
  generalize Registry.empty.checkAll (i.trace build) sources = reports at hlength hpath hreport hout herr
  refine ⟨code_runCheck h, fun hjson => ?_, fun htext hquiet => ?_⟩
  · obtain ⟨value, hshow, hfiles, hchecked, hfailed⟩ := exists_showReports_json hjson reports
    refine ⟨value, reports.map reportJson, reports.filterMap FileReport.failure?, ?_, ?_, hfiles, ?_, hfailed, ?_,
      fun k source hsource => ?_, ?_, ?_⟩
    · rw [hout, hshow]
      exact Json.prints_pretty value
    · have hprints := Json.prints_join ((reports.filterMap FileReport.failure?).map (fun f => f.report.toJson))
      rw [List.map_map] at hprints
      rw [herr, complaint_json hjson]
      exact hprints
    · rw [List.length_map]
      exact hchecked
    · calc (reports.map reportJson).map (Json.field? "file")
          = reports.map (fun r => some (.text r.path)) := by
            rw [List.map_map, ← funext FileReport.field?_reportJson_file]
            rfl
        _ = (reports.map FileReport.path).map (fun path => some (.text path)) := by
            rw [List.map_map]
            rfl
        _ = sources.map (fun source => some (.text source.1)) := by
            rw [hpath, List.map_map]
            rfl
    · refine ⟨_, ?_, FileReport.tellsVerdict_reportJson ⟨source.1, source.verdict (i.trace build) (sources.take k)⟩⟩
      rw [List.getElem?_map, hreport k source hsource, Option.map_some]
    · rw [← FileReport.length_filter_not_isOk, List.filter_map, List.length_map]
      refine congrArg List.length (List.filter_congr (fun r _ => ?_))
      simp [FileReport.flag?_reportJson_ok]
    · rw [List.filterMap_map, List.map_filterMap]
      exact List.filterMap_congr (fun r _ => r.field?_reportJson_error)
  · refine ⟨reports.map FileReport.told, (List.length_map _).trans hlength, fun k source hsource => ?_, ?_, ?_⟩
    · rw [List.getElem?_map, hreport k source hsource, Option.map_some, ← isOk_verdict_iff (i.trace build)]
      cases hverdict : source.verdict (i.trace build) (sources.take k) with
      | ok tree => exact .inl ⟨tree, rfl, rfl, rfl⟩
      | error f => exact .inr ⟨f, rfl, Bool.false_ne_true, rfl⟩
    · rw [hout, showReports_text htext hquiet, hlength]
    · rw [herr, complaint_text htext hquiet, FileReport.filterMap_told_right, List.map_map]
      rfl

/-! ## Files by themselves -/

theorem run_lex (h : i.command = .lex path) : i.run disk build = i.runLex disk path := by
  unfold run
  rw [h]

theorem run_parse (h : i.command = .parse path) : i.run disk build = i.runParse build disk path := by
  unfold run
  rw [h]

theorem run_check (h : i.command = .check paths) : i.run disk build = i.runCheck build disk paths := by
  unfold run
  rw [h]

/-- A path that is no directory is its own only source. -/
theorem collect_file (h : ∀ entry, disk path = .ok entry → entry.isDirectory = false) :
    collect disk [path] = .ok [(path, disk.read path)] := by
  unfold collect Disk.read
  cases hdisk : disk path with
  | error fault => rfl
  | ok entry =>
    cases entry with
    | file content => rfl
    | directory entries => nomatch h _ hdisk
    | closed fault => nomatch h _ hdisk

theorem code_runParse : (i.runParse build disk path).code = 0 ↔ Source.Accepted [] (path, disk.read path) := by
  rw [← isOk_verdict_iff (i.trace build), verdict_of_not_tokenized (not_tokenized_nil _), runParse]
  cases parseFile path (disk.read path) (i.trace build) with
  | ok t => exact iff_of_true rfl rfl
  | error f => exact iff_of_false Nat.one_ne_zero Bool.false_ne_true

/-- A file that cannot be read or cut into tokens is told the same failure by every command. -/
theorem refused_of_readStream {f : Failure} (h : readStream disk path = .error f) :
    disk.Refuses path f ∧ ∀ trace, parseFile path (disk.read path) trace = .error f := by
  unfold readStream at h
  unfold parseFile parseSource
  cases hread : disk.read path with
  | error fault =>
    simp only [hread] at h
    obtain rfl := Except.error.inj h
    exact ⟨.inl ⟨fault, hread, rfl⟩, fun _ => rfl⟩
  | ok text =>
    simp only [hread] at h
    cases hs : Stream.tokenize (Path.fileName path) text with
    | ok s =>
      rw [hs] at h
      nomatch h
    | error e =>
      rw [hs] at h
      obtain rfl := Except.error.inj h
      exact ⟨.inr ⟨text, e, hread, hs, rfl⟩, fun _ => by simp only [hs]⟩

/-- Every command exits with zero or one. -/
theorem code_run (i : Invocation) (disk : Disk) (build : Build) : (i.run disk build).code = 0 ∨ (i.run disk build).code = 1 := by
  cases hcommand : i.command with
  | lex path =>
    rw [run_lex hcommand, runLex]
    cases readStream disk path with
    | ok s => exact .inl rfl
    | error f => exact .inr rfl
  | parse path =>
    rw [run_parse hcommand, runParse]
    cases parseFile path (disk.read path) (i.trace build) with
    | ok t => exact .inl rfl
    | error f => exact .inr rfl
  | check paths =>
    rw [run_check hcommand, runCheck]
    cases collect disk paths with
    | ok sources => exact ite_eq_or_eq _ _ _
    | error f => exact .inr rfl

/-- Whether a command is successful is told by the command and the disk. -/
theorem code_congr (disk : Disk) (build build' : Build) (h : i.command = j.command) :
    (i.run disk build).code = 0 ↔ (j.run disk build').code = 0 := by
  cases hcommand : i.command with
  | lex path =>
    rw [run_lex hcommand, run_lex (h ▸ hcommand), runLex, runLex]
    cases readStream disk path with
    | ok s => exact iff_of_true rfl rfl
    | error f => exact iff_of_false Nat.one_ne_zero Nat.one_ne_zero
  | parse path => rw [run_parse hcommand, run_parse (h ▸ hcommand), code_runParse, code_runParse]
  | check paths =>
    rw [run_check hcommand, run_check (h ▸ hcommand)]
    cases hcollect : collect disk paths with
    | ok sources => rw [code_runCheck hcollect, code_runCheck hcollect]
    | error f =>
      simp only [runCheck, hcollect]
      exact iff_of_false Nat.one_ne_zero Nat.one_ne_zero

end Invocation

/-- The commands agree with each other on a disk. -/
structure Disk.Consistent (disk : Disk) : Prop where
  /-- How a command prints, and how the program was built, makes no difference to how it exits. -/
  code : ∀ (i j : Invocation) (build build' : Build), i.command = j.command → (i.run disk build).code = (j.run disk build').code
  /-- `parse` accepts a file exactly if `check` accepts it alone. -/
  parse : ∀ path, (∀ entry, disk path = .ok entry → entry.isDirectory = false) → ∀ (i j : Invocation) (build : Build),
    i.command = .parse path → j.command = .check [path] → ((i.run disk build).code = 0 ↔ (j.run disk build).code = 0)
  /-- What `lex` refuses, all commands refuse, for the same failure: the file cannot be read or its text cannot be cut into tokens. -/
  lex : ∀ path, (∀ entry, disk path = .ok entry → entry.isDirectory = false) → ∀ (i : Invocation) (build : Build),
    i.command = .lex path → (i.run disk build).code ≠ 0 → ∃ f : Failure, disk.Refuses path f ∧ ∀ j : Invocation,
      j.command = .lex path ∨ j.command = .parse path ∨ j.command = .check [path] →
        (j.run disk build).code = 1 ∧ (j.run disk build).stderr =
          match j.output with
          | .json => f.report.toJson.pretty ++ "\n"
          | .text => if j.quiet then "" else f.report.render ++ "\n"
  /-- What a check leaves is told by the sources that its paths stand for. -/
  check : ∀ (i : Invocation) (build : Build) (paths : List String) (sources : List Source), i.command = .check paths →
    Invocation.collect disk paths = .ok sources → i.Tells build sources (i.run disk build)

open Invocation

/-- On every disk, the commands agree with each other. -/
theorem Disk.consistent (disk : Disk) : disk.Consistent := by
  refine ⟨fun i j build build' h => ?_, fun path hfile i j build hi hj => ?_, fun path hfile i build hi hcode => ?_,
    fun i build paths sources hi hsources => ?_⟩
  · have hcongr := code_congr disk build build' h
    rcases code_run i disk build with hi | hi <;> rcases code_run j disk build' with hj | hj <;> omega
  · rw [run_parse hi, run_check hj, code_runParse, code_runCheck (collect_file hfile), allAccepted_singleton]
  · cases hstream : readStream disk path with
    | ok s =>
      rw [run_lex hi, runLex, hstream] at hcode
      exact absurd rfl hcode
    | error f =>
      obtain ⟨hcause, hparse⟩ := refused_of_readStream hstream
      refine ⟨f, hcause, ?_⟩
      rintro j (hj | hj | hj)
      · rw [run_lex hj, runLex, hstream]
        exact ⟨rfl, rfl⟩
      · rw [run_parse hj, runParse, hparse]
        exact ⟨rfl, rfl⟩
      · simp only [run_check hj, runCheck, collect_file hfile, Registry.checkAll_singleton, hparse]
        exact ⟨rfl, show String.join [j.complaint f] = j.complaint f by simp⟩
  · rw [run_check hi]
    exact tells_runCheck hsources

/-- A file that is a unit is one to a check of its path, but not to a check of two paths that have its name. -/
theorem Disk.consistent_again : ∃ disk : Disk, (Invocation.run ⟨.parse "a", .text, false, true⟩ disk).code = 0 ∧
    (Invocation.run ⟨.check ["a"], .json, true, false⟩ disk).code = 0 ∧
    (Invocation.run ⟨.check ["a", "b/.././a"], .json, true, false⟩ disk).code = 1 := by
  have hconsistent := Disk.consistent (fun _ => .ok (.file (.ok "\x7b \x7d")))
  have hparse : (Invocation.run ⟨.parse "a", .text, false, true⟩ (fun _ => .ok (.file (.ok "\x7b \x7d")))).code = 0 := by
    decide +kernel
  have hcheck := (hconsistent.parse "a" (fun _ hentry => by cases hentry; rfl) _ ⟨.check ["a"], .json, true, false⟩ .debug rfl rfl).1 hparse
  have hagain : ¬AllAccepted [("a", .ok "\x7b \x7d"), ("b/.././a", .ok "\x7b \x7d")] := by
    intro haccepted
    refine (haccepted 1 _ rfl).2 ⟨("a", .ok "\x7b \x7d"), List.mem_singleton_self _, ?_, _, rfl, ?_⟩
    · decide +kernel
    · decide +kernel
  have htells := hconsistent.check ⟨.check ["a", "b/.././a"], .json, true, false⟩ .debug _ _ rfl rfl
  exact ⟨_, hparse, hcheck, (code_run _ _ _).resolve_left (fun hcode => hagain (htells.code.1 hcode))⟩

end Courier
