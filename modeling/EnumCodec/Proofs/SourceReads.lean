import EnumCodec.Proofs.FolderPaths
import EnumCodec.Proofs.HandedFiles
import EnumCodec.Proofs.LoadedPackages
import EnumCodec.Proofs.OutputPaths
import Mathlib

/-!
# What a job reads

A job asks for the source files of its directory before it hands over its first file.  The answers
come from a `Reader`, which may take into account all that was done before.

* `Reader.Takes`, `Reader.Refuses` — files that are read one after the other, and why reading stops.
* `Reader.step_ok`, `Reader.step_error` — one more file.
* `Rehearsal.outcome_readSources` — all files of a directory.
* `quiet_generateTypes` — nothing is read when files are handed over.
* `Rehearsal.reads_of_run` — what a job reads, and when.
-/

set_option autoImplicit false

namespace EnumCodec

/-! ## Readers -/

/-- What answers when source files are asked for, whatever was done before. -/
abbrev Reader := Record → String → Except SystemError String

/-- The record of a run that has asked for source files. -/
def asked (paths : List String) : Record := paths.map .sourceRead

theorem asked_append (paths more : List String) : asked (paths ++ more) = asked paths ++ asked more :=
  List.map_append

namespace Rehearsal

/-- Asks a reader for a source file, which is taken down. -/
def readFrom (reader : Reader) (path : String) : StateM Record (Except SystemError String) := do
  let record ← get
  note (.sourceRead path)
  return reader record path

/-- The host that gives the answers of a rehearsal, but for the source files, which are those of a
reader, and hands all files to a sink. -/
def hostWith (r : Rehearsal) (reader : Reader) (sink : Sink) : Host (StateM Record) :=
  { r.hostInto sink with readSource := readFrom reader }

/-- A rehearsal has the same source files whenever it is asked. -/
theorem hostInto_eq_hostWith (r : Rehearsal) (sink : Sink) :
    r.hostInto sink = r.hostWith (fun _ => r.readSource) sink := rfl

/-- The settings of a directory, if it has a file with settings. -/
def settings (r : Rehearsal) (dir : String) : Except Failure (Option Settings) :=
  (Run.outcome [] (Settings.load r.host dir)).1

end Rehearsal

namespace Reader

/-- The files can be read one after the other, and these are the ones among them that belong to the
package: all but those that no build takes in. -/
inductive Takes (reader : Reader) : List String → List SourceFile → Prop
  | none : Takes reader [] []
  | ignored {before : List String} {files : List SourceFile} {path text : String}
      (earlier : Takes reader before files) (read : reader (asked before) path = .ok text)
      (left_out : isBuildIgnored text = true) : Takes reader (before ++ [path]) files
  | file {before : List String} {files : List SourceFile} {path text : String} {file : SourceFile}
      (earlier : Takes reader before files) (read : reader (asked before) path = .ok text)
      (built : isBuildIgnored text = false) (parsed : SourceFile.ofText path text = .ok file)
      (same : ∀ first ∈ files.head?, first.package.name = file.package.name) :
      Takes reader (before ++ [path]) (files ++ [file])

/-- Why reading stops at a file, after those before it were read: it cannot be read, it cannot be
parsed, or it belongs to another package. -/
inductive Refuses (reader : Reader) (dir : String) (before : List String) (files : List SourceFile)
    (path : String) : Failure → Prop
  | unread {e : SystemError} (read : reader (asked before) path = .error e) :
      Refuses reader dir before files path (.ofFile path e)
  | unparsed {text : String} {e : SyntaxError} (read : reader (asked before) path = .ok text)
      (built : isBuildIgnored text = false) (parsed : SourceFile.ofText path text = .error e) :
      Refuses reader dir before files path (.ofSource ⟨e, path⟩)
  | foreign {text : String} {first file : SourceFile} (read : reader (asked before) path = .ok text)
      (built : isBuildIgnored text = false) (parsed : SourceFile.ofText path text = .ok file)
      (head : files.head? = some first) (other : first.package.name ≠ file.package.name) :
      Refuses reader dir before files path
        (.mixedPackages dir first.package.name first.path file.package.name file.path)

/-- Reads one more file. -/
def step (reader : Reader) (dir : String) (before : List String) (files : List SourceFile)
    (path : String) : Except Failure (List SourceFile) :=
  match reader (asked before) path with
  | .error e => .error (.ofFile path e)
  | .ok text => addSource dir files path text

variable {reader : Reader} {dir path : String} {before : List String} {files : List SourceFile}

theorem step_ok {after : List SourceFile} (taken : reader.Takes before files)
    (h : reader.step dir before files path = .ok after) : reader.Takes (before ++ [path]) after := by
  unfold step at h
  split at h
  · cases h
  rename_i text read
  unfold addSource at h
  split at h
  · rename_i left_out
    cases h
    exact .ignored taken read left_out
  rename_i built
  rw [Bool.not_eq_true] at built
  split at h
  · cases h
  rename_i file parsed
  cases files with
  | nil =>
    cases h
    exact .file taken read built parsed (by simp)
  | cons first files =>
    dsimp only at h
    split at h <;> cases h
    exact .file taken read built parsed (by simpa)

theorem step_error {e : Failure} (h : reader.step dir before files path = .error e) :
    reader.Refuses dir before files path e := by
  unfold step at h
  split at h
  · rename_i refusal read
    cases h
    exact .unread read
  rename_i text read
  unfold addSource at h
  split at h
  · cases h
  rename_i built
  rw [Bool.not_eq_true] at built
  split at h
  · rename_i problem parsed
    cases h
    exact .unparsed read built parsed
  rename_i file parsed
  cases files with
  | nil => cases h
  | cons first files =>
    dsimp only at h
    split at h <;> cases h
    exact .foreign read built parsed rfl ‹_›

end Reader

/-! ## Reading -/

namespace Rehearsal

variable {r : Rehearsal} {reader : Reader} {sink : Sink} {dir : String} {before : List String}
  {files : List SourceFile}

theorem outcome_settings (r : Rehearsal) (reader : Reader) (sink : Sink) (dir : String)
    (record : Record) :
    Run.outcome record (Settings.load (r.hostWith reader sink) dir) = (r.settings dir, record) := by
  have same : Settings.load (r.hostWith reader sink) dir = Settings.load r.host dir := rfl
  have there : ∀ record : Record, Run.outcome record
      (liftM (r.host.hasPath (Path.join dir Settings.fileName)))
        = (.ok (r.hasPath (Path.join dir Settings.fileName)), record) := fun _ => rfl
  have text : ∀ record : Record, Run.answer record (r.host.read (Path.join dir Settings.fileName))
        = (r.read (Path.join dir Settings.fileName), record) := fun _ => rfl
  rw [same]
  simp only [settings, Settings.load, Run.outcome_bind, there]
  cases r.hasPath (Path.join dir Settings.fileName) with
  | false => rfl
  | true =>
    simp only [if_true, Run.outcome_bind, Run.outcome_ask, text]
    cases r.read (Path.join dir Settings.fileName) with
    | error e => rfl
    | ok source =>
      simp only [Except.mapError]
      cases Settings.ofText source <;> rfl

/-- One file is asked for, and then the others are if it is taken. -/
theorem outcome_readSources_cons (r : Rehearsal) (reader : Reader) (sink : Sink) (dir path : String)
    (paths before : List String) (files : List SourceFile) :
    Run.outcome (asked before) (readSources (r.hostWith reader sink) dir (path :: paths) files) =
      match reader.step dir before files path with
      | .error e => (.error e, asked (before ++ [path]))
      | .ok files => Run.outcome (asked (before ++ [path]))
          (readSources (r.hostWith reader sink) dir paths files) := by
  have answer : Run.answer (asked before) ((r.hostWith reader sink).readSource path)
      = (reader (asked before) path, asked (before ++ [path])) := by
    rw [asked_append]
    rfl
  rw [readSources, Run.outcome_bind, Run.outcome_ask, answer, Reader.step]
  cases reader (asked before) path with
  | error e => rfl
  | ok text =>
    simp only [Except.mapError, Run.outcome_bind, Run.outcome_settled]
    cases addSource dir files path text <;> rfl

/-- **Files are asked for one after the other**, up to the first one that is refused. -/
theorem outcome_readSources (r : Rehearsal) (dir : String) (paths : List String)
    (taken : reader.Takes before files) :
    (∃ after, reader.Takes (before ++ paths) after ∧ ∀ sink,
      Run.outcome (asked before) (readSources (r.hostWith reader sink) dir paths files)
        = (.ok after, asked (before ++ paths))) ∨
    ∃ done path rest files' e, paths = done ++ path :: rest ∧
      reader.Takes (before ++ done) files' ∧ reader.Refuses dir (before ++ done) files' path e ∧
      ∀ sink, Run.outcome (asked before) (readSources (r.hostWith reader sink) dir paths files)
        = (.error e, asked (before ++ done ++ [path])) := by
  induction paths generalizing before files with
  | nil => exact .inl ⟨files, by simpa using taken, fun _ => by simp [readSources]⟩
  | cons path paths ih =>
    simp only [outcome_readSources_cons]
    cases next : reader.step dir before files path with
    | error e =>
      refine .inr ⟨[], path, paths, files, e, rfl, ?_, ?_, fun _ => by simp⟩
      · simpa using taken
      · simpa using Reader.step_error next
    | ok after =>
      obtain ⟨last, all, ran⟩ | ⟨done, stop, rest, files', e, rfl, all, refused, ran⟩ :=
        ih (Reader.step_ok taken next)
      · exact .inl ⟨last, by simpa using all, fun sink => by simpa using ran sink⟩
      · exact .inr ⟨path :: done, stop, rest, files', e, rfl, by simpa using all,
          by simpa using refused, fun sink => by simpa using ran sink⟩

/-- What is asked for when the settings and the package of a directory are read, and what comes of
it. -/
inductive Reads (r : Rehearsal) (reader : Reader) (dir : String) :
    List String → Except Failure Package → Prop
  | unset {e : Failure} (settings : r.settings dir = .error e) : Reads r reader dir [] (.error e)
  | unlisted {found : Option Settings} {e : SystemError} (settings : r.settings dir = .ok found)
      (list : r.list dir = .error e) : Reads r reader dir [] (.error (.io dir (.listing dir e)))
  | stopped {found : Option Settings} {entries : List DirEntry} {before after : List String}
      {path : String} {files : List SourceFile} {e : Failure} (settings : r.settings dir = .ok found)
      (list : r.list dir = .ok entries) (split : sourcePaths dir entries = before ++ path :: after)
      (taken : reader.Takes before files) (refused : reader.Refuses dir before files path e) :
      Reads r reader dir (before ++ [path]) (.error e)
  | finished {found : Option Settings} {entries : List DirEntry} {files : List SourceFile}
      (settings : r.settings dir = .ok found) (list : r.list dir = .ok entries)
      (taken : reader.Takes (sourcePaths dir entries) files) :
      Reads r reader dir (sourcePaths dir entries) (Package.ofFiles dir files)

/-- The directory is listed, and then its source files are asked for. -/
theorem outcome_load_list (r : Rehearsal) (reader : Reader) (sink : Sink) (dir : String) :
    Run.outcome [] (Package.load (r.hostWith reader sink) dir) =
      match r.list dir with
      | .error e => (.error (.io dir (.listing dir e)), asked [])
      | .ok entries => Run.outcome (asked []) (readSources (r.hostWith reader sink) dir
          (sourcePaths dir entries) [] >>= fun files => Run.settled (Package.ofFiles dir files)) := by
  have listed : Run.answer [] ((r.hostWith reader sink).list dir) = (r.list dir, []) := rfl
  rw [Package.load, listSources, bind_assoc, Run.outcome_bind, Run.outcome_ask, listed]
  cases r.list dir <;> rfl

/-- The source files that are asked for do not depend on what takes the files of a job. -/
theorem outcome_load (r : Rehearsal) (reader : Reader) (dir : String) {found : Option Settings}
    (settings : r.settings dir = .ok found) :
    ∃ paths result, r.Reads reader dir paths result ∧ ∀ sink,
      Run.outcome [] (Package.load (r.hostWith reader sink) dir) = (result, asked paths) := by
  cases list : r.list dir with
  | error e => exact ⟨[], _, .unlisted settings list, fun sink => by rw [outcome_load_list, list]⟩
  | ok entries =>
    obtain ⟨after, taken, ran⟩ | ⟨done, path, rest, files, e, split, taken, refused, ran⟩ :=
      r.outcome_readSources dir (sourcePaths dir entries) (Reader.Takes.none : reader.Takes [] [])
    · refine ⟨_, _, .finished settings list taken, fun sink => ?_⟩
      rw [outcome_load_list, list]
      dsimp only
      rw [Run.outcome_bind, ran]
      rfl
    · refine ⟨_, _, .stopped settings list split taken refused, fun sink => ?_⟩
      rw [outcome_load_list, list]
      dsimp only
      rw [Run.outcome_bind, ran]
      rfl

/-- **The setup of a job asks for the source files of its directory**, whatever its types are. -/
theorem outcome_setup (r : Rehearsal) (reader : Reader) (dir : String) :
    ∃ paths result, r.Reads reader dir paths result ∧ ∀ (sink : Sink) (job : Job),
      job.dir = dir → job.types ≠ [] →
        ∃ x, Run.outcome [] (job.setup (r.hostWith reader sink)) = (x, asked paths) ∧
          ∀ e, x = .error e ↔ result = .error e := by
  cases settings : r.settings dir with
  | error e =>
    refine ⟨[], _, .unset settings, ?_⟩
    rintro sink job rfl some
    refine ⟨.error e, ?_, fun _ => by simp⟩
    rw [Job.setup, if_neg (by simpa using some), Run.outcome_bind, outcome_settings, settings]
    rfl
  | ok found =>
    obtain ⟨paths, result, reads, ran⟩ := r.outcome_load reader dir settings
    refine ⟨paths, result, reads, ?_⟩
    rintro sink job rfl some
    rw [Job.setup, if_neg (by simpa using some), Run.outcome_bind, outcome_settings, settings]
    dsimp only
    rw [Run.outcome_bind, ran]
    cases result with
    | error e => exact ⟨_, rfl, fun _ => by simp⟩
    | ok package => exact ⟨_, rfl, fun _ => by simp⟩

end Rehearsal

/-! ## Handing over -/

/-- The step reads no source file, whatever it gives. -/
def Quiet {α : Type} (step : Run (StateM Record) α) : Prop :=
  ∀ record, ∃ more, (Run.outcome record step).2 = record ++ more ∧ Record.reads more = []

section

variable {α β : Type}

theorem Quiet.settled (x : Except Failure α) : Quiet (Run.settled x) :=
  fun record => ⟨[], (List.append_nil record).symm, rfl⟩

theorem Quiet.bind {step : Run (StateM Record) α} {next : α → Run (StateM Record) β}
    (h : Quiet step) (then_quiet : ∀ a, Quiet (next a)) : Quiet (step >>= next) := by
  intro record
  obtain ⟨more, eq, none⟩ := h record
  rw [Run.outcome_bind]
  cases first : Run.outcome record step with
  | mk x middle =>
    rw [first] at eq
    cases eq
    cases x with
    | error e => exact ⟨more, rfl, none⟩
    | ok a =>
      obtain ⟨later, eq', none'⟩ := then_quiet a (record ++ more)
      refine ⟨more ++ later, eq'.trans (List.append_assoc ..), ?_⟩
      rw [Record.reads, List.filterMap_append]
      exact List.append_eq_nil_iff.mpr ⟨none, none'⟩

namespace Rehearsal

variable {r : Rehearsal} {reader : Reader} {sink : Sink}

theorem quiet_formatted (options : Options) (typeName text : String) :
    Quiet (ExceptT.lift (formatted (r.hostWith reader sink) options typeName text)) := by
  intro record
  rw [Run.outcome_lift, formatted]
  cases options.format with
  | false => exact ⟨[], (List.append_nil record).symm, rfl⟩
  | true =>
    cases answer : r.format text with
    | formatted text | unavailable =>
      simp only [hostWith, hostInto, host, answer]
      exact ⟨[], (List.append_nil record).symm, rfl⟩
    | rejected message =>
      simp only [hostWith, hostInto, host, answer]
      exact ⟨[.warned _], rfl, rfl⟩

theorem quiet_write (path text : String) (blame : SystemError → Failure) :
    Quiet (Run.ask ((r.hostWith reader sink).write path text) blame) := by
  intro record
  have answer : Run.answer record ((r.hostWith reader sink).write path text) =
      Run.answer record ((r.hostInto sink).write path text) := rfl
  rw [Run.outcome_ask, answer, answer_write]
  cases sink record path text with
  | some e => exact ⟨[], (List.append_nil record).symm, rfl⟩
  | none => exact ⟨[.written path text], rfl, rfl⟩

/-- No source file is asked for when the files for types are handed over. -/
theorem quiet_generateTypes (package : Package) (options : Options) (command : String)
    (typeNames : List String) :
    Quiet (generateTypes (r.hostWith reader sink) package options command typeNames) := by
  induction typeNames with
  | nil => exact .settled (.ok [])
  | cons typeName typeNames ih =>
    have one : Quiet (generateType (r.hostWith reader sink) package options command typeName) :=
      Quiet.bind (.settled _) fun table => Quiet.bind (quiet_formatted _ _ _) fun text =>
        Quiet.bind (quiet_write _ _ _) fun _ => .settled (.ok _)
    exact Quiet.bind one fun file => Quiet.bind ih fun files => .settled (.ok _)

end Rehearsal

end

/-! ## Jobs -/

/-- The entries of a directory, as a system lists them: no name stands twice, and no name has a
slash. -/
structure IsListing (entries : List DirEntry) : Prop where
  distinct : (entries.map (·.name)).Nodup
  plain : ∀ e ∈ entries, '/' ∉ e.name.toList

/-- The names of the source files in a listing, in their order. -/
def sourceNames (entries : List DirEntry) : List String := (sortedSources entries).map (·.name)

namespace IsListing

variable {entries : List DirEntry}

theorem mem_sourceNames_iff {name : String} :
    name ∈ sourceNames entries ↔ ⟨name, .file⟩ ∈ entries ∧ isPackageSource name = true := by
  simp only [sourceNames, sortedSources, List.mem_map, List.mem_mergeSort, sourceEntries,
    List.mem_filter, DirEntry.isSource_iff]
  constructor
  · rintro ⟨⟨name, kind⟩, ⟨listed, rfl, isSource⟩, rfl⟩
    exact ⟨listed, isSource⟩
  · rintro ⟨listed, isSource⟩
    exact ⟨_, ⟨listed, rfl, isSource⟩, rfl⟩

theorem nodup_sourcePaths (h : IsListing entries) (dir : String) :
    (sourcePaths dir entries).Nodup := by
  rw [sourcePaths_eq, ← sortedSources, List.Nodup, List.pairwise_map]
  have distinct := names_before h.distinct
  have plain : ∀ e ∈ sortedSources entries, Path.isAbsolute e.name = false := fun e he =>
    FileTree.isAbsolute_of_noSlash (h.plain e (List.mem_filter.mp (List.mem_mergeSort.mp he)).1)
  refine distinct.imp_of_mem fun {a b} ha hb before eq => ?_
  rw [(Path.join_eq_iff ((plain a ha).trans (plain b hb).symm)).mp eq] at before
  exact List.lt_irrefl _ before

end IsListing

namespace Rehearsal

variable {r : Rehearsal} {reader : Reader} {dir : String} {paths : List String}
  {result : Except Failure Package} {entries : List DirEntry}

theorem Reads.isPrefix (h : r.Reads reader dir paths result) (list : r.list dir = .ok entries) :
    paths <+: sourcePaths dir entries := by
  cases h with
  | unset | unlisted => exact List.nil_prefix
  | stopped _ list' split =>
    obtain rfl := Except.ok.inj (list'.symm.trans list)
    exact ⟨_, by rw [split, List.append_assoc, List.singleton_append]⟩
  | finished _ list' =>
    obtain rfl := Except.ok.inj (list'.symm.trans list)
    exact List.prefix_rfl

/-- No package comes of a directory of which not all source files are read. -/
theorem Reads.eq_of_ok {p : Package} (h : r.Reads reader dir paths (.ok p))
    (list : r.list dir = .ok entries) : paths = sourcePaths dir entries := by
  generalize outcome : Except.ok p = result at h
  cases h with
  | unset | unlisted | stopped => cases outcome
  | finished _ list' => rw [Except.ok.inj (list'.symm.trans list)]

theorem Reads.nodup (h : r.Reads reader dir paths result)
    (listing : ∀ entries, r.list dir = .ok entries → IsListing entries) : paths.Nodup := by
  cases list : r.list dir with
  | error e =>
    cases h with
    | unset | unlisted => exact List.nodup_nil
    | stopped _ list' | finished _ list' => cases list'.symm.trans list
  | ok entries => exact (listing entries list).nodup_sourcePaths dir |>.sublist (h.isPrefix list).sublist

/-- **What a job reads, and when.**  The source files that a job asks for depend on its directory and
on the reader, and neither on its types nor on what takes its files.  They are the first ones in the
list of the source files of the directory, by strictly increasing names, and no file is asked for
twice: all of them, if there is a package, and otherwise those up to the first one that cannot be read,
cannot be parsed or belongs to another package; the job ends there.  All of this comes first in the
record of the job, so that nothing is read after a file was handed over. -/
theorem reads_of_run (r : Rehearsal) (reader : Reader) (dir : String)
    (listing : ∀ entries, r.list dir = .ok entries → IsListing entries) :
    ∃ paths result, r.Reads reader dir paths result ∧ paths.Nodup ∧
      (∀ entries, r.list dir = .ok entries →
        paths <+: sourcePaths dir entries ∧
        (∀ p, result = .ok p → paths = sourcePaths dir entries) ∧
        sourcePaths dir entries = (sourceNames entries).map (Path.join dir) ∧
        (sourceNames entries).Pairwise (fun a b => bytes a < bytes b) ∧
        ∀ name, name ∈ sourceNames entries ↔
          ⟨name, .file⟩ ∈ entries ∧ isPackageSource name = true) ∧
      ∀ (sink : Sink) (job : Job), job.dir = dir → job.types ≠ [] →
        (∃ more, (Run.outcome [] (job.run (r.hostWith reader sink))).2 = asked paths ++ more ∧
          Record.reads more = []) ∧
        ∀ e, result = .error e →
          Run.outcome [] (job.run (r.hostWith reader sink)) = (.error e, asked paths) := by
  obtain ⟨paths, result, reads, setup⟩ := r.outcome_setup reader dir
  refine ⟨paths, result, reads, reads.nodup listing, ?_, ?_⟩
  · intro entries list
    refine ⟨reads.isPrefix list, ?_, ?_, ?_, fun name => IsListing.mem_sourceNames_iff⟩
    · rintro p rfl
      exact reads.eq_of_ok list
    · rw [sourceNames, List.map_map]
      rfl
    · exact List.pairwise_map.mpr (names_before (listing entries list).distinct)
  · intro sink job hdir some
    obtain ⟨x, ran, failed⟩ := setup sink job hdir some
    rw [Job.run_eq_setup, Run.outcome_bind, ran]
    cases x with
    | error e =>
      refine ⟨⟨[], (List.append_nil _).symm, rfl⟩, fun e' he => ?_⟩
      obtain rfl := Except.error.inj ((failed e').mpr he)
      rfl
    | ok setup =>
      refine ⟨?_, fun e he => by cases (failed e).mpr he⟩
      exact Quiet.bind (quiet_generateTypes _ _ _ _) (fun files => .settled (.ok _)) (asked paths)

/-- A directory with two source files and a folder, and no settings. -/
def drawer : Rehearsal where
  hasPath _ := false
  list _ := .ok [⟨"red.go", .file⟩, ⟨"old", .folder⟩, ⟨"blue.go", .file⟩]
  read _ := .error .notFound
  readSource _ := .error .notFound
  refusal? _ := none
  format _ := .unavailable

/-- A reader that answers once. -/
def readsOnce : Reader := fun record _ =>
  if record.reads.isEmpty then .ok "package ink\nconst Red = 1\n" else .error .tooManyLinks

theorem reads_of_run_drawer :
    (∀ entries, drawer.list "ink" = .ok entries → IsListing entries) ∧
      ∃ paths result, drawer.Reads readsOnce "ink" paths result ∧ paths.Nodup ∧
        ∀ (sink : Sink) (job : Job), job.dir = "ink" → job.types ≠ [] →
          (∃ more, (Run.outcome [] (job.run (drawer.hostWith readsOnce sink))).2
              = asked paths ++ more ∧ Record.reads more = []) ∧
          ∀ e, result = .error e →
            Run.outcome [] (job.run (drawer.hostWith readsOnce sink)) = (.error e, asked paths) := by
  have listing : ∀ entries, drawer.list "ink" = .ok entries → IsListing entries := by
    rintro _ ⟨⟩
    exact ⟨by decide, by decide⟩
  obtain ⟨paths, result, reads, distinct, -, runs⟩ := reads_of_run drawer readsOnce "ink" listing
  exact ⟨listing, paths, result, reads, distinct, runs⟩

end Rehearsal

end EnumCodec
