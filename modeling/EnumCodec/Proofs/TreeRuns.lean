import EnumCodec.FileTree.Workspace
import EnumCodec.Proofs.Runs
import EnumCodec.Proofs.TreePaths
import Mathlib.Data.List.Forall2

/-!
# Runs on a tree of files

What a job does to a workspace, said of its tree.  Reading settings and packages changes nothing;
the files of a job are written where their paths led before the first of them was written
(`FileTree.filePlaceAt?_puts`), so that a run is the one list of its outputs on the tree it started
from.

Main statement: `Workspace.outcome_run_iff`, for jobs whose files are not formatted.
-/

set_option autoImplicit false

namespace EnumCodec

/-! ## What is read from a tree -/

namespace FileTree

/-- The settings of a directory, if it has a file with settings. -/
def settings (t : FileTree) (dir : String) : Except Failure (Option Settings) :=
  let path := Path.join dir Settings.fileName
  if t.hasPath path then
    match t.read path with
    | .error e => .error (.ofFile path e)
    | .ok source =>
      match Settings.ofText source with
      | .error text => .error (.config path text)
      | .ok settings => .ok (some settings)
  else .ok none

/-- The source file at a path, unless it is left out of builds. -/
def sourceAt (t : FileTree) (path : String) : Except Failure (Option SourceFile) :=
  match t.read path with
  | .error e => .error (.ofFile path e)
  | .ok text =>
    if isBuildIgnored text then .ok none
    else
      match SourceFile.ofText path text with
      | .error e => .error (.ofSource ⟨e, path⟩)
      | .ok file => .ok (some file)

/-- The source files at some paths, those left out that cannot be read or built. -/
def sourcesAt (t : FileTree) (paths : List String) : List SourceFile :=
  paths.filterMap fun path => (t.sourceAt path).toOption.join

theorem sourcesAt_cons {t : FileTree} {path : String} {source : Option SourceFile}
    (h : t.sourceAt path = .ok source) (paths : List String) :
    t.sourcesAt (path :: paths) = source.toList ++ t.sourcesAt paths := by
  cases source <;> simp [sourcesAt, h, Except.toOption]

end FileTree

/-- All files say that they belong to one package. -/
def OnePackage (files : List SourceFile) : Prop :=
  ∀ f ∈ files, ∀ g ∈ files, f.package.name = g.package.name

theorem OnePackage.snoc_iff {files : List SourceFile} {first file : SourceFile} (one : OnePackage files)
    (hfirst : first ∈ files) :
    OnePackage (files ++ [file]) ↔ first.package.name = file.package.name := by
  constructor
  · exact fun h => h first (by simp [hfirst]) file (by simp)
  · intro same f hf g hg
    rcases List.mem_append.mp hf with hf | hf <;> rcases List.mem_append.mp hg with hg | hg
    · exact one f hf g hg
    · rw [List.mem_singleton.mp hg, ← same, one f hf first hfirst]
    · rw [List.mem_singleton.mp hf, ← same, one first hfirst g hg]
    · rw [List.mem_singleton.mp hf, List.mem_singleton.mp hg]

theorem OnePackage.of_append {files more : List SourceFile} (h : OnePackage (files ++ more)) :
    OnePackage files :=
  fun f hf g hg => h f (List.mem_append_left _ hf) g (List.mem_append_left _ hg)

/-- The source files among the entries of a directory make up a package. -/
structure FileTree.HasPackage (t : FileTree) (dir : String) (entries : List DirEntry)
    (p : Package) : Prop where
  listed : t.list dir = .ok entries
  readable : ∀ path ∈ sourcePaths dir entries, ∃ source, t.sourceAt path = .ok source
  onePackage : OnePackage (t.sourcesAt (sourcePaths dir entries))
  ofFiles : Package.ofFiles dir (t.sourcesAt (sourcePaths dir entries)) = .ok p

/-! ## Steps -/

namespace Workspace

variable {α β : Type} {w w' : Workspace} {format : String → FormatOutcome}

/-- What a step gives in a workspace, and the workspace after it. -/
def outcome (w : Workspace) (step : Run (StateM Workspace) α) : Except Failure α × Workspace :=
  step.run.run w

@[simp] theorem outcome_pure (w : Workspace) (a : α) : w.outcome (pure a) = (.ok a, w) := rfl

@[simp] theorem outcome_throw (w : Workspace) (e : Failure) :
    w.outcome (throw e : Run (StateM Workspace) α) = (.error e, w) := rfl

@[simp] theorem outcome_settled (w : Workspace) (x : Except Failure α) :
    w.outcome (Run.settled x) = (x, w) := rfl

theorem outcome_bind (w : Workspace) (step : Run (StateM Workspace) α)
    (next : α → Run (StateM Workspace) β) :
    w.outcome (step >>= next) =
      match w.outcome step with
      | (.ok a, w) => w.outcome (next a)
      | (.error e, w) => (.error e, w) := by
  simp only [outcome, ExceptT.run_bind, StateT.run_bind]
  generalize step.run.run w = result
  obtain ⟨x, w⟩ := result
  cases x <;> rfl

/-- A step that is followed by another one succeeds if both do. -/
theorem outcome_bind_ok_iff {step : Run (StateM Workspace) α}
    {next : α → Run (StateM Workspace) β} {b : β} :
    w.outcome (step >>= next) = (.ok b, w') ↔
      ∃ a middle, w.outcome step = (.ok a, middle) ∧ middle.outcome (next a) = (.ok b, w') :=
  Run.outcome_bind_ok_iff

theorem outcome_ask (w : Workspace) (question : StateM Workspace (Except SystemError α))
    (blame : SystemError → Failure) :
    w.outcome (Run.ask question blame)
      = ((question.run w).1.mapError blame, (question.run w).2) :=
  Run.outcome_ask w question blame

@[simp] theorem outcome_ask_read (w : Workspace) (path : String) (blame : SystemError → Failure) :
    w.outcome (Run.ask ((host format).read path) blame)
      = ((w.tree.read path).mapError blame, w) := outcome_ask ..

@[simp] theorem outcome_ask_readSource (w : Workspace) (path : String)
    (blame : SystemError → Failure) :
    w.outcome (Run.ask ((host format).readSource path) blame)
      = ((w.tree.read path).mapError blame, w) := outcome_ask ..

@[simp] theorem outcome_ask_list (w : Workspace) (path : String) (blame : SystemError → Failure) :
    w.outcome (Run.ask ((host format).list path) blame)
      = ((w.tree.list path).mapError blame, w) := outcome_ask ..

/-! ## Settings and packages -/

theorem outcome_settings (w : Workspace) (dir : String) :
    w.outcome (Settings.load (host format) dir) = (w.tree.settings dir, w) := by
  have asked : w.outcome (liftM ((host format).hasPath (Path.join dir Settings.fileName)))
      = (.ok (w.tree.hasPath (Path.join dir Settings.fileName)), w) := rfl
  simp only [Settings.load, FileTree.settings, outcome_bind, asked]
  cases w.tree.hasPath (Path.join dir Settings.fileName) with
  | false => rfl
  | true =>
    simp only [if_true, outcome_bind, outcome_ask_read]
    cases w.tree.read (Path.join dir Settings.fileName) with
    | error e => rfl
    | ok source =>
      simp only [Except.mapError]
      cases Settings.ofText source <;> rfl

/-- One more file is read. -/
theorem addSource_ok_iff {t : FileTree} {dir path text : String} {files after : List SourceFile}
    (read : t.read path = .ok text) (one : OnePackage files) :
    addSource dir files path text = .ok after ↔
      ∃ source, t.sourceAt path = .ok source ∧ after = files ++ source.toList ∧ OnePackage after := by
  simp only [addSource, FileTree.sourceAt, read]
  cases isBuildIgnored text with
  | true =>
    simp only [if_true, Except.ok.injEq, exists_eq_left', Option.toList_none, List.append_nil]
    exact ⟨fun h => ⟨h.symm, h ▸ one⟩, fun h => h.1.symm⟩
  | false =>
    cases SourceFile.ofText path text with
    | error e => simp
    | ok file =>
      simp only [Bool.false_eq_true, if_false, Except.ok.injEq, exists_eq_left',
        Option.toList_some]
      cases files with
      | nil =>
        have alone : OnePackage [file] := fun f hf g hg => by
          rw [List.mem_singleton.mp hf, List.mem_singleton.mp hg]
        exact ⟨fun h => by cases h; exact ⟨rfl, alone⟩, fun h => by rw [h.1]; rfl⟩
      | cons first files =>
        have same := @OnePackage.snoc_iff _ first file one List.mem_cons_self
        dsimp only
        by_cases eq : first.package.name = file.package.name
        · rw [if_pos eq, Except.ok.injEq]
          exact ⟨fun h => ⟨h.symm, h ▸ same.mpr eq⟩, fun h => h.1.symm⟩
        · rw [if_neg eq]
          refine ⟨fun h => (by cases h), ?_⟩
          rintro ⟨rfl, h⟩
          exact absurd (same.mp h) eq

/-- Files are read one after the other. -/
theorem outcome_readSources_iff {dir : String} {paths : List String}
    {files after : List SourceFile} (one : OnePackage files) :
    w.outcome (readSources (host format) dir paths files) = (.ok after, w') ↔
      w' = w ∧ (∀ path ∈ paths, ∃ source, w.tree.sourceAt path = .ok source) ∧
        after = files ++ w.tree.sourcesAt paths ∧ OnePackage after := by
  induction paths generalizing files with
  | nil =>
    simp only [readSources, outcome_pure, Prod.mk.injEq, Except.ok.injEq, FileTree.sourcesAt,
      List.filterMap_nil, List.append_nil]
    constructor
    · rintro ⟨rfl, rfl⟩
      exact ⟨rfl, List.forall_mem_nil _, rfl, one⟩
    · rintro ⟨rfl, -, rfl, -⟩
      exact ⟨rfl, rfl⟩
  | cons path paths ih =>
    rw [readSources, outcome_bind, outcome_ask_readSource, List.forall_mem_cons]
    cases read : w.tree.read path with
    | error e => simp [Except.mapError, FileTree.sourceAt, read]
    | ok text =>
      simp only [Except.mapError, outcome_bind_ok_iff, outcome_settled, Prod.mk.injEq]
      constructor
      · rintro ⟨files', _, ⟨added, rfl⟩, more⟩
        obtain ⟨source, found, rfl, one'⟩ := (addSource_ok_iff read one).mp added
        obtain ⟨rfl, rest, rfl, all⟩ := (ih one').mp more
        rw [List.append_assoc, ← FileTree.sourcesAt_cons found] at all ⊢
        exact ⟨rfl, ⟨⟨source, found⟩, rest⟩, rfl, all⟩
      · rintro ⟨rfl, ⟨⟨source, found⟩, rest⟩, rfl, all⟩
        have eq : files ++ w'.tree.sourcesAt (path :: paths)
            = files ++ source.toList ++ w'.tree.sourcesAt paths := by
          rw [FileTree.sourcesAt_cons found, List.append_assoc]
        have one' : OnePackage (files ++ source.toList) := OnePackage.of_append (eq ▸ all)
        exact ⟨_, _, ⟨(addSource_ok_iff read one).mpr ⟨source, found, rfl, one'⟩, rfl⟩,
          (ih one').mpr ⟨rfl, rest, eq, all⟩⟩

theorem outcome_load_iff {dir : String} {p : Package} :
    w.outcome (Package.load (host format) dir) = (.ok p, w') ↔
      w' = w ∧ ∃ entries, w.tree.HasPackage dir entries p := by
  have none : OnePackage [] := fun _ hf => (by cases hf)
  rw [Package.load, listSources, bind_assoc, outcome_bind, outcome_ask_list]
  cases list : w.tree.list dir with
  | error e =>
    refine ⟨fun h => (by cases h), ?_⟩
    rintro ⟨-, entries, h⟩
    rw [h.listed] at list
    cases list
  | ok entries =>
    simp only [Except.mapError, pure_bind, outcome_bind_ok_iff, outcome_readSources_iff none,
      outcome_settled, Prod.mk.injEq, List.nil_append]
    constructor
    · rintro ⟨files, _, ⟨rfl, readable, rfl, one⟩, isOf, rfl⟩
      exact ⟨rfl, entries, ⟨list, readable, one, isOf⟩⟩
    · rintro ⟨rfl, entries', h⟩
      obtain rfl : entries = entries' := Except.ok.inj (list.symm.trans h.listed)
      exact ⟨_, _, ⟨rfl, h.readable, rfl, h.onePackage⟩, h.ofFiles, rfl⟩

end Workspace

/-! ## Files that are written -/

/-- A file to write, and the place it is written to. -/
structure Output where
  file : WrittenFile
  place : Location
  text : String

/-- The place and the text of an output. -/
def Output.write (o : Output) : Location × String := (o.place, o.text)

namespace FileTree

variable {t : FileTree} {place : Location} {path : String}

/-- The place of the file that a path leads to, or of one that is to be made there. -/
def filePlaceAt? (t : FileTree) (purpose : Purpose) (path : String) : Option Location :=
  match t.resolve purpose path with
  | .ok d => d.filePlace?
  | .error _ => none

theorem filePlaceAt?_eq_some_iff {purpose : Purpose} :
    t.filePlaceAt? purpose path = some place ↔
      ∃ d, t.resolve purpose path = .ok d ∧ d.filePlace? = some place := by
  unfold filePlaceAt?
  cases t.resolve purpose path <;> simp

theorem isFilePlace_of_filePlaceAt? {purpose : Purpose}
    (h : t.filePlaceAt? purpose path = some place) : t.IsFilePlace place := by
  obtain ⟨d, leads, placed⟩ := filePlaceAt?_eq_some_iff.mp h
  exact resolve_filePlace leads placed

/-- A file that is written changes no place that a path leads to. -/
theorem filePlaceAt?_puts {written : List (Location × String)}
    (h : ∀ w ∈ written, t.IsFilePlace w.1) (purpose : Purpose) (path : String) :
    (t.puts written).filePlaceAt? purpose path = t.filePlaceAt? purpose path := by
  refine Option.ext fun place => ?_
  simp only [filePlaceAt?_eq_some_iff, resolve_puts_ok_iff h]
  constructor
  · rintro ⟨_, ⟨d, leads, rfl⟩, placed⟩
    exact ⟨d, leads, by rwa [Destination.filePlace?_afterWrites] at placed⟩
  · rintro ⟨d, leads, placed⟩
    exact ⟨_, ⟨d, leads, rfl⟩, by rwa [Destination.filePlace?_afterWrites]⟩

end FileTree

/-- The output for a type of a package, on a tree. -/
structure IsOutput (t : FileTree) (p : Package) (options : Options) (command typeName : String)
    (o : Output) : Prop where
  table : p.valueTable typeName options.policy = .ok o.file.table
  file : o.file = ⟨typeName, Path.join p.dir (outputName options.front typeName options.back),
    o.file.table, false⟩
  place : t.filePlaceAt? .write o.file.path = some o.place
  text : o.text = (Generated.mk command p.name [o.file.table.enumNames]).text

section Output

variable {t : FileTree} {p : Package} {options : Options} {command typeName : String} {o : Output}

theorem IsOutput.isFilePlace (h : IsOutput t p options command typeName o) :
    t.IsFilePlace o.place :=
  FileTree.isFilePlace_of_filePlaceAt? h.place

/-- The outputs on a tree are those on a tree after files have been written. -/
theorem isOutput_puts_iff {written : List (Location × String)}
    (h : ∀ w ∈ written, t.IsFilePlace w.1) :
    IsOutput (t.puts written) p options command typeName o ↔
      IsOutput t p options command typeName o := by
  constructor
  · rintro ⟨table, file, place, text⟩
    exact ⟨table, file, by rwa [FileTree.filePlaceAt?_puts h] at place, text⟩
  · rintro ⟨table, file, place, text⟩
    exact ⟨table, file, by rwa [FileTree.filePlaceAt?_puts h], text⟩

end Output

/-- The options of a job in a directory with some settings. -/
def Job.options (job : Job) (settings : Option Settings) : Options :=
  (settings.getD Settings.empty).resolve job.overrides

namespace Workspace

variable {w w' : Workspace} {format : String → FormatOutcome} {p : Package} {options : Options}
  {command : String}

theorem format_host (format : String → FormatOutcome) (text : String) :
    (host format).format text = pure (format text) := rfl

theorem answer_write (w : Workspace) (path text : String) :
    Run.answer w ((host format).write path text) =
      match w.tree.write path text with
      | .error e => (.error e, w)
      | .ok tree => (.ok (), { w with tree := tree }) := by
  unfold Run.answer host write
  cases h : w.tree.write path text <;> simp [h] <;> rfl

/-- A file is written where its path leads. -/
theorem answer_write_ok_iff {path text : String} :
    Run.answer w ((host format).write path text) = (.ok (), w') ↔
      ∃ place, w.tree.filePlaceAt? .write path = some place ∧
        w' = { w with tree := w.tree.put place (.file text.toUTF8) } := by
  have written : Run.answer w ((host format).write path text) = (.ok (), w') ↔
      ∃ tree, w.tree.write path text = .ok tree ∧ w' = { w with tree := tree } := by
    rw [answer_write]
    cases w.tree.write path text <;> simp [eq_comm]
  simp only [written, FileTree.write_ok_iff, FileTree.filePlaceAt?_eq_some_iff]
  constructor
  · rintro ⟨_, ⟨d, place, leads, placed, rfl⟩, rfl⟩
    exact ⟨place, ⟨d, leads, placed⟩, rfl⟩
  · rintro ⟨place, ⟨d, leads, placed⟩, rfl⟩
    exact ⟨_, ⟨d, place, leads, placed, rfl⟩, rfl⟩

theorem formattedState_of_unformatted {setup : Setup} (unformatted : setup.options.format = false)
    (d : Delivery) (w : Workspace) : setup.formattedState (host format) d w = w := by
  simp only [Setup.formattedState, formatted, unformatted]
  rfl

theorem outcome_generateType_iff (unformatted : options.format = false) {typeName : String}
    {file : WrittenFile} :
    w.outcome (generateType (host format) p options command typeName) = (.ok file, w') ↔
      ∃ o, IsOutput w.tree p options command typeName o ∧ file = o.file ∧
        w' = { w with tree := w.tree.put o.place (.file o.text.toUTF8) } := by
  have same : ∀ text, finished format options text = (text, false) := fun text => by
    simp [finished, unformatted]
  refine Iff.trans
    (@Setup.outcome_generateOne_ok_iff ⟨p, options, command⟩ format typeName _ (host format) w w'
      (format_host format) file) ?_
  have kept := @formattedState_of_unformatted format ⟨p, options, command⟩ unformatted
  simp only [Setup.delivery_ok_iff, kept, answer_write_ok_iff]
  constructor
  · rintro ⟨_, ⟨table, found, rfl⟩, rfl, place, leads, rfl⟩
    simp only [Setup.deliveryOf, Setup.rendered, Setup.path, same] at leads ⊢
    obtain ⟨text, htext⟩ : ∃ text,
        text = (Generated.mk command p.name [table.enumNames]).text := ⟨_, rfl⟩
    rw [← htext]
    refine ⟨⟨⟨typeName, _, table, false⟩, place, text⟩, ?_, rfl, rfl⟩
    exact ⟨found, rfl, by simpa only using leads, htext⟩
  · rintro ⟨o, h, rfl, rfl⟩
    refine ⟨_, ⟨o.file.table, h.table, rfl⟩, ?_, o.place, ?_, ?_⟩
    · simp only [Setup.deliveryOf, Setup.path, same]
      exact h.file
    · simp only [Setup.deliveryOf, Setup.path]
      rw [← h.place, h.file]
    · simp only [Setup.deliveryOf, Setup.rendered, same, h.text]

/-- The files for types are written one after the other, each where its path leads at the start. -/
theorem outcome_generateTypes_iff (unformatted : options.format = false) {typeNames : List String}
    {files : List WrittenFile} :
    w.outcome (generateTypes (host format) p options command typeNames) = (.ok files, w') ↔
      ∃ outputs, List.Forall₂ (IsOutput w.tree p options command) typeNames outputs ∧
        files = outputs.map Output.file ∧
        w' = { w with tree := w.tree.puts (outputs.map Output.write) } := by
  induction typeNames generalizing w w' files with
  | nil =>
    simp only [generateTypes, outcome_pure, Prod.mk.injEq, Except.ok.injEq,
      List.forall₂_nil_left_iff, exists_eq_left]
    exact ⟨fun h => ⟨h.1.symm, h.2.symm⟩, fun h => ⟨h.1.symm, h.2.symm⟩⟩
  | cons typeName typeNames ih =>
    have same : ∀ {o o' : Output} {typeName typeName' : String},
        IsOutput w.tree p options command typeName o →
        (IsOutput (w.tree.put o.place (.file o.text.toUTF8)) p options command typeName' o' ↔
          IsOutput w.tree p options command typeName' o') :=
      fun first => @isOutput_puts_iff _ _ _ _ _ _ [Output.write _]
        (List.forall_mem_singleton.mpr first.isFilePlace)
    simp only [generateTypes, outcome_bind_ok_iff, outcome_generateType_iff unformatted,
      outcome_pure, ih, Prod.mk.injEq, Except.ok.injEq, List.forall₂_cons_left_iff]
    constructor
    · rintro ⟨_, _, ⟨o, first, rfl, rfl⟩, _, _, ⟨outputs, more, rfl, rfl⟩, rfl, rfl⟩
      exact ⟨o :: outputs, ⟨o, outputs, first, more.imp fun _ _ h => (same first).mp h, rfl⟩,
        rfl, rfl⟩
    · rintro ⟨_, ⟨o, outputs, first, more, rfl⟩, rfl, rfl⟩
      exact ⟨_, _, ⟨o, first, rfl, rfl⟩, _, _,
        ⟨outputs, more.imp fun _ _ h => (same first).mpr h, rfl, rfl⟩, rfl, rfl⟩

/-- **What a job does to a tree**, if its files are not formatted: it writes the outputs for its
types, which depend on the settings and the package that are there at the start. -/
theorem outcome_run_iff {job : Job} {report : Report}
    (unformatted : ∀ settings, w.tree.settings job.dir = .ok settings →
      (job.options settings).format = false) :
    w.outcome (job.run (host format)) = (.ok report, w') ↔
      job.types ≠ [] ∧ ∃ settings entries p outputs,
        w.tree.settings job.dir = .ok settings ∧ w.tree.HasPackage job.dir entries p ∧
        List.Forall₂ (IsOutput w.tree p (job.options settings) job.commandText) job.types outputs ∧
        report = ⟨p.name, p.dir, outputs.map Output.file⟩ ∧
        w' = { w with tree := w.tree.puts (outputs.map Output.write) } := by
  by_cases some : job.types = []
  · simp [Job.run, some]
  rw [Job.run, if_neg (by simpa using some)]
  simp only [outcome_bind_ok_iff, outcome_settings, outcome_load_iff, outcome_pure, Prod.mk.injEq,
    Except.ok.injEq]
  constructor
  · rintro ⟨settings, _, ⟨read, rfl⟩, p, _, ⟨rfl, entries, loaded⟩, files, _, made, rfl, rfl⟩
    obtain ⟨outputs, are, rfl, rfl⟩ :=
      (outcome_generateTypes_iff (unformatted settings read)).mp made
    exact ⟨some, settings, entries, p, outputs, read, loaded, are, rfl, rfl⟩
  · rintro ⟨-, settings, entries, p, outputs, read, loaded, made, rfl, rfl⟩
    exact ⟨settings, _, ⟨read, rfl⟩, p, _, ⟨rfl, entries, loaded⟩, _, _,
      (outcome_generateTypes_iff (unformatted settings read)).mpr ⟨outputs, made, rfl, rfl⟩, rfl, rfl⟩

end Workspace

end EnumCodec
