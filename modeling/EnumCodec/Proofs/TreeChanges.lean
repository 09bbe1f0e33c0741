import EnumCodec.Proofs.OutputPaths
import EnumCodec.Proofs.SecondRun
import Mathlib

/-!
# What a job changes in a tree

A job changes a tree only by the files it hands over, whether it succeeds or fails
(`Workspace.becomesByOutputs_of_run`).

* `Job.run_changes_outputs` — no source file with a declaration changes, unless the path of the file
  for one of the types leads there; no folder and no link changes.
* `Job.paths_of_run` — the files of a job have different paths if and only if the names of its types
  differ in lower case, and each file keeps its text if no later one is written in its place.

The names of files do not depend on what stands in the directory, so a job can write over the source
that declares its type (`Job.run_overwrites_source`), or write two files to one path
(`Job.run_overwrites_output`).
-/

set_option autoImplicit false

namespace EnumCodec

/-! ## Files after files have been written -/

namespace FileTree

variable {t : FileTree} {written : List (Location × String)}

theorem puts_append (t : FileTree) (written more : List (Location × String)) :
    t.puts (written ++ more) = (t.puts written).puts more :=
  List.foldl_append

/-- A node that changes is that of a file that was written. -/
theorem nodeAt?_puts (h : ∀ w ∈ written, t.IsFilePlace w.1) (place : Location) :
    (t.puts written).nodeAt? place = t.nodeAt? place ∨
      ∃ w ∈ written, w.1 = place ∧ (t.puts written).nodeAt? place = some (.file w.2.toUTF8) := by
  induction written using List.reverseRecOn with
  | nil => exact .inl rfl
  | append_singleton written w ih =>
    rw [puts_concat]
    by_cases same : place = w.1
    · subst same
      exact .inr ⟨w, by simp, rfl, nodeAt?_put_self (h w (by simp)).1⟩
    · rw [nodeAt?_put_of_ne same]
      rcases ih fun w hw => h w (List.mem_append_left _ hw) with kept | ⟨w', hw', at_, now⟩
      · exact .inl kept
      · exact .inr ⟨w', List.mem_append_left _ hw', at_, now⟩

/-- A file that reads otherwise is one that was written. -/
theorem read_puts (h : ∀ w ∈ written, t.IsFilePlace w.1) {path text : String}
    (read : t.read path = .ok text) :
    (t.puts written).read path = .ok text ∨
      ∃ w ∈ written, t.filePlaceAt? .look path = some w.1 ∧
        (t.puts written).read path = .ok w.2 := by
  by_cases mem : ∃ w ∈ written, t.filePlaceAt? .look path = some w.1
  · obtain ⟨w, hw, place⟩ := mem
    obtain ⟨now, hnow, reads⟩ := read_puts_of_mem h hw place
    exact .inr ⟨(w.1, now), hnow, place, reads⟩
  · exact .inl (read_puts_of_apart h (fun w hw place => mem ⟨w, hw, place⟩) read)

/-- A file that was written reads as written if no later one was written in its place. -/
theorem read_puts_of_last (before after : List (Location × String)) {w : Location × String}
    (h : ∀ v ∈ before ++ w :: after, t.IsFilePlace v.1) {path : String}
    (leads : t.filePlaceAt? .look path = some w.1) (last : ∀ v ∈ after, v.1 ≠ w.1) :
    (t.puts (before ++ w :: after)).read path = .ok w.2 := by
  have earlier : ∀ v ∈ before ++ [w], t.IsFilePlace v.1 := fun v hv => h v (by
    rw [List.append_cons]
    exact List.mem_append_left _ hv)
  have later : ∀ v ∈ after, (t.puts (before ++ [w])).IsFilePlace v.1 := fun v hv =>
    (h v (by simp [hv])).puts _
  have now : (t.puts (before ++ [w])).read path = .ok w.2 := by
    obtain ⟨d, there, placed⟩ := filePlaceAt?_eq_some_iff.mp leads
    have there' : (t.puts (before ++ [w])).resolve .look path = .ok (.file w.1 w.2.toUTF8) := by
      refine (resolve_puts_ok_iff earlier).mpr ⟨d, there, ?_⟩
      have before_placed : (d.afterWrites before).filePlace? = some w.1 := by
        rw [Destination.filePlace?_afterWrites, placed]
      have step : d.afterWrites (before ++ [w])
          = (d.afterWrites before).afterWrite w.1 w.2.toUTF8 := by
        simp [Destination.afterWrites]
      rw [step]
      cases reached : d.afterWrites before <;> rw [reached] at before_placed <;>
        cases before_placed <;> simp [Destination.afterWrite]
    simp only [FileTree.read, there', fromUTF8?_toUTF8]
  rw [List.append_cons, puts_append]
  refine read_puts_of_apart later (fun v hv => ?_) now
  rw [filePlaceAt?_puts earlier, leads]
  exact fun same => last v hv (Option.some.inj same).symm

end FileTree

/-! ## Files that are handed over -/

/-- The setup of a job is read from a tree. -/
structure FileTree.IsSetup (t : FileTree) (job : Job) (setup : Setup) : Prop where
  options : ∃ settings, t.settings job.dir = .ok settings ∧ setup.options = job.options settings
  package : ∃ entries, t.HasPackage job.dir entries setup.package
  command : setup.command = job.commandText

/-- A tree settles the setup of a job. -/
theorem FileTree.IsSetup.unique {t : FileTree} {job : Job} {setup setup' : Setup}
    (h : t.IsSetup job setup) (h' : t.IsSetup job setup') : setup = setup' := by
  obtain ⟨settings, read, options⟩ := h.options
  obtain ⟨settings', read', options'⟩ := h'.options
  obtain ⟨entries, package⟩ := h.package
  obtain ⟨entries', package'⟩ := h'.package
  obtain rfl := Except.ok.inj (read.symm.trans read')
  obtain rfl := Except.ok.inj (package.listed.symm.trans package'.listed)
  have same := Except.ok.inj (package.ofFiles.symm.trans package'.ofFiles)
  have command := h.command.trans h'.command.symm
  cases setup
  cases setup'
  simp_all

/-- The file for a type is handed over, and its path leads to a place for it. -/
structure IsDelivered (t : FileTree) (setup : Setup) (format : String → FormatOutcome)
    (typeName : String) (o : Output) : Prop where
  delivery : setup.delivery format typeName = .ok ⟨o.file, o.text⟩
  place : t.filePlaceAt? .write o.file.path = some o.place

/-- A job hands over the file for a type, as its tree has it. -/
def FileTree.IsOutputOf (t : FileTree) (format : String → FormatOutcome) (job : Job)
    (typeName : String) (o : Output) : Prop :=
  ∃ setup, t.IsSetup job setup ∧ IsDelivered t setup format typeName o

/-- A tree becomes another one by outputs for types of a job, and by nothing else. -/
def FileTree.BecomesByOutputs (t : FileTree) (format : String → FormatOutcome) (job : Job)
    (t' : FileTree) : Prop :=
  ∃ outputs : List Output,
    (∀ o ∈ outputs, ∃ typeName ∈ job.types, t.IsOutputOf format job typeName o) ∧
      t' = t.puts (outputs.map Output.write)

section Delivered

variable {t : FileTree} {setup : Setup} {format : String → FormatOutcome} {typeName : String}
  {o : Output}

theorem IsDelivered.isFilePlace (h : IsDelivered t setup format typeName o) :
    t.IsFilePlace o.place :=
  FileTree.isFilePlace_of_filePlaceAt? h.place

theorem isDelivered_puts_iff {written : List (Location × String)}
    (h : ∀ w ∈ written, t.IsFilePlace w.1) :
    IsDelivered (t.puts written) setup format typeName o ↔
      IsDelivered t setup format typeName o := by
  constructor
  · rintro ⟨delivery, place⟩
    exact ⟨delivery, by rwa [FileTree.filePlaceAt?_puts h] at place⟩
  · rintro ⟨delivery, place⟩
    exact ⟨delivery, by rwa [FileTree.filePlaceAt?_puts h]⟩

/-- What is handed over for a type is named by it, and holds the text for its table. -/
theorem IsDelivered.delivered (h : IsDelivered t setup format typeName o) :
    setup.package.valueTable typeName setup.options.policy = .ok o.file.table ∧
      o.file.typeName = typeName ∧ o.file.path = setup.path typeName ∧
      o.text = (finished format setup.options (setup.rendered o.file.table)).1 := by
  obtain ⟨table, found, eq⟩ := Setup.delivery_ok_iff.mp h.delivery
  obtain ⟨file, place, text⟩ := o
  simp only [Setup.deliveryOf, Delivery.mk.injEq] at eq
  obtain ⟨rfl, rfl⟩ := eq
  simp only [found, and_self]

/-- The types of a package for which files are handed over have identifiers as their names. -/
theorem IsDelivered.isIdentifier (h : IsDelivered t setup format typeName o)
    (well : setup.package.WellNamed) : IsIdentifier typeName := by
  obtain ⟨-, ⟨e, he, own⟩, -⟩ := Package.names_of_valueTable h.delivered.1
  exact well.types e he typeName own

section List

variable {typeNames : List String} {outputs : List Output}
  (h : List.Forall₂ (IsDelivered t setup format) typeNames outputs)

include h

theorem exists_isDelivered (ho : o ∈ outputs) :
    ∃ typeName ∈ typeNames, IsDelivered t setup format typeName o := by
  induction h with
  | nil => cases ho
  | cons first more ih =>
    rcases List.mem_cons.mp ho with rfl | ho
    · exact ⟨_, List.mem_cons_self, first⟩
    · obtain ⟨typeName, listed, delivered⟩ := ih ho
      exact ⟨typeName, List.mem_cons_of_mem _ listed, delivered⟩

theorem isFilePlace_of_delivered : ∀ w ∈ outputs.map Output.write, t.IsFilePlace w.1 := by
  refine List.forall_mem_map.mpr fun o ho => ?_
  obtain ⟨typeName, -, delivered⟩ := exists_isDelivered h ho
  exact delivered.isFilePlace

/-- The files are those for the types, in their order. -/
theorem files_of_delivered :
    (outputs.map Output.file).map WrittenFile.typeName = typeNames ∧
      (outputs.map Output.file).map WrittenFile.path = typeNames.map setup.path := by
  induction h with
  | nil => exact ⟨rfl, rfl⟩
  | cons first more ih =>
    obtain ⟨-, name, path, -⟩ := first.delivered
    simp only [List.map_cons, name, path, ih.1, ih.2, and_self]

end List

end Delivered

/-! ## Steps and runs -/

namespace Workspace

variable {w w' : Workspace} {format : String → FormatOutcome} {setup : Setup} {typeName : String}
  {typeNames : List String} {file : WrittenFile} {files : List WrittenFile} {e : Failure}

theorem keepsToRead (format : String → FormatOutcome) : (host format).KeepsToRead id where
  hasPath _ _ := rfl
  list _ _ := rfl
  read _ _ := rfl
  readSource _ _ := rfl

theorem answer_write_error {path text : String} {refusal : SystemError}
    (h : Run.answer w ((host format).write path text) = (.error refusal, w')) : w' = w := by
  rw [answer_write] at h
  cases written : w.tree.write path text with
  | error e =>
    rw [written] at h
    cases h
    rfl
  | ok tree => simp [written] at h

/-- The formatter changes no file. -/
theorem tree_formattedState (w : Workspace) (d : Delivery) :
    (setup.formattedState (host format) d w).tree = w.tree := by
  unfold Setup.formattedState Run.answer formatted
  cases setup.options.format with
  | false => rfl
  | true => cases answer : format (setup.rendered d.file.table) <;> simp [host, answer] <;> rfl

/-- The step for a type writes the file for it. -/
theorem outcome_generateOne_ok
    (h : Run.outcome w (setup.generateOne (host format) typeName) = (.ok file, w')) :
    ∃ o, IsDelivered w.tree setup format typeName o ∧ file = o.file ∧
      w'.tree = w.tree.puts [o.write] := by
  obtain ⟨d, delivery, rfl, written⟩ := (Setup.outcome_generateOne_ok_iff (format_host format)).mp h
  obtain ⟨place, leads, rfl⟩ := answer_write_ok_iff.mp written
  rw [tree_formattedState] at leads ⊢
  exact ⟨⟨d.file, place, d.text⟩, ⟨delivery, leads⟩, rfl, rfl⟩

/-- The step for a type writes nothing if it fails. -/
theorem outcome_generateOne_error
    (h : Run.outcome w (setup.generateOne (host format) typeName) = (.error e, w')) :
    w'.tree = w.tree := by
  rcases (Setup.outcome_generateOne_error_iff (format_host format)).mp h with
    ⟨-, rfl⟩ | ⟨d, refusal, -, refused, -⟩
  · rfl
  · rw [answer_write_error refused, tree_formattedState]

/-- The files for types are written one after the other, each where its path leads at the start. -/
theorem outcome_generate_ok
    (h : Run.outcome w (setup.generate (host format) typeNames) = (.ok files, w')) :
    ∃ outputs, List.Forall₂ (IsDelivered w.tree setup format) typeNames outputs ∧
      files = outputs.map Output.file ∧ w'.tree = w.tree.puts (outputs.map Output.write) := by
  induction typeNames generalizing w files with
  | nil =>
    cases h
    exact ⟨[], .nil, rfl, rfl⟩
  | cons typeName typeNames ih =>
    obtain ⟨_, middle, rest, made, more, rfl⟩ := Setup.outcome_generate_cons_ok_iff.mp h
    obtain ⟨o, first, rfl, tree⟩ := outcome_generateOne_ok made
    obtain ⟨outputs, delivered, rfl, tree'⟩ := ih more
    rw [tree] at delivered tree'
    have place : ∀ v ∈ [o.write], w.tree.IsFilePlace v.1 :=
      List.forall_mem_singleton.mpr first.isFilePlace
    exact ⟨o :: outputs, .cons first (delivered.imp fun _ _ => (isDelivered_puts_iff place).mp),
      rfl, tree'⟩

/-- The setup of a job changes nothing, and is what the tree has. -/
theorem outcome_setup_ok {job : Job}
    (h : Run.outcome w (job.setup (host format)) = (.ok setup, w')) :
    w' = w ∧ w.tree.IsSetup job setup := by
  have kept : (Run.outcome w (job.setup (host format))).2 = w :=
    job.keeps_setup (keepsToRead format) w
  rw [h] at kept
  refine ⟨kept, ?_⟩
  unfold Job.setup at h
  split at h
  · cases h
  · obtain ⟨settings, _, read, h⟩ := Run.outcome_bind_ok_iff.mp h
    obtain ⟨p, _, loaded, h⟩ := Run.outcome_bind_ok_iff.mp h
    cases h
    obtain ⟨found, rfl⟩ := Prod.mk.inj ((outcome_settings w job.dir).symm.trans read)
    obtain ⟨-, entries, package⟩ := outcome_load_iff.mp loaded
    exact ⟨⟨settings, found, rfl⟩, ⟨entries, package⟩, rfl⟩

theorem becomesByOutputs_of_generate {job : Job} (isSetup : w.tree.IsSetup job setup)
    (asked : typeNames ⊆ job.types)
    (h : Run.outcome w (setup.generate (host format) typeNames) = (.ok files, w')) :
    w.tree.BecomesByOutputs format job w'.tree := by
  obtain ⟨outputs, delivered, -, tree⟩ := outcome_generate_ok h
  refine ⟨outputs, fun o ho => ?_, tree⟩
  obtain ⟨typeName, listed, isDelivered⟩ := exists_isDelivered delivered ho
  exact ⟨typeName, asked listed, setup, isSetup, isDelivered⟩

/-- **A job changes a tree by outputs for its types only**, whether it succeeds or fails. -/
theorem becomesByOutputs_of_run {job : Job} {result : Except Failure Report}
    (ran : w.outcome (job.run (host format)) = (result, w')) :
    w.tree.BecomesByOutputs format job w'.tree := by
  have ran : Run.outcome w (job.run (host format)) = (result, w') := ran
  cases result with
  | ok report =>
    obtain ⟨setup, middle, files, settled, made, -⟩ := Job.outcome_run_ok_iff.mp ran
    obtain ⟨rfl, isSetup⟩ := outcome_setup_ok settled
    exact becomesByOutputs_of_generate isSetup (List.Subset.refl _) made
  | error e =>
    rcases Job.outcome_run_error_iff.mp ran with failed | ⟨setup, middle, settled, failed⟩
    · have kept := job.keeps_setup (keepsToRead format) w
      rw [failed] at kept
      exact ⟨[], List.forall_mem_nil _, congrArg tree kept⟩
    · -- the types before the one that failed have been done, and that one wrote nothing
      obtain ⟨rfl, isSetup⟩ := outcome_setup_ok settled
      obtain ⟨done, typeName, rest, files, last, split, made, failed⟩ :=
        Setup.outcome_generate_error_iff.mp failed
      have asked : done ⊆ job.types := by
        rw [split]
        exact List.subset_append_left ..
      rw [outcome_generateOne_error failed]
      exact becomesByOutputs_of_generate isSetup asked made

end Workspace

/-! ## What changes -/

theorem FileTree.Contributes.exists_text {t : FileTree} {dir path : String}
    (h : t.Contributes dir path) : ∃ text, t.read path = .ok text := by
  obtain ⟨entries, -, -, contributes⟩ := h
  unfold contribution? sourceAt at contributes
  cases read : t.read path with
  | error e => simp [read, Except.toOption] at contributes
  | ok text => exact ⟨text, rfl⟩

/-- **What a job changes**, whether it succeeds or fails: no source file of its package that declares
a constant or a type, unless the path of the file for one of the types leads there, which then holds
the text for the type; and nothing else but files to which the path of such a file leads. -/
theorem Job.run_changes_outputs {format : String → FormatOutcome} {job : Job} {w w' : Workspace}
    {result : Except Failure Report}
    (ran : w.outcome (job.run (Workspace.host format)) = (result, w')) :
    (∀ path, w.tree.Contributes job.dir path →
      w'.tree.read path = w.tree.read path ∨
        ∃ typeName ∈ job.types, ∃ o, w.tree.IsOutputOf format job typeName o ∧
          w.tree.filePlaceAt? .look path = some o.place ∧ w'.tree.read path = .ok o.text) ∧
      ∀ place, w'.tree.nodeAt? place = w.tree.nodeAt? place ∨
        ∃ typeName ∈ job.types, ∃ o, w.tree.IsOutputOf format job typeName o ∧
          o.place = place ∧ w.tree.IsFilePlace place ∧
          w'.tree.nodeAt? place = some (.file o.text.toUTF8) := by
  obtain ⟨outputs, are, tree⟩ := Workspace.becomesByOutputs_of_run ran
  have places : ∀ v ∈ outputs.map Output.write, w.tree.IsFilePlace v.1 := by
    refine List.forall_mem_map.mpr fun o ho => ?_
    obtain ⟨typeName, -, setup, -, isDelivered⟩ := are o ho
    exact isDelivered.isFilePlace
  rw [tree]
  constructor
  · intro path contributes
    obtain ⟨text, read⟩ := contributes.exists_text
    rcases FileTree.read_puts places read with kept | ⟨v, hv, leads, now⟩
    · exact .inl (kept.trans read.symm)
    · obtain ⟨o, ho, rfl⟩ := List.mem_map.mp hv
      obtain ⟨typeName, asked, isOutput⟩ := are o ho
      exact .inr ⟨typeName, asked, o, isOutput, leads, now⟩
  · intro place
    rcases FileTree.nodeAt?_puts places place with kept | ⟨v, hv, rfl, now⟩
    · exact .inl kept
    · obtain ⟨o, ho, rfl⟩ := List.mem_map.mp hv
      obtain ⟨typeName, asked, isOutput⟩ := are o ho
      exact .inr ⟨typeName, asked, o, isOutput, rfl, places _ hv, now⟩

/-- A workspace with the package `ink`, whose types differ in case only, in a file that is named as
they are. -/
def inkWorkspace : Workspace where
  tree := ⟨[(["ink"], .folder), (["ink", "color.go"],
    .file ("package ink\ntype Color int\ntype color int\n" ++
      "const Red Color = 1\nconst red color = 1\n").toUTF8)], []⟩
  warnings := []

/-- The package of `inkWorkspace`. -/
def inkPackage : Package where
  name := "ink"
  dir := "ink"
  files := ["ink/color.go"]
  entries := [⟨"Red", "ink/color.go", ⟨4, 7⟩, some (.own "Color"), .integer "1", 0, 0⟩,
    ⟨"red", "ink/color.go", ⟨5, 7⟩, some (.own "color"), .integer "1", 0, 1⟩]
  types := [⟨⟨"Color", ⟨2, 6⟩⟩, false, .named (.own "int")⟩,
    ⟨⟨"color", ⟨3, 6⟩⟩, false, .named (.own "int")⟩]

/-- The job to write the files for types of `inkPackage`, with a text after the names of the types. -/
def inkJob (types : List String) (back : Option String) : Job :=
  ⟨"ink", types, { Settings.empty with back := back, format := some false }, "ink"⟩

/-- The table for a type of `inkPackage`, which has one constant. -/
def inkTable (typeName constant : String) : ValueTable := ⟨typeName, .int, [⟨constant, 1, []⟩]⟩

/-- The file for a type of `inkPackage`. -/
def inkOutput (typeName constant file : String) : Output where
  file := ⟨typeName, "ink/" ++ file, inkTable typeName constant, false⟩
  place := ["ink", file]
  text := (Generated.mk "ink" "ink" [(inkTable typeName constant).enumNames]).text

theorem inkWorkspace_settings : inkWorkspace.tree.settings "ink" = .ok none := rfl

theorem inkWorkspace_hasPackage :
    inkWorkspace.tree.HasPackage "ink" [⟨"color.go", .file⟩] inkPackage := by
  have loaded : inkWorkspace.outcome (Package.load (Workspace.host fun _ => .unavailable) "ink")
      = (.ok inkPackage, inkWorkspace) := by with_unfolding_all rfl
  obtain ⟨-, entries, package⟩ := Workspace.outcome_load_iff.mp loaded
  have listed : inkWorkspace.tree.list "ink" = .ok [⟨"color.go", .file⟩] := rfl
  obtain rfl := Except.ok.inj (listed.symm.trans package.listed)
  exact package

theorem inkWorkspace_contributes : inkWorkspace.tree.Contributes "ink" "ink/color.go" := by
  obtain ⟨path, listed, contributes⟩ :=
    inkWorkspace_hasPackage.exists_contributes (List.cons_ne_nil _ _)
  have only : sourcePaths "ink" [⟨"color.go", .file⟩] = ["ink/color.go"] := by decide +kernel
  rw [only, List.mem_singleton] at listed
  exact listed ▸ contributes

theorem options_inkJob (types : List String) (back : Option String) :
    (inkJob types back).options none = ⟨"", back.getD "_yamlenums", .lexical, false⟩ := by
  cases back <;> rfl

theorem isOutput_inkOutput {types : List String} {back : Option String}
    {typeName constant file : String}
    (table : inkPackage.valueTable typeName .lexical = .ok (inkTable typeName constant))
    (path : Path.join "ink" (outputName "" typeName (back.getD "_yamlenums")) = "ink/" ++ file)
    (place : inkWorkspace.tree.filePlaceAt? .write ("ink/" ++ file) = some ["ink", file]) :
    IsOutput inkWorkspace.tree inkPackage ((inkJob types back).options none) "ink" typeName
      (inkOutput typeName constant file) := by
  rw [options_inkJob]
  refine ⟨table, ?_, place, ?_⟩
  · simp only [inkOutput, inkPackage, path]
  · simp only [inkOutput, inkPackage]

theorem inkPackage_valueTable_Color :
    inkPackage.valueTable "Color" .lexical = .ok (inkTable "Color" "Red") := by cbv

theorem inkPackage_valueTable_color :
    inkPackage.valueTable "color" .lexical = .ok (inkTable "color" "red") := by cbv

/-- `inkWorkspace` with files for types. -/
def inkWorkspaceWith (outputs : List Output) : Workspace :=
  { inkWorkspace with tree := inkWorkspace.tree.puts (outputs.map Output.write) }

theorem outcome_inkJob {types : List String} {back : Option String} {outputs : List Output}
    (asked : types ≠ [])
    (made : List.Forall₂
      (IsOutput inkWorkspace.tree inkPackage ((inkJob types back).options none) "ink") types
      outputs) :
    inkWorkspace.outcome ((inkJob types back).run (Workspace.host fun _ => .unavailable))
      = (.ok ⟨"ink", "ink", outputs.map Output.file⟩, inkWorkspaceWith outputs) := by
  refine (Workspace.outcome_run_iff fun settings read => ?_).mpr
    ⟨asked, none, _, inkPackage, outputs, inkWorkspace_settings, inkWorkspace_hasPackage, made,
      rfl, rfl⟩
  obtain rfl := Except.ok.inj (inkWorkspace_settings.symm.trans read)
  rfl

/-- The file for `Color`, where nothing stands yet. -/
theorem isOutput_besideSource (types : List String) :
    IsOutput inkWorkspace.tree inkPackage ((inkJob types none).options none) "ink" "Color"
      (inkOutput "Color" "Red" "color_yamlenums.go") :=
  isOutput_inkOutput inkPackage_valueTable_Color (by decide +kernel) (by decide +kernel)

theorem Job.run_changes_outputs_inkJob :
    inkWorkspace.outcome ((inkJob ["Color"] none).run (Workspace.host fun _ => .unavailable))
        = (.ok ⟨"ink", "ink", [(inkOutput "Color" "Red" "color_yamlenums.go").file]⟩,
          inkWorkspaceWith [inkOutput "Color" "Red" "color_yamlenums.go"]) ∧
      inkWorkspace.tree.Contributes "ink" "ink/color.go" ∧
      ((inkWorkspaceWith [inkOutput "Color" "Red" "color_yamlenums.go"]).tree.read "ink/color.go"
          = inkWorkspace.tree.read "ink/color.go" ∨
        ∃ typeName ∈ ["Color"], ∃ o,
          inkWorkspace.tree.IsOutputOf (fun _ => .unavailable) (inkJob ["Color"] none) typeName o ∧
            inkWorkspace.tree.filePlaceAt? .look "ink/color.go" = some o.place ∧
            (inkWorkspaceWith [inkOutput "Color" "Red" "color_yamlenums.go"]).tree.read
              "ink/color.go" = .ok o.text) := by
  have ran := outcome_inkJob (List.cons_ne_nil _ _) (.cons (isOutput_besideSource _) .nil)
  exact ⟨ran, inkWorkspace_contributes,
    (Job.run_changes_outputs ran).1 "ink/color.go" inkWorkspace_contributes⟩

/-- A job can write over the source of its type: here the file for `Color` has the name of the file
that declares `Color`. -/
theorem Job.run_overwrites_source :
    inkWorkspace.tree.Contributes "ink" "ink/color.go" ∧
      (inkWorkspace.outcome
          ((inkJob ["Color"] (some "")).run (Workspace.host fun _ => .unavailable))).2.tree.read
          "ink/color.go"
        ≠ inkWorkspace.tree.read "ink/color.go" := by
  have output : IsOutput inkWorkspace.tree inkPackage ((inkJob ["Color"] (some "")).options none)
      "ink" "Color" (inkOutput "Color" "Red" "color.go") :=
    isOutput_inkOutput inkPackage_valueTable_Color (by decide +kernel) (by decide +kernel)
  have bare := output.isBareSource inkWorkspace_hasPackage.wellNamed (by decide)
  have read : (inkWorkspaceWith [inkOutput "Color" "Red" "color.go"]).tree.read "ink/color.go"
      = .ok (inkOutput "Color" "Red" "color.go").text :=
    FileTree.read_puts_of_last [] []
      (List.forall_mem_singleton.mpr output.isFilePlace)
      (FileTree.filePlaceAt?_look_of_write output.place) (List.forall_mem_nil _)
  refine ⟨inkWorkspace_contributes, fun same => ?_⟩
  rw [outcome_inkJob (List.cons_ne_nil _ _) (.cons output .nil)] at same
  -- the file that was written declares nothing, but the source did
  obtain ⟨-, -, -, contributes⟩ := inkWorkspace_contributes
  obtain ⟨pos, source⟩ := FileTree.sourceAt_of_read (same.symm.trans read) bare
  rw [FileTree.contribution?, source] at contributes
  cases contributes

/-- **The files of a job that succeeds**: they are those for its types, in their order; their paths
differ if and only if their names do, which are in lower case; and each has the text for its type if
no path of a later one leads to the same place. -/
theorem Job.paths_of_run {format : String → FormatOutcome} {job : Job} {w w' : Workspace}
    {report : Report} (ran : w.outcome (job.run (Workspace.host format)) = (.ok report, w')) :
    ∃ setup, w.tree.IsSetup job setup ∧ report.files.map WrittenFile.typeName = job.types ∧
      ((report.files.map WrittenFile.path).Nodup ↔
        (job.types.map fun typeName =>
          outputName setup.options.front typeName setup.options.back).Nodup) ∧
      ∀ before file after, report.files = before ++ file :: after →
        (∀ later ∈ after,
          w.tree.filePlaceAt? .write later.path ≠ w.tree.filePlaceAt? .write file.path) →
        w'.tree.read file.path
          = .ok (finished format setup.options (setup.rendered file.table)).1 := by
  have ran : Run.outcome w (job.run (Workspace.host format)) = (.ok report, w') := ran
  obtain ⟨setup, middle, files, settled, made, rfl⟩ := Job.outcome_run_ok_iff.mp ran
  obtain ⟨rfl, isSetup⟩ := Workspace.outcome_setup_ok settled
  obtain ⟨outputs, delivered, rfl, tree⟩ := Workspace.outcome_generate_ok made
  obtain ⟨names, paths⟩ := files_of_delivered delivered
  refine ⟨setup, isSetup, names, ?_, fun before file after split last => ?_⟩
  · obtain ⟨entries, package⟩ := isSetup.package
    have identifiers : ∀ typeName ∈ job.types, IsIdentifier typeName := by
      intro typeName asked
      rw [← names, List.map_map] at asked
      obtain ⟨o, ho, rfl⟩ := List.mem_map.mp asked
      obtain ⟨typeName, -, isDelivered⟩ := exists_isDelivered delivered ho
      rw [Function.comp_apply, isDelivered.delivered.2.1]
      exact isDelivered.isIdentifier package.wellNamed
    simp only [Setup.report, paths, List.Nodup, List.pairwise_map]
    exact List.Pairwise.iff_of_mem fun h h' =>
      not_congr (setup.path_eq_iff (identifiers _ h) (identifiers _ h'))
  · obtain ⟨os, os', rfl, -, split⟩ := List.map_eq_append_iff.mp split
    obtain ⟨o, os', rfl, rfl, rfl⟩ := List.map_eq_cons_iff.mp split
    obtain ⟨typeName, -, isDelivered⟩ := exists_isDelivered delivered (o := o) (by simp)
    have places := isFilePlace_of_delivered delivered
    rw [List.map_append, List.map_cons] at tree places
    rw [tree, ← isDelivered.delivered.2.2.2]
    refine FileTree.read_puts_of_last _ _ places
      (FileTree.filePlaceAt?_look_of_write isDelivered.place) (List.forall_mem_map.mpr ?_)
    intro later hlater same
    obtain ⟨other, -, isLater⟩ := exists_isDelivered delivered (o := later) (by simp [hlater])
    refine last later.file (List.mem_map_of_mem hlater) ?_
    rw [isLater.place, isDelivered.place]
    exact congrArg some same

theorem Job.paths_of_run_inkJob :
    inkWorkspace.outcome ((inkJob ["Color"] none).run (Workspace.host fun _ => .unavailable))
        = (.ok ⟨"ink", "ink", [(inkOutput "Color" "Red" "color_yamlenums.go").file]⟩,
          inkWorkspaceWith [inkOutput "Color" "Red" "color_yamlenums.go"]) ∧
      (inkWorkspaceWith [inkOutput "Color" "Red" "color_yamlenums.go"]).tree.read
          "ink/color_yamlenums.go" = .ok (inkOutput "Color" "Red" "color_yamlenums.go").text := by
  have ran := outcome_inkJob (List.cons_ne_nil _ _) (.cons (isOutput_besideSource _) .nil)
  obtain ⟨setup, isSetup, -, -, texts⟩ := Job.paths_of_run ran
  obtain rfl : setup = ⟨inkPackage, (inkJob ["Color"] none).options none, "ink"⟩ :=
    isSetup.unique ⟨⟨none, inkWorkspace_settings, rfl⟩, ⟨_, inkWorkspace_hasPackage⟩, rfl⟩
  have read := texts [] _ [] rfl (List.forall_mem_nil _)
  rw [options_inkJob] at read
  exact ⟨ran, read⟩

/-- A job can write two files to one path, so that one of them is lost: here the types differ in case
only. -/
theorem Job.run_overwrites_output :
    ["Color", "color"].Nodup ∧ ∃ report w',
      inkWorkspace.outcome
          ((inkJob ["Color", "color"] none).run (Workspace.host fun _ => .unavailable))
        = (.ok report, w') ∧
      ¬ (report.files.map WrittenFile.path).Nodup ∧
      w'.tree.read "ink/color_yamlenums.go"
        = .ok (inkOutput "color" "red" "color_yamlenums.go").text ∧
      (inkOutput "color" "red" "color_yamlenums.go").text
        ≠ (inkOutput "Color" "Red" "color_yamlenums.go").text := by
  have first := isOutput_besideSource ["Color", "color"]
  have second : IsOutput inkWorkspace.tree inkPackage
      ((inkJob ["Color", "color"] none).options none) "ink" "color"
      (inkOutput "color" "red" "color_yamlenums.go") :=
    isOutput_inkOutput inkPackage_valueTable_color (by decide +kernel) (by decide +kernel)
  refine ⟨by decide, _, _,
    outcome_inkJob (List.cons_ne_nil _ _) (.cons first (.cons second .nil)), ?_, ?_, ?_⟩
  · simp [inkOutput]
  · exact FileTree.read_puts_of_last [_] []
      (List.forall_mem_cons.mpr
        ⟨first.isFilePlace, List.forall_mem_singleton.mpr second.isFilePlace⟩)
      (FileTree.filePlaceAt?_look_of_write second.place) (List.forall_mem_nil _)
  · decide +kernel

end EnumCodec
