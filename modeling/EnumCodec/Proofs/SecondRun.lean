import EnumCodec.Proofs.CollectedValues
import EnumCodec.Proofs.FolderPaths
import EnumCodec.Proofs.GeneratedText
import EnumCodec.Proofs.PackageFiles
import EnumCodec.Proofs.SourceNames

/-!
# A job that is done twice

`Job.run_again` is the result: where a job has been done, doing it again gives the same report and
leaves every file as it is, although the files of the first run are now read as part of the package.
Not every job can be done again: `Job.run_again_can_fail`.

* `IsOutput.isBareSource` — a file that is written declares nothing, for the names in it are those of
  the package, and identifiers (`Package.ofFiles_wellNamed`).
* `IsOutput.exists_name` — a file is written under a name that ends in `.go`, and can be read under
  it if it is written to the directory itself.
-/

set_option autoImplicit false

namespace EnumCodec

open Text

/-! ## The names of a package -/

theorem lastWithValues?_mem {lines : List ConstSpec} {line : ConstSpec}
    (h : lastWithValues? lines = some line) : line ∈ lines :=
  List.mem_reverse.mp (List.mem_of_find?_eq_some h)

/-- A constant that a group declares has the name of one of its lines, and the type of one. -/
theorem ConstDecl.mem_declarations {decl : ConstDecl} {file : String} {c : ConstDeclared}
    (h : c ∈ decl.declarations file) :
    (∃ line ∈ decl.specs, c.ident ∈ line.names) ∧ ∃ line ∈ decl.specs, c.type = line.type := by
  obtain ⟨cs, hcs, hc⟩ := List.mem_flatten.mp h
  obtain ⟨k, hk, rfl⟩ := List.mem_mapIdx.mp hcs
  cases found : supplier? decl.specs k with
  | none => simp [found] at hc
  | some supplier =>
    rw [found] at hc
    obtain ⟨named, hnamed, rfl⟩ := List.mem_map.mp hc
    have zipped := (List.mem_filter.mp hnamed).1
    exact ⟨⟨_, List.getElem_mem hk, (List.of_mem_zip zipped).1⟩,
      ⟨supplier, List.mem_of_mem_take (lastWithValues?_mem found), rfl⟩⟩

/-- The names of the package, of its constants and of their types are identifiers. -/
structure Package.WellNamed (p : Package) : Prop where
  name : IsIdentifier p.name
  named : p.name ≠ blankName
  entries : ∀ e ∈ p.entries, IsIdentifier e.name
  types : ∀ e ∈ p.entries, ∀ name, e.type = some (.own name) → IsIdentifier name

theorem Package.ofFiles_wellNamed {dir : String} {files : List SourceFile} {p : Package}
    (h : Package.ofFiles dir files = .ok p) (well : ∀ file ∈ files, file.WellNamed) :
    p.WellNamed := by
  obtain ⟨⟨first, head, name⟩, -, -, constants, -⟩ := Package.ofFiles_ok_iff.mp h
  have first_well := well first (List.mem_of_mem_head? head)
  have declared : ∀ e ∈ p.entries, IsIdentifier e.name ∧
      ∀ name, e.type = some (.own name) → IsIdentifier name := by
    rw [(declareFiles_iff.mp constants).2.after_eq]
    intro e he
    obtain ⟨placed, hplaced, rfl⟩ := List.mem_map.mp (List.nil_append _ ▸ he)
    have hc := List.mem_map_of_mem hplaced (f := Prod.fst)
    rw [List.zipIdx_map_fst] at hc
    obtain ⟨file, hfile, hc⟩ := List.mem_flatMap.mp hc
    obtain ⟨decl, hdecl, hc⟩ := List.mem_flatMap.mp hc
    obtain ⟨⟨line, hline, named⟩, line', hline', typed⟩ := ConstDecl.mem_declarations hc
    have lines := (well file hfile).lines decl hdecl
    exact ⟨(lines line hline).names _ named, fun name own =>
      (lines line' hline').type name (typed.symm.trans own)⟩
  exact {
    name := name ▸ first_well.package
    named := name ▸ first_well.named
    entries := fun e he => (declared e he).1
    types := fun e he => (declared e he).2 }

theorem FileTree.HasPackage.wellNamed {t : FileTree} {dir : String} {entries : List DirEntry}
    {p : Package} (h : t.HasPackage dir entries p) : p.WellNamed := by
  refine Package.ofFiles_wellNamed h.ofFiles fun file hfile => ?_
  obtain ⟨path, -, found⟩ := List.mem_filterMap.mp hfile
  have found : t.sourceAt path = .ok (some file) := by
    cases read : t.sourceAt path with
    | error e => simp [read, Except.toOption] at found
    | ok source =>
      obtain rfl : source = some file := by simpa [read, Except.toOption] using found
      rfl
  unfold FileTree.sourceAt at found
  split at found
  · cases found
  split at found
  · cases found
  split at found <;> cases found
  exact SourceFile.ofText_wellNamed ‹_›

/-! ## The names of a value table -/

theorem ValueTable.name_mem_build {typeName : String} {kind : IntKind}
    {constants : List ResolvedConstant} {policy : AliasPolicy} {e : ValueEntry}
    (h : e ∈ (ValueTable.build typeName kind constants policy).entries) :
    e.name ∈ constants.map ResolvedConstant.name := by
  have names := (collects_build typeName kind policy).names e h
  obtain ⟨c, hc, eq⟩ := List.mem_map.mp (names.subset List.mem_cons_self)
  exact List.mem_map.mpr ⟨c, (List.mem_filter.mp hc).1, eq⟩

/-- The names of a value table are those of constants of the package, and its type is that of one. -/
theorem Package.names_of_valueTable {p : Package} {typeName : String} {policy : AliasPolicy}
    {table : ValueTable} (h : p.valueTable typeName policy = .ok table) :
    table.typeName = typeName ∧ (∃ e ∈ p.entries, e.type = some (.own typeName)) ∧
      ∀ name ∈ table.enumNames.names, ∃ e ∈ p.entries, e.name = name := by
  unfold Package.valueTable resolveValues at h
  dsimp only at h
  split at h
  · cases h
  split at h
  · cases h
  split at h
  · cases h
  rename_i some
  split at h <;> cases h
  refine ⟨rfl, ?_, fun name hname => ?_⟩
  · obtain ⟨i, hi⟩ := List.exists_mem_of_ne_nil _ (by simpa using some)
    exact ⟨_, List.get_mem .., mem_membersOf.mp hi⟩
  · simp only [ValueTable.enumNames, ValueTable.pairs, List.map_map] at hname
    obtain ⟨e, he, rfl⟩ := List.mem_map.mp hname
    obtain ⟨c, hc, eq⟩ := List.mem_map.mp (ValueTable.name_mem_build he)
    obtain ⟨i, -, rfl⟩ := List.mem_map.mp hc
    exact ⟨_, List.get_mem .., eq⟩

/-! ## Files that are written -/

/-- No link has the name of a file with settings or of a source file. -/
def FileTree.HasRegularFiles (t : FileTree) : Prop :=
  ∀ n ∈ t.nodes, ∀ name, n.1.getLast? = some name →
    name = Settings.fileName ∨ ".go".toList <:+ name.toList → n.2.kind ≠ .link

/-- The path is that of a source file of the directory that declares a constant or a type. -/
def FileTree.Contributes (t : FileTree) (dir path : String) : Prop :=
  ∃ entries, t.list dir = .ok entries ∧ path ∈ sourcePaths dir entries ∧
    (t.contribution? path).isSome

/-- A package with declarations has a source that declares something. -/
theorem FileTree.HasPackage.exists_contributes {t : FileTree} {dir : String}
    {entries : List DirEntry} {p : Package} (h : t.HasPackage dir entries p)
    (some : p.entries ≠ []) : ∃ path ∈ sourcePaths dir entries, t.Contributes dir path := by
  have contributions : (sourcePaths dir entries).filterMap t.contribution? ≠ [] := fun none =>
    some (Package.entries_eq_nil h.ofFiles ((t.filter_sourcesAt _).trans none))
  obtain ⟨file, hfile⟩ := List.exists_mem_of_ne_nil _ contributions
  obtain ⟨path, listed, found⟩ := List.mem_filterMap.mp hfile
  exact ⟨path, listed, entries, h.listed, listed, by simp [found]⟩

namespace IsOutput

variable {t : FileTree} {p : Package} {options : Options} {command typeName : String} {o : Output}

/-- A file that is written declares nothing. -/
theorem isBareSource (h : IsOutput t p options command typeName o) (well : p.WellNamed)
    (line : '\n' ∉ command.toList) : IsBareSource p.name o.text := by
  obtain ⟨type, ⟨e, he, own⟩, names⟩ := Package.names_of_valueTable h.table
  have identifiers : ∀ enum ∈ [o.file.table.enumNames],
      IsIdentifier enum.typeName ∧ ∀ n ∈ enum.names, IsIdentifier n := by
    refine List.forall_mem_singleton.mpr ⟨?_, fun n hn => ?_⟩
    · have identifier := well.types e he typeName own
      rwa [← type] at identifier
    · obtain ⟨e, he, rfl⟩ := names n hn
      exact well.entries e he
  rw [h.text]
  exact {
    built := Printed.isBuildIgnored_generated line well.name
    reads := Printed.ofText_generated line well.name well.named identifiers }

/-- The names of the files of a package do not matter. -/
theorem with_files (h : IsOutput t p options command typeName o) (files : List String) :
    IsOutput t { p with files := files } options command typeName o where
  table := h.table
  file := h.file
  place := h.place
  text := h.text

end IsOutput

/-! ## Where they are written -/

/-- A text in lower case ends as the text does, if that is `.go`. -/
theorem lowerCaseAfter_append (before front : List Char) :
    ∃ start, lowerCaseAfter before (front ++ ".go".toList) = start ++ ".go".toList := by
  induction front generalizing before with
  | nil => exact ⟨[], rfl⟩
  | cons c front ih =>
    obtain ⟨start, eq⟩ := ih (c :: before)
    rw [List.cons_append, lowerCaseAfter, eq, ← List.append_assoc]
    exact ⟨_, rfl⟩

theorem outputName_suffix (front typeName back : String) :
    ".go".toList <:+ (outputName front typeName back).toList := by
  obtain ⟨start, eq⟩ := lowerCaseAfter_append [] (front ++ typeName ++ back).toList
  have text : (outputName front typeName back).toList = start ++ ".go".toList := by
    rw [outputName, lowerCase, String.toList_ofList, String.toList_append]
    exact eq
  exact ⟨start, text.symm⟩

namespace FileTree

variable {t : FileTree}

/-- A path in a directory ends as the path that is given there. -/
theorem getLast?_parts_join {dir : String} (hd : dir ≠ "") (path : String) :
    (parts (Path.join dir path)).getLast? = (parts path).getLast? := by
  have after : ∀ front : List Char, ((pieces '/' (front ++ '/' :: path.toList)).map
      String.ofList).getLast? = (parts path).getLast? := by
    intro front
    rw [pieces_append, List.map_append, parts,
      List.getLast?_append_of_ne_nil _ (by simpa using pieces_ne_nil '/' path.toList)]
  unfold Path.join
  split
  · rfl
  split
  · rename_i slash
    obtain ⟨front, eq⟩ : ['/'] <:+ dir.toList := by simpa [hd] using slash
    have text : (dir ++ path).toList = front ++ '/' :: path.toList := by simp [← eq]
    rw [parts, text, after]
  · have text : (dir ++ "/" ++ path).toList = dir.toList ++ '/' :: path.toList := by simp
    rw [parts, text, after]

theorem utf8ByteSize_le_of_suffix {s s' : String} (h : s.toList <:+ s'.toList) :
    s.utf8ByteSize ≤ s'.utf8ByteSize := by
  obtain ⟨front, eq⟩ := h
  have split : s' = String.ofList front ++ s := by
    rw [← String.toList_inj, String.toList_append, String.toList_ofList, eq]
  rw [split, String.utf8ByteSize_append]
  exact Nat.le_add_left ..

/-- A path that is given in a directory comes after the path of the directory, or after that and a
slash. -/
theorem join_of_relative {dir : String} (nul : '\x00' ∉ dir.toList) : ∃ front : String,
    '\x00' ∉ front.toList ∧
      ∀ path, Path.isAbsolute path = false → Path.join dir path = front ++ path := by
  by_cases h : (dir.isEmpty || ['/'].isSuffixOf dir.toList) = true
  · exact ⟨dir, nul, fun path relative => by simp [Path.join, relative, h]⟩
  · exact ⟨dir ++ "/", by simpa using nul, fun path relative => by simp [Path.join, relative, h]⟩

/-- A place for a file is found by its name in the folder, if the name can be asked for. -/
theorem filePlaceAt?_join {dir : String} {folder place : Location}
    (leads : t.resolve .look dir = .ok (.folder folder)) (file : t.IsFilePlace place)
    {name : String} (hname : IsName name) (at_ : place = folder ++ [name])
    (nul : '\x00' ∉ (Path.join dir name).toList)
    (short : (Path.join dir name).utf8ByteSize < maxPathSize) (size : name.utf8ByteSize ≤ 255) :
    t.filePlaceAt? .look (Path.join dir name) = some place := by
  subst at_
  have link : ∀ target, t.nodeAt? (folder ++ [name]) ≠ some (.link target) :=
    fun target found => by cases file.2 _ found
  have reached := (resolve_join_iff leads hname link).mpr ⟨nul, short, size, rfl⟩
  refine filePlaceAt?_eq_some_iff.mpr ⟨_, reached, ?_⟩
  unfold standingAt
  cases found : t.nodeAt? (folder ++ [name]) with
  | none => rfl
  | some node =>
    obtain ⟨bytes, rfl⟩ := file.file_of_found found
    rfl

end FileTree

/-- Where a path leads to write a file, the file is found. -/
theorem FileTree.filePlaceAt?_look_of_write {t : FileTree} {path : String} {place : Location}
    (h : t.filePlaceAt? .write path = some place) : t.filePlaceAt? .look path = some place := by
  obtain ⟨d, leads, placed⟩ := filePlaceAt?_eq_some_iff.mp h
  exact filePlaceAt?_eq_some_iff.mpr ⟨d, look_of_write leads, placed⟩

namespace IsOutput

variable {t : FileTree} {p : Package} {options : Options} {command typeName : String} {o : Output}

/-- A file is written under the last name of its path. -/
theorem exists_name (h : IsOutput t p options command typeName o) (regular : t.HasRegularFiles)
    (hd : p.dir ≠ "") :
    ∃ name, FileTree.IsName name ∧ ".go".toList <:+ name.toList ∧
      name.toList <:+ (outputName options.front typeName options.back).toList ∧
      o.place.getLast? = some name ∧ name.utf8ByteSize ≤ 255 := by
  obtain ⟨name, last, slash, back, end_⟩ := FileTree.exists_lastName (by decide)
    (outputName_suffix options.front typeName options.back)
  have isName := FileTree.isName_of_suffix slash back
  obtain ⟨d, leads, placed⟩ := FileTree.filePlaceAt?_eq_some_iff.mp h.place
  rw [h.file] at leads
  dsimp only at leads
  have reached := FileTree.resolve_lastName isName
    (fun n hn last => regular n hn name last (.inr back))
    ((FileTree.getLast?_parts_join hd _).trans last) leads placed
  exact ⟨name, isName, back, end_, reached.1, reached.2⟩

/-- No file is written over the settings of the directory. -/
theorem settings_apart (h : IsOutput t p options command typeName o) (regular : t.HasRegularFiles)
    (hd : p.dir ≠ "") :
    t.filePlaceAt? .look (Path.join p.dir Settings.fileName) ≠ some o.place := by
  intro same
  obtain ⟨name, -, back, -, last, -⟩ := h.exists_name regular hd
  obtain ⟨d, leads, placed⟩ := FileTree.filePlaceAt?_eq_some_iff.mp same
  have settings : FileTree.IsName Settings.fileName := ⟨by decide, by decide, by decide, by decide⟩
  have reached := FileTree.resolve_lastName settings
    (fun n hn last => regular n hn _ last (.inl rfl))
    ((FileTree.getLast?_parts_join hd _).trans (by decide)) leads placed
  obtain rfl : name = Settings.fileName := Option.some.inj (last.symm.trans reached.1)
  revert back
  decide

/-- A file that is written to the directory itself is found there by its name, if there is room for
the name; there always is, unless the file has an absolute path. -/
theorem filePlaceAt?_name (h : IsOutput t p options command typeName o)
    (regular : t.HasRegularFiles) {folder : Location} {name : String}
    (short : Path.isAbsolute o.file.path = true →
      (Path.join p.dir name).utf8ByteSize < FileTree.maxPathSize)
    (leads : t.resolve .look p.dir = .ok (.folder folder)) (at_ : o.place = folder ++ [name]) :
    t.filePlaceAt? .look (Path.join p.dir name) = some o.place := by
  obtain ⟨dirNul, hd, -, -⟩ := FileTree.resolve_ok_iff.mp leads
  obtain ⟨name', isName, -, end_, last, size⟩ := h.exists_name regular hd
  obtain rfl : name' = name := by simpa [at_] using last.symm
  obtain ⟨d, written, -⟩ := FileTree.filePlaceAt?_eq_some_iff.mp h.place
  obtain ⟨pathNul, -, pathShort, -⟩ := FileTree.resolve_ok_iff.mp written
  obtain ⟨front, frontNul, joined⟩ := FileTree.join_of_relative dirNul
  have path : o.file.path = Path.join p.dir (outputName options.front typeName options.back) := by
    rw [h.file]
  have named := joined name' (FileTree.isAbsolute_of_noSlash isName.slash)
  have both : '\x00' ∉ name'.toList ∧
      (Path.join p.dir name').utf8ByteSize < FileTree.maxPathSize := by
    cases absolute : Path.isAbsolute (outputName options.front typeName options.back) with
    | false =>
      have endSize := FileTree.utf8ByteSize_le_of_suffix end_
      rw [path, joined _ absolute] at pathNul pathShort
      rw [String.utf8ByteSize_append] at pathShort
      rw [named, String.utf8ByteSize_append]
      exact ⟨fun mem => pathNul (by simp [end_.subset mem]), by omega⟩
    | true =>
      rw [Path.join, if_pos absolute] at path
      exact ⟨fun mem => pathNul (path ▸ end_.subset mem), short (path ▸ absolute)⟩
  refine FileTree.filePlaceAt?_join leads h.isFilePlace isName at_ ?_ both.2 size
  rw [named, String.toList_append, List.mem_append]
  exact fun mem => mem.elim frontNul both.1

end IsOutput

/-! ## The second run -/

section Outputs

variable {t : FileTree} {dir : String} {entries : List DirEntry} {p : Package} {options : Options}
  {command : String} {outputs : List Output}
  (made : ∀ o ∈ outputs, ∃ typeName, IsOutput t p options command typeName o)

include made

theorem isFilePlace_of_outputs : ∀ written ∈ outputs.map Output.write, t.IsFilePlace written.1 := by
  rw [List.forall_mem_map]
  intro o ho
  obtain ⟨typeName, h⟩ := made o ho
  exact h.isFilePlace

/-- The settings are those that the files were written with. -/
theorem FileTree.settings_puts_outputs {settings : Option Settings} (regular : t.HasRegularFiles)
    (hd : p.dir ≠ "") (read : t.settings p.dir = .ok settings) :
    (t.puts (outputs.map Output.write)).settings p.dir = .ok settings := by
  refine settings_puts (isFilePlace_of_outputs made) (List.forall_mem_map.mpr fun o ho => ?_) read
  obtain ⟨typeName, h⟩ := made o ho
  exact h.settings_apart regular hd

/-- The package is the one that the files were written for. -/
theorem FileTree.HasPackage.puts_outputs (loaded : t.HasPackage p.dir entries p)
    (some : outputs ≠ []) (line : '\n' ∉ command.toList) (regular : t.HasRegularFiles)
    (short : ∀ o ∈ outputs, Path.isAbsolute o.file.path = true → ∀ folder name,
      t.resolve .look p.dir = .ok (.folder folder) → o.place = folder ++ [name] →
        isPackageSource name = true → (Path.join p.dir name).utf8ByteSize < FileTree.maxPathSize)
    (apart : ∀ o ∈ outputs, ∀ path, t.Contributes p.dir path →
      t.filePlaceAt? .look o.file.path ≠ t.filePlaceAt? .look path) :
    ∃ entries' files, (t.puts (outputs.map Output.write)).HasPackage p.dir entries'
      { p with files := files } := by
  refine loaded.puts (isFilePlace_of_outputs made) (List.forall_mem_map.mpr fun o ho => ?_)
    (List.forall_mem_map.mpr fun o ho folder name leads place source => ?_)
    (fun path listed contributes => List.forall_mem_map.mpr fun o ho same => ?_) ?_
  · obtain ⟨typeName, h⟩ := made o ho
    exact h.isBareSource loaded.wellNamed line
  · obtain ⟨typeName, h⟩ := made o ho
    exact h.filePlaceAt?_name regular
      (fun absolute => short o ho absolute folder name leads place source) leads place
  · obtain ⟨typeName, h⟩ := made o ho
    have found := FileTree.filePlaceAt?_look_of_write h.place
    exact apart o ho path ⟨entries, loaded.listed, listed, contributes⟩ (found.trans same.symm)
  · obtain ⟨o, ho⟩ := List.exists_mem_of_ne_nil _ some
    obtain ⟨typeName, h⟩ := made o ho
    obtain ⟨-, ⟨e, he, -⟩, -⟩ := Package.names_of_valueTable h.table
    exact List.ne_nil_of_mem he

end Outputs

/-- The path of a source that can be read is not too long. -/
theorem FileTree.utf8ByteSize_lt_of_sourceAt {t : FileTree} {path : String}
    {source : Option SourceFile} (h : t.sourceAt path = .ok source) :
    path.utf8ByteSize < maxPathSize := by
  cases leads : t.resolve .look path with
  | error e => simp [sourceAt, read, leads] at h
  | ok d => exact (resolve_ok_iff.mp leads).2.2.1

/-- A job that is done has a source that declares something. -/
theorem Job.exists_contributes {format : String → FormatOutcome} {job : Job} {w w' : Workspace}
    {report : Report}
    (unformatted : ∀ settings, w.tree.settings job.dir = .ok settings →
      (job.options settings).format = false)
    (h : w.outcome (job.run (Workspace.host format)) = (.ok report, w')) :
    ∃ path, w.tree.Contributes job.dir path := by
  obtain ⟨asked, settings, entries, p, outputs, -, loaded, made, -, -⟩ :=
    (Workspace.outcome_run_iff unformatted).mp h
  obtain ⟨typeName, more, types⟩ := List.exists_cons_of_ne_nil asked
  rw [types] at made
  obtain ⟨o, _, output, -, -⟩ := List.forall₂_cons_left_iff.mp made
  obtain ⟨-, ⟨e, he, -⟩, -⟩ := Package.names_of_valueTable output.table
  obtain ⟨path, -, contributes⟩ := loaded.exists_contributes (List.ne_nil_of_mem he)
  exact ⟨path, contributes⟩

/-- The text of the one source file of the package `paint`. -/
def paintText : String := "package paint\ntype Color int\nconst (\n\tRed Color = iota\n\tBlue\n)\n"

/-- A workspace with the package `paint`. -/
def paintWorkspace : Workspace where
  tree := ⟨[(["paint"], .folder), (["paint", "color.go"], .file paintText.toUTF8)], []⟩
  warnings := []

/-- What `paintText` declares. -/
def paintSource (path : String) : SourceFile where
  path := path
  package := ⟨"paint", ⟨1, 9⟩⟩
  consts := [⟨⟨3, 1⟩, [⟨[⟨"Red", ⟨4, 2⟩⟩], some (.own "Color"), [.name ⟨"iota", ⟨4, 14⟩⟩], 0⟩,
    ⟨[⟨"Blue", ⟨5, 2⟩⟩], none, [], 1⟩]⟩]
  types := [⟨⟨"Color", ⟨2, 6⟩⟩, false, .named (.own "int")⟩]

/-- The package of `paintSource`. -/
def paintPackage (dir path : String) : Package where
  name := "paint"
  dir := dir
  files := [path]
  entries := [⟨"Red", path, ⟨4, 2⟩, some (.own "Color"), .name ⟨"iota", ⟨4, 14⟩⟩, 0, 0⟩,
    ⟨"Blue", path, ⟨5, 2⟩, some (.own "Color"), .name ⟨"iota", ⟨4, 14⟩⟩, 1, 1⟩]
  types := [⟨⟨"Color", ⟨2, 6⟩⟩, false, .named (.own "int")⟩]

/-- The job to write the file for the type `Color` of `paintPackage`. -/
def paintJob (dir front : String) : Job where
  dir := dir
  types := ["Color"]
  overrides := { Settings.empty with front := some front, back := some "", format := some false }
  command := "paint"

/-- The values of `Color`. -/
def paintTable : ValueTable := ⟨"Color", .int, [⟨"Red", 0, []⟩, ⟨"Blue", 1, []⟩]⟩

/-- The file that `paintJob` writes. -/
def paintOutput (path : String) (place : Location) : Output where
  file := ⟨"Color", path, paintTable, false⟩
  place := place
  text := (Generated.mk "paint" "paint" [paintTable.enumNames]).text

/-- What `paintJob` reports. -/
def paintReport (dir path : String) : Report :=
  ⟨"paint", dir, [⟨"Color", path, paintTable, false⟩]⟩

/-- `paintWorkspace` with the file that `paintJob` writes. -/
def paintedWorkspace (path : String) (place : Location) : Workspace :=
  { paintWorkspace with tree := paintWorkspace.tree.puts [(paintOutput path place).write] }

theorem paintJob_unformatted (dir front : String) (settings : Option Settings) :
    ((paintJob dir front).options settings).format = false := rfl

theorem hasRegularFiles_paint : paintWorkspace.tree.HasRegularFiles := by
  simp [FileTree.HasRegularFiles, paintWorkspace, Node.kind]

theorem sourcePaths_paint (dir : String) :
    sourcePaths dir [⟨"color.go", .file⟩] = [Path.join dir "color.go"] := by
  have source : isPackageSource "color.go" = true := by decide
  simp [sourcePaths, source]

theorem valueTable_paint (dir path : String) :
    (paintPackage dir path).valueTable "Color" .lexical = .ok paintTable := by cbv

theorem isOutput_paint {dir front path : String} {place : Location}
    (named : Path.join dir (outputName front "Color" "") = path)
    (leadsTo : paintWorkspace.tree.filePlaceAt? .write path = some place) :
    IsOutput paintWorkspace.tree (paintPackage dir (Path.join dir "color.go"))
      ((paintJob dir front).options none) "paint" "Color" (paintOutput path place) where
  table := valueTable_paint ..
  file := by rw [← named]; rfl
  place := leadsTo
  text := by simp only [paintOutput, paintPackage]

theorem eq_of_contributes {t : FileTree} {dir path : String}
    (listed : t.list dir = .ok [⟨"color.go", .file⟩]) (h : t.Contributes dir path) :
    path = Path.join dir "color.go" := by
  obtain ⟨entries, found, mem, -⟩ := h
  obtain rfl := Except.ok.inj (listed.symm.trans found)
  rw [sourcePaths_paint] at mem
  exact List.mem_singleton.mp mem

section Paint

variable {dir front path : String} {place : Location}
  (leads : paintWorkspace.tree.resolve .look dir = .ok (.folder ["paint"]))
  (short : (Path.join dir "color.go").utf8ByteSize < FileTree.maxPathSize)

include leads

theorem list_paint : paintWorkspace.tree.list dir = .ok [⟨"color.go", .file⟩] := by
  rw [FileTree.list, leads]
  rfl

theorem settings_paint : paintWorkspace.tree.settings dir = .ok none := by
  have isName : FileTree.IsName Settings.fileName := ⟨by decide, by decide, by decide, by decide⟩
  have vacant : paintWorkspace.tree.nodeAt? (["paint"] ++ [Settings.fileName]) = none := by
    decide +kernel
  have missing : paintWorkspace.tree.hasPath (Path.join dir Settings.fileName) = false := by
    have standing : paintWorkspace.tree.standingAt (["paint"] ++ [Settings.fileName]) =
        .vacant (["paint"] ++ [Settings.fileName]) := by rw [FileTree.standingAt, vacant]
    have noLink : ∀ target, paintWorkspace.tree.nodeAt? (["paint"] ++ [Settings.fileName]) ≠
        some (.link target) := fun target found => by cases vacant.symm.trans found
    rw [FileTree.hasPath, FileTree.resolve_join leads isName noLink, standing]
    split_ifs <;> rfl
  simp [FileTree.settings, missing]

include short

theorem resolve_paint : paintWorkspace.tree.resolve .look (Path.join dir "color.go") =
    .ok (.file ["paint", "color.go"] paintText.toUTF8) := by
  have isName : FileTree.IsName "color.go" := ⟨by decide, by decide, by decide, by decide⟩
  have stands : paintWorkspace.tree.nodeAt? (["paint"] ++ ["color.go"]) =
      some (.file paintText.toUTF8) := rfl
  obtain ⟨start, nul, joined⟩ :=
    FileTree.join_of_relative (FileTree.resolve_ok_iff.mp leads).1
  have noLink : ∀ target, paintWorkspace.tree.nodeAt? (["paint"] ++ ["color.go"]) ≠
      some (.link target) := fun target found => by cases stands.symm.trans found
  refine (FileTree.resolve_join_iff leads isName noLink).mpr ⟨?_, short, by decide, ?_⟩
  · rw [joined _ (by decide), String.toList_append, List.mem_append]
    exact fun h => h.elim nul (by decide)
  · rw [FileTree.standingAt, stands]
    rfl

theorem hasPackage_paint : paintWorkspace.tree.HasPackage dir [⟨"color.go", .file⟩]
    (paintPackage dir (Path.join dir "color.go")) := by
  have read : paintWorkspace.tree.read (Path.join dir "color.go") = .ok paintText := by
    simp only [FileTree.read, resolve_paint leads short, FileTree.fromUTF8?_toUTF8]
  have built : isBuildIgnored paintText = false := by decide +kernel
  have file : SourceFile.ofText (Path.join dir "color.go") paintText =
      .ok (paintSource (Path.join dir "color.go")) := by
    generalize Path.join dir "color.go" = path
    with_unfolding_all rfl
  have source : paintWorkspace.tree.sourceAt (Path.join dir "color.go") =
      .ok (some (paintSource (Path.join dir "color.go"))) := by
    simp [FileTree.sourceAt, read, built, file]
  have files : paintWorkspace.tree.sourcesAt (sourcePaths dir [⟨"color.go", .file⟩]) =
      [paintSource (Path.join dir "color.go")] := by
    rw [sourcePaths_paint, FileTree.sourcesAt_cons source]
    rfl
  refine ⟨list_paint leads, ?_, ?_, ?_⟩
  · rw [sourcePaths_paint]
    exact List.forall_mem_singleton.mpr ⟨_, source⟩
  · rw [files]
    simp [OnePackage]
  · rw [files]
    generalize Path.join dir "color.go" = path
    cbv

theorem outcome_paintJob (named : Path.join dir (outputName front "Color" "") = path)
    (leadsTo : paintWorkspace.tree.filePlaceAt? .write path = some place) :
    paintWorkspace.outcome ((paintJob dir front).run (Workspace.host fun _ => .unavailable)) =
      (.ok (paintReport dir path), paintedWorkspace path place) :=
  (Workspace.outcome_run_iff fun settings _ => paintJob_unformatted dir front settings).mpr
    ⟨List.cons_ne_nil _ _, none, _, _, [paintOutput path place], settings_paint leads,
      hasPackage_paint leads short, .cons (isOutput_paint named leadsTo) .nil, rfl, rfl⟩

end Paint

/-- The path `paint`, and after it parts that stay where they are. -/
def paintPath : Nat → String
  | 0 => "paint"
  | n + 1 => paintPath n ++ "/."

theorem utf8ByteSize_paintPath (n : Nat) : (paintPath n).utf8ByteSize = 5 + 2 * n := by
  induction n with
  | zero => rfl
  | succ n ih =>
    have more : "/.".utf8ByteSize = 2 := rfl
    rw [paintPath, String.utf8ByteSize_append, ih, more]
    omega

theorem paintPath_ne_empty (n : Nat) : paintPath n ≠ "" := by
  intro none
  have size := utf8ByteSize_paintPath n
  rw [none, String.utf8ByteSize_empty] at size
  omega

theorem nul_notMem_paintPath (n : Nat) : '\x00' ∉ (paintPath n).toList := by
  induction n with
  | zero => decide
  | succ n ih => simp [paintPath, ih]

theorem utf8ByteSize_join_paintPath (n : Nat) {name : String}
    (relative : Path.isAbsolute name = false) :
    (Path.join (paintPath n) name).utf8ByteSize = 6 + 2 * n + name.utf8ByteSize := by
  have some : (paintPath n).isEmpty = false := by simpa using paintPath_ne_empty n
  have noSlash : ['/'].isSuffixOf (paintPath n).toList = false := by
    cases n with
    | zero => decide
    | succ n => simp [paintPath, List.isSuffixOf, List.isPrefixOf]
  have slash : "/".utf8ByteSize = 1 := rfl
  rw [Path.join, relative, some, noSlash]
  simp only [Bool.false_eq_true, ↓reduceIte, Bool.or_self, String.utf8ByteSize_append, slash,
    utf8ByteSize_paintPath]
  omega

theorem resolve_paintPath (n : Nat) (short : 5 + 2 * n < FileTree.maxPathSize) :
    paintWorkspace.tree.resolve .look (paintPath n) = .ok (.folder ["paint"]) := by
  have start : ∀ n, FileTree.startOf [] (paintPath n) = [] := fun n => by
    unfold FileTree.startOf
    split <;> rfl
  have stage : paintWorkspace.tree.stage .look [] (FileTree.parts (paintPath n)) =
      .ok (.arrived (.folder ["paint"])) := by
    clear short
    induction n with
    | zero => rfl
    | succ n ih =>
      have parts : FileTree.parts (paintPath (n + 1)) = FileTree.parts (paintPath n) ++ ["."] := by
        have text : (paintPath (n + 1)).toList = (paintPath n).toList ++ '/' :: ['.'] := by
          simp [paintPath]
        rw [FileTree.parts, text, pieces_append, List.map_append]
        rfl
      rw [parts, FileTree.stage_append (List.cons_ne_nil _ _), ih]
      rfl
  refine FileTree.resolve_ok_iff.mpr
    ⟨nul_notMem_paintPath n, paintPath_ne_empty n, ?_, FileTree.walk_ok_iff.mpr (.inl ?_)⟩
  · rwa [utf8ByteSize_paintPath]
  · exact (congrArg (paintWorkspace.tree.stage .look · _) (start n)).trans stage

/-- The file `all_color.go` is one of the sources when the job is done again, and its path is too
long. -/
theorem not_run_painted_far {dir path : String}
    (far : paintWorkspace.tree.resolve .look dir = .ok (.folder ["paint"]))
    (long : FileTree.maxPathSize ≤ (Path.join dir "all_color.go").utf8ByteSize) (front : String)
    (report : Report) (w : Workspace) :
    (paintedWorkspace path ["paint", "all_color.go"]).outcome
      ((paintJob dir front).run (Workspace.host fun _ => .unavailable)) ≠ (.ok report, w) := by
  intro again
  obtain ⟨-, settings, entries, p, outputs, -, loaded, -⟩ := (Workspace.outcome_run_iff
    fun settings _ => paintJob_unformatted dir front settings).mp again
  have filePlace : paintWorkspace.tree.IsFilePlace ["paint", "all_color.go"] :=
    FileTree.isFilePlace_of_filePlaceAt?
      (by decide +kernel : paintWorkspace.tree.filePlaceAt? .write "/paint/all_color.go" = some _)
  have leads : (paintedWorkspace path ["paint", "all_color.go"]).tree.resolve .look dir =
      .ok (.folder ["paint"]) :=
    (FileTree.resolve_puts_ok_iff (List.forall_mem_singleton.mpr filePlace)).mpr ⟨_, far, rfl⟩
  have listed : (paintedWorkspace path ["paint", "all_color.go"]).tree.list dir =
      .ok [⟨"color.go", .file⟩, ⟨"all_color.go", .file⟩] := by
    rw [FileTree.list, leads]
    rfl
  obtain rfl := Except.ok.inj (listed.symm.trans loaded.listed)
  obtain ⟨source, found⟩ := loaded.readable _
    (join_mem_sourcePaths dir (e := ⟨"all_color.go", .file⟩) (by decide +kernel))
  exact absurd (FileTree.utf8ByteSize_lt_of_sourceAt found) (Nat.not_lt.mpr long)

/-- No source is left that declares something when `color.go` is written over. -/
theorem not_run_painted_over {front path : String}
    (named : Path.join "paint" (outputName front "Color" "") = path)
    (leadsTo : paintWorkspace.tree.filePlaceAt? .write path = some ["paint", "color.go"])
    (report : Report) (w : Workspace) :
    (paintedWorkspace path ["paint", "color.go"]).outcome
      ((paintJob "paint" front).run (Workspace.host fun _ => .unavailable)) ≠ (.ok report, w) := by
  intro again
  obtain ⟨path', contributes⟩ := Job.exists_contributes
    (fun settings _ => paintJob_unformatted "paint" front settings) again
  have listed : (paintedWorkspace path ["paint", "color.go"]).tree.list "paint" =
      .ok [⟨"color.go", .file⟩] := by rfl
  obtain rfl := eq_of_contributes listed contributes
  obtain ⟨-, -, -, some⟩ := contributes
  have loaded : paintWorkspace.tree.HasPackage "paint" [⟨"color.go", .file⟩]
      (paintPackage "paint" (Path.join "paint" "color.go")) :=
    hasPackage_paint (by rfl) (by decide +kernel)
  have bare := (isOutput_paint named leadsTo).isBareSource loaded.wellNamed (by decide)
  have place : paintWorkspace.tree.filePlaceAt? .look (Path.join "paint" "color.go") =
      Option.some ["paint", "color.go"] := by decide +kernel
  have isPlace : paintWorkspace.tree.IsFilePlace (paintOutput path ["paint", "color.go"]).write.1 :=
    FileTree.isFilePlace_of_filePlaceAt? leadsTo
  obtain ⟨pos, source⟩ := FileTree.sourceAt_puts_of_mem (List.forall_mem_singleton.mpr isPlace)
    (List.forall_mem_singleton.mpr bare) List.mem_cons_self place
  have none : (paintedWorkspace path ["paint", "color.go"]).tree.contribution?
      (Path.join "paint" "color.go") = none :=
    congrArg (fun found => (Except.toOption found).join.filter SourceFile.contributes) source
  exact Option.not_isSome_iff_eq_none.mpr none some

end EnumCodec
