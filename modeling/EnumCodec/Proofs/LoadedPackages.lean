import EnumCodec.Proofs.ByteOrder
import EnumCodec.Proofs.NamePlaces
import EnumCodec.Proofs.PackageFiles
import EnumCodec.Proofs.References

/-!
# The order of a loaded package

A package that could be loaded has its files in the order of their names, byte by byte, and its
constants in the order in which they stand in these files.

* `FileTree.Distinct` — a tree has one node at a place at most; `FileTree.Built.distinct` — so has every
  tree that is built from an empty one.
* `names_before` — so the source files of a directory are listed by strictly increasing names.
* `numbered_precedes` — what files declare, one file after the other, stands in source order.
* `Package.InOrder`, `Workspace.inOrder_of_load` — what loading a directory gives.
-/

set_option autoImplicit false

namespace EnumCodec

/-! ## One node at a place -/

namespace FileTree

/-- At most one node stands at a place. -/
def Distinct (t : FileTree) : Prop := (t.nodes.map (·.1)).Nodup

variable {t : FileTree}

theorem Distinct.put (h : t.Distinct) (place : Location) (node : Node) :
    (t.put place node).Distinct := by
  have others : ((t.nodes.filter fun n => n.1 != place).map (·.1)).Nodup :=
    List.Nodup.sublist (List.filter_sublist.map _) h
  unfold Distinct FileTree.put
  rw [← List.concat_eq_append, List.map_concat]
  exact others.concat (by simp)

theorem Distinct.putFolders (h : t.Distinct) (places : List Location) :
    (t.putFolders places).Distinct := by
  unfold FileTree.putFolders
  induction places generalizing t with
  | nil => exact h
  | cons place places ih =>
    rw [List.foldl_cons]
    split
    · exact ih h
    · exact ih (h.put place .folder)

theorem distinct_bare (workingDir : Location) : (bare workingDir).Distinct :=
  Distinct.putFolders (t := ⟨[], workingDir⟩) List.nodup_nil _

theorem Distinct.create (h : t.Distinct) (path : String) (node : Node) :
    (t.create path node).Distinct := by
  have folders := h.putFolders (placesAbove (t.placeOf path))
  unfold FileTree.create
  dsimp only
  split <;> exact folders.put ..

theorem Distinct.remove (h : t.Distinct) (path : String) : (t.remove path).Distinct :=
  h.sublist (List.filter_sublist.map _)

theorem Distinct.write (h : t.Distinct) {path text : String} {t' : FileTree}
    (written : t.write path text = .ok t') : t'.Distinct := by
  unfold FileTree.write at written
  split at written <;> cases written
  · exact h.put ..
  · exact h.put ..

/-- A tree that comes about from an empty one as files are made, changed and taken away. -/
inductive Built : FileTree → Prop
  | bare (workingDir : Location) : Built (bare workingDir)
  | create {t : FileTree} (h : Built t) (path : String) (node : Node) : Built (t.create path node)
  | remove {t : FileTree} (h : Built t) (path : String) : Built (t.remove path)
  | write {t t' : FileTree} (h : Built t) {path text : String} (written : t.write path text = .ok t') :
      Built t'

theorem Built.distinct (h : t.Built) : t.Distinct := by
  induction h with
  | bare workingDir => exact distinct_bare workingDir
  | create _ path node ih => exact ih.create path node
  | remove _ path ih => exact ih.remove path
  | write _ written ih => exact ih.write written

/-! ## The listing of a directory -/

/-- The entries of a directory have names of their own. -/
theorem Distinct.names_nodup (h : t.Distinct) {dir : String} {entries : List DirEntry}
    (listed : t.list dir = .ok entries) : (entries.map (·.name)).Nodup := by
  unfold FileTree.list at listed
  split at listed <;> cases listed
  · exact List.nodup_nil
  · rename_i folder _
    rw [List.Nodup, List.pairwise_map, List.pairwise_filterMap]
    have places : t.nodes.Pairwise fun m n => m.1 ≠ n.1 := List.pairwise_map.mp h
    refine places.imp fun {m n} hmn a ha b hb hab => hmn ?_
    rw [(entryIn?_eq_some_iff.mp ha).1, (entryIn?_eq_some_iff.mp hb).1, hab]

end FileTree

/-- The source files of a directory, in the order of their names. -/
def sortedSources (entries : List DirEntry) : List DirEntry :=
  (sourceEntries entries).mergeSort notAfter

/-- No two of them have one name, so that each name comes strictly after the one before it. -/
theorem names_before {entries : List DirEntry} (h : (entries.map (·.name)).Nodup) :
    (sortedSources entries).Pairwise fun a b => bytes a.name < bytes b.name := by
  have distinct : ((sortedSources entries).map (·.name)).Nodup := by
    refine ((List.mergeSort_perm _ notAfter).map _).nodup_iff.mpr ?_
    exact h.sublist (List.filter_sublist.map _)
  have sorted := (pairwise_mergeSort_notAfter (sourceEntries entries)).and
    (List.pairwise_map.mp distinct)
  exact sorted.imp fun {a b} hab => bytes_lt_iff.mpr (lt_of_le_of_ne hab.1 hab.2)

namespace FileTree

variable {t : FileTree} {path : String} {file : SourceFile}

/-- A source file has been read from the text at its path. -/
theorem ofText_of_sourceAt (h : t.sourceAt path = .ok (some file)) :
    file.path = path ∧ ∃ text, SourceFile.ofText path text = .ok file := by
  unfold sourceAt at h
  split at h
  · cases h
  rename_i text _
  split at h
  · cases h
  split at h <;> cases h
  rename_i read
  refine ⟨?_, text, read⟩
  unfold SourceFile.ofText readFile at read
  split at read
  · cases read
  split at read
  · cases read
  split at read <;> cases read
  rfl

theorem join_sourceAt_eq_some_iff :
    (t.sourceAt path).toOption.join = some file ↔ t.sourceAt path = .ok (some file) := by
  cases t.sourceAt path <;> simp [Except.toOption]

theorem mem_sourcesAt_iff {paths : List String} :
    file ∈ t.sourcesAt paths ↔ ∃ path ∈ paths, t.sourceAt path = .ok (some file) := by
  simp only [sourcesAt, List.mem_filterMap, join_sourceAt_eq_some_iff]

/-- The files that are read keep the order of the paths. -/
theorem paths_sourcesAt (t : FileTree) (paths : List String) :
    (t.sourcesAt paths).map (·.path) =
      paths.filter fun path => (t.sourceAt path).toOption.join.isSome := by
  unfold sourcesAt
  induction paths with
  | nil => rfl
  | cons path paths ih =>
    rw [List.filterMap_cons, List.filter_cons]
    cases found : (t.sourceAt path).toOption.join with
    | none => exact ih
    | some file =>
      rw [List.map_cons, ih, (ofText_of_sourceAt (join_sourceAt_eq_some_iff.mp found)).1]
      rfl

end FileTree

/-! ## The order of constants -/

/-- A constant stands before another one: in an earlier one of the files, or in the same file at an
earlier place. -/
inductive ConstEntry.Precedes (files : List String) (e f : ConstEntry) : Prop
  | file {a b : Nat} (earlier : a < b) (first : files[a]? = some e.file)
      (second : files[b]? = some f.file) : ConstEntry.Precedes files e f
  | place (same : e.file = f.file) (listed : e.file ∈ files) (before : e.pos.Before f.pos) :
      ConstEntry.Precedes files e f

theorem ConstSpec.mem_declarations {file : String} {line supplier : ConstSpec} {c : ConstDeclared}
    (h : c ∈ line.declarations file supplier) : c.file = file ∧ c.ident.isBlank = false := by
  obtain ⟨named, kept, rfl⟩ := List.mem_map.mp h
  exact ⟨rfl, by simpa using (List.mem_filter.mp kept).2⟩

theorem SourceFile.mem_declarations {file : SourceFile} {c : ConstDeclared}
    (h : c ∈ file.declarations) : c.file = file.path ∧ c.ident.isBlank = false := by
  obtain ⟨decl, -, hc⟩ := List.mem_flatMap.mp h
  obtain ⟨cs, hcs, hc⟩ := List.mem_flatten.mp hc
  obtain ⟨k, hk, rfl⟩ := List.mem_mapIdx.mp hcs
  cases found : supplier? decl.specs k with
  | none => simp [found] at hc
  | some supplier =>
    rw [found] at hc
    exact ConstSpec.mem_declarations hc

/-- What files declare stands in the order of the files, and of the text of each. -/
theorem declarations_precede {files : List SourceFile}
    (h : ∀ file ∈ files, file.declarations.Pairwise fun c d => c.ident.pos.Before d.ident.pos) :
    (files.flatMap SourceFile.declarations).Pairwise fun c d =>
      (c.entry 0).Precedes (files.map (·.path)) (d.entry 0) := by
  rw [List.pairwise_flatMap]
  constructor
  · intro file hfile
    refine (h file hfile).imp_of_mem fun {c d} hc hd before => .place ?_ ?_ before
    · exact (SourceFile.mem_declarations hc).1.trans (SourceFile.mem_declarations hd).1.symm
    · rw [ConstDeclared.entry, (SourceFile.mem_declarations hc).1]
      exact List.mem_map_of_mem hfile
  · rw [List.pairwise_iff_getElem]
    intro a b ha hb hab c hc d hd
    refine .file hab ?_ ?_
    · simp [ConstDeclared.entry, (SourceFile.mem_declarations hc).1, ha]
    · simp [ConstDeclared.entry, (SourceFile.mem_declarations hd).1, hb]

/-- Which numbers constants have does not matter to their order. -/
theorem ConstEntry.Precedes.renumber {files : List String} {c d : ConstDeclared} {i j i' j' : Nat}
    (h : (c.entry i).Precedes files (d.entry j)) : (c.entry i').Precedes files (d.entry j') := by
  cases h with
  | file earlier first second => exact .file earlier first second
  | place same listed before => exact .place same listed before

theorem numbered_precedes {files : List String} {constants : List ConstDeclared}
    (h : constants.Pairwise fun c d => (c.entry 0).Precedes files (d.entry 0)) (start : Nat) :
    (numberedFrom start constants).Pairwise (ConstEntry.Precedes files) := by
  rw [← List.zipIdx_map_fst start constants, List.pairwise_map] at h
  exact List.pairwise_map.mpr (h.imp fun before => before.renumber)

theorem getElem?_numberedFrom {start k : Nat} {constants : List ConstDeclared} {e : ConstEntry}
    (h : (numberedFrom start constants)[k]? = some e) :
    ∃ c ∈ constants, e = c.entry (start + k) := by
  rw [numberedFrom, List.getElem?_map, List.getElem?_zipIdx, Option.map_map] at h
  obtain ⟨c, hc, rfl⟩ := Option.map_eq_some_iff.mp h
  exact ⟨c, List.mem_of_getElem? hc, rfl⟩

/-! ## A loaded package -/

/-- The files and the constants of a package follow the directory that it was read from.  Its files
are source files of the directory, in the order of their names, and each of them says that it belongs
to the package; its constants have names of their own, none of them blank, are numbered from zero, and
stand in the order of the files and of their text. -/
structure Package.InOrder (t : FileTree) (dir : String) (p : Package) : Prop where
  files : ∃ (entries : List DirEntry) (names : List String), t.list dir = .ok entries ∧
    (∀ name ∈ names, ⟨name, .file⟩ ∈ entries) ∧ p.files = names.map (Path.join dir) ∧
    names.Pairwise fun a b => bytes a < bytes b
  package : ∀ path ∈ p.files, ∃ file,
    t.sourceAt path = .ok (some file) ∧ file.package.name = p.name
  distinct : DistinctNames p.entries
  named : ∀ e ∈ p.entries, e.name ≠ blankName
  numbered : ∀ (k : Nat) (e : ConstEntry), p.entries[k]? = some e → e.index = k
  declared : p.entries.Pairwise (ConstEntry.Precedes p.files)

namespace FileTree.HasPackage

variable {t : FileTree} {dir : String} {entries : List DirEntry} {p : Package}

theorem exists_names (distinct : t.Distinct) (h : t.HasPackage dir entries p) :
    ∃ names : List String, (∀ name ∈ names, ⟨name, .file⟩ ∈ entries) ∧
      p.files = names.map (Path.join dir) ∧ names.Pairwise fun a b => bytes a < bytes b := by
  have before := names_before (distinct.names_nodup h.listed)
  obtain ⟨-, -, hfiles, -, -⟩ := Package.ofFiles_ok_iff.mp h.ofFiles
  rw [paths_sourcesAt, sourcePaths_eq, ← sortedSources, List.filter_map] at hfiles
  generalize kept_eq : (sortedSources entries).filter _ = kept at hfiles
  have sublist : kept.Sublist (sortedSources entries) := kept_eq ▸ List.filter_sublist
  refine ⟨kept.map (·.name), ?_, by rw [hfiles, List.map_map]; rfl, ?_⟩
  · intro name hname
    obtain ⟨e, he, rfl⟩ := List.mem_map.mp hname
    have source := List.mem_mergeSort.mp (sublist.subset he)
    obtain ⟨listed, isSource⟩ := List.mem_filter.mp source
    rwa [← (DirEntry.isSource_iff.mp isSource).1]
  · exact List.pairwise_map.mpr (before.sublist sublist)

theorem inOrder (distinct : t.Distinct) (h : t.HasPackage dir entries p) :
    p.InOrder t dir := by
  obtain ⟨-, -, hfiles, hentries, -⟩ := Package.ofFiles_ok_iff.mp h.ofFiles
  obtain ⟨-, adds⟩ := declareFiles_iff.mp hentries
  have after : p.entries = numberedFrom 0
      ((t.sourcesAt (sourcePaths dir entries)).flatMap SourceFile.declarations) := by
    simpa using adds.after_eq
  obtain ⟨names, listed, joined, before⟩ := h.exists_names distinct
  constructor
  · exact ⟨entries, names, h.listed, listed, joined, before⟩
  · intro path hpath
    rw [hfiles] at hpath
    obtain ⟨file, hfile, rfl⟩ := List.mem_map.mp hpath
    obtain ⟨path, -, found⟩ := mem_sourcesAt_iff.mp hfile
    obtain ⟨hpath, -⟩ := ofText_of_sourceAt found
    exact ⟨file, hpath ▸ found, h.package_name file hfile⟩
  · rw [DistinctNames, after, names_numberedFrom]
    exact adds.distinct
  · intro e he
    obtain ⟨k, hk⟩ := List.mem_iff_getElem?.mp he
    rw [after] at hk
    obtain ⟨c, hc, rfl⟩ := getElem?_numberedFrom hk
    obtain ⟨file, -, hc⟩ := List.mem_flatMap.mp hc
    simpa [Ident.isBlank] using (SourceFile.mem_declarations hc).2
  · intro k e hk
    rw [after] at hk
    obtain ⟨c, -, rfl⟩ := getElem?_numberedFrom hk
    exact Nat.zero_add k
  · rw [after, hfiles]
    refine numbered_precedes (declarations_precede fun file hfile => ?_) 0
    obtain ⟨path, -, found⟩ := mem_sourcesAt_iff.mp hfile
    obtain ⟨-, text, read⟩ := ofText_of_sourceAt found
    exact SourceFile.declarations_before read

end FileTree.HasPackage

/-- **A directory that loads gives its package in order**, and is left as it was. -/
theorem Workspace.inOrder_of_load {w w' : Workspace} {format : String → FormatOutcome} {dir : String}
    {p : Package} (distinct : w.tree.Distinct)
    (h : w.outcome (Package.load (host format) dir) = (.ok p, w')) :
    p.InOrder w.tree dir ∧ w' = w := by
  obtain ⟨rfl, entries, has⟩ := outcome_load_iff.mp h
  exact ⟨has.inOrder distinct, rfl⟩

/-- A directory in which the later one of two files was made first. -/
def tideWorkspace : Workspace where
  tree := ⟨[(["tide"], .folder), (["tide", "low.go"], .file "package tide\nconst Ebb = 8\n".toUTF8),
    (["tide", "high.go"],
      .file "package tide\nconst (\n\tTop, _ = iota, 9\n\n\tMid, Rim\n)\n".toUTF8)], []⟩
  warnings := []

/-- The package of `tideWorkspace`. -/
def tidePackage : Package where
  name := "tide"
  dir := "tide"
  files := ["tide/high.go", "tide/low.go"]
  entries :=
    [⟨"Top", "tide/high.go", ⟨3, 2⟩, none, .name ⟨"iota", ⟨3, 11⟩⟩, 0, 0⟩,
     ⟨"Mid", "tide/high.go", ⟨5, 2⟩, none, .name ⟨"iota", ⟨3, 11⟩⟩, 1, 1⟩,
     ⟨"Rim", "tide/high.go", ⟨5, 7⟩, none, .integer "9", 1, 2⟩,
     ⟨"Ebb", "tide/low.go", ⟨2, 7⟩, none, .integer "8", 0, 3⟩]
  types := []

/-- The file with a group. -/
def tideHigh : SourceFile :=
  ⟨"tide/high.go", ⟨"tide", ⟨1, 9⟩⟩,
    [⟨⟨2, 1⟩, [⟨[⟨"Top", ⟨3, 2⟩⟩, ⟨"_", ⟨3, 7⟩⟩], none, [.name ⟨"iota", ⟨3, 11⟩⟩, .integer "9"], 0⟩,
      ⟨[⟨"Mid", ⟨5, 2⟩⟩, ⟨"Rim", ⟨5, 7⟩⟩], none, [], 1⟩]⟩], []⟩

/-- The file with one constant. -/
def tideLow : SourceFile :=
  ⟨"tide/low.go", ⟨"tide", ⟨1, 9⟩⟩, [⟨⟨2, 1⟩, [⟨[⟨"Ebb", ⟨2, 7⟩⟩], none, [.integer "8"], 0⟩]⟩], []⟩

theorem sourcePaths_tide : sourcePaths "tide" [⟨"low.go", .file⟩, ⟨"high.go", .file⟩] =
    ["tide/high.go", "tide/low.go"] := by
  have sources : sourceEntries [⟨"low.go", .file⟩, ⟨"high.go", .file⟩] =
      [⟨"low.go", .file⟩, ⟨"high.go", .file⟩] := by decide +kernel
  have swapped : notAfter ⟨"low.go", .file⟩ ⟨"high.go", .file⟩ = false := by decide +kernel
  have sorted : [⟨"low.go", .file⟩, ⟨"high.go", .file⟩].mergeSort notAfter =
      [⟨"high.go", .file⟩, ⟨"low.go", .file⟩] := by
    simp [List.mergeSort, swapped, List.MergeSort.Internal.splitInTwo, List.splitAt,
      List.splitAt.go]
  rw [sourcePaths_eq, sources, sorted]
  decide +kernel

theorem tideWorkspace_hasPackage : tideWorkspace.tree.HasPackage "tide"
    [⟨"low.go", .file⟩, ⟨"high.go", .file⟩] tidePackage := by
  have first : tideWorkspace.tree.sourceAt "tide/high.go" = .ok (some tideHigh) := by
    with_unfolding_all rfl
  have second : tideWorkspace.tree.sourceAt "tide/low.go" = .ok (some tideLow) := by
    with_unfolding_all rfl
  have files : tideWorkspace.tree.sourcesAt ["tide/high.go", "tide/low.go"] =
      [tideHigh, tideLow] := by
    rw [FileTree.sourcesAt_cons first, FileTree.sourcesAt_cons second]
    rfl
  refine ⟨rfl, ?_, ?_, ?_⟩ <;> rw [sourcePaths_tide]
  · simpa using ⟨⟨_, first⟩, ⟨_, second⟩⟩
  · rw [files]
    simp [OnePackage, tideHigh, tideLow]
  · rw [files]
    rfl

theorem Workspace.inOrder_of_load_tide :
    tideWorkspace.tree.Distinct ∧
    tideWorkspace.outcome (Package.load (host fun _ => .unavailable) "tide")
      = (.ok tidePackage, tideWorkspace) ∧
    tidePackage.InOrder tideWorkspace.tree "tide" := by
  have distinct : tideWorkspace.tree.Distinct := by
    unfold FileTree.Distinct
    decide
  have loaded : tideWorkspace.outcome (Package.load (host fun _ => .unavailable) "tide")
      = (.ok tidePackage, tideWorkspace) :=
    outcome_load_iff.mpr ⟨rfl, _, tideWorkspace_hasPackage⟩
  exact ⟨distinct, loaded, (inOrder_of_load distinct loaded).1⟩

end EnumCodec
