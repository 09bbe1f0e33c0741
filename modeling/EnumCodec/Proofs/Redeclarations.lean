import EnumCodec.Proofs.ListingStops
import EnumCodec.Proofs.PackageFiles

/-!
# Names that are declared again

What a directory is refused for when all its files can be read on their own.  Two passes look for names
that are declared again: one over the constants, which passes over blank names, and one over the types,
which does not; neither sees what the other one has found.

* `SourceError.Redeclares` — an error says of one of some names that it is declared again, and it stands
  among them twice.
* `extractConstants_error`, `declareFileTypes_error` — this is all that the passes refuse complete files for.
* `Package.ofFiles_error`, `Package.nodup_of_ofFiles` — so it is all that they are refused for together,
  and what they make up has no such name.
* `Workspace.load_redeclared_iff` — when a directory is refused for a name that is declared again.
-/

set_option autoImplicit false

namespace EnumCodec

/-! ## Errors about names -/

/-- The error is about a name that stands among the given ones more than once. -/
def SourceError.Redeclares (e : SourceError) (names : List String) : Prop :=
  ∃ name previous, e.problem = .redeclared name previous ∧ 2 ≤ names.count name

theorem SourceError.Redeclares.mono {e : SourceError} {names more : List String}
    (h : e.Redeclares names) (sublist : names.Sublist more) : e.Redeclares more := by
  obtain ⟨name, previous, problem, twice⟩ := h
  exact ⟨name, previous, problem, twice.trans (sublist.count_le name)⟩

theorem SourceError.Redeclares.not_nodup {e : SourceError} {names : List String}
    (h : e.Redeclares names) : ¬ names.Nodup := by
  obtain ⟨name, -, -, twice⟩ := h
  intro nodup
  have := List.nodup_iff_count_le_one.mp nodup name
  omega

/-- A name among the ones so far is declared again. -/
theorem redeclares_of_mem {name file : String} {previous : Option (String × Pos)} {pos : Pos}
    {before rest : List String} (h : name ∈ before) :
    SourceError.Redeclares ⟨⟨.redeclared name previous, pos⟩, file⟩ (before ++ name :: rest) := by
  refine ⟨name, previous, rfl, ?_⟩
  rw [List.count_append, List.count_cons_self]
  have := List.count_pos_iff.mpr h
  omega

/-! ## Constants -/

/-- Complete files are refused for nothing but a constant that is declared again. -/
theorem extractConstants_error {files : List SourceFile} {e : SourceError}
    (complete : ∀ file ∈ files, ∀ decl ∈ file.consts, decl.Complete)
    (h : extractConstants files = .error e) : e.Redeclares (files.flatMap SourceFile.constNames) := by
  obtain ⟨file, before, line, entries, comes, stop⟩ := extractConstants_stop h
  obtain ⟨supplier, last, count⟩ := comes.exists_supplier complete
  obtain ⟨earlier, ident, later, place, split, named, declared, rfl⟩ := declareLine_stop last count stop
  exact ⟨ident.name, some place, rfl, comes.two_le_count split named declared⟩

/-! ## Types -/

section Types

variable {file : String} {e : SourceError}

/-- The names of the types that a file declares, blank ones too. -/
def SourceFile.typeNames (file : SourceFile) : List String := file.types.map (·.name.name)

theorem any_named_iff {types : List TypeSpec} {name : String} :
    (types.any fun t => t.name.name == name) = true ↔ name ∈ types.map (·.name.name) := by
  simp

/-- The types that have been listed have names of their own. -/
theorem declareTypes_ok {specs types after : List TypeSpec}
    (nodup : (types.map (·.name.name)).Nodup) (h : declareTypes file specs types = .ok after) :
    (after.map (·.name.name)).Nodup ∧ after = types ++ specs := by
  induction specs generalizing types with
  | nil =>
    cases h
    exact ⟨nodup, (List.append_nil _).symm⟩
  | cons spec specs ih =>
    rw [declareTypes] at h
    split at h
    case isTrue seen => cases h
    case isFalse unseen =>
      have fresh := mt any_named_iff.mpr unseen
      have snoc : ((types ++ [spec]).map (·.name.name)).Nodup := by
        rw [← List.concat_eq_append, List.map_concat]
        exact nodup.concat fresh
      simpa using ih snoc h

theorem declareTypes_error {specs types : List TypeSpec}
    (h : declareTypes file specs types = .error e) :
    e.Redeclares ((types ++ specs).map (·.name.name)) := by
  induction specs generalizing types with
  | nil => cases h
  | cons spec specs ih =>
    rw [declareTypes] at h
    split at h
    case isTrue seen =>
      cases h
      rw [List.map_append]
      exact redeclares_of_mem (any_named_iff.mp seen)
    case isFalse unseen => simpa using ih h

theorem declareFileTypes_ok {files : List SourceFile} {types after : List TypeSpec}
    (nodup : (types.map (·.name.name)).Nodup) (h : declareFileTypes files types = .ok after) :
    (after.map (·.name.name)).Nodup ∧ after = types ++ files.flatMap (·.types) := by
  induction files generalizing types with
  | nil =>
    cases h
    exact ⟨nodup, (List.append_nil _).symm⟩
  | cons file files ih =>
    rw [declareFileTypes] at h
    split at h
    · cases h
    rename_i middle declared
    obtain ⟨nodup', rfl⟩ := declareTypes_ok nodup declared
    simpa using ih nodup' h

/-- Files are refused for nothing but a type that is declared again. -/
theorem declareFileTypes_error {files : List SourceFile} {types : List TypeSpec}
    (nodup : (types.map (·.name.name)).Nodup) (h : declareFileTypes files types = .error e) :
    e.Redeclares ((types ++ files.flatMap (·.types)).map (·.name.name)) := by
  induction files generalizing types with
  | nil => cases h
  | cons file files ih =>
    rw [declareFileTypes] at h
    rw [List.flatMap_cons, ← List.append_assoc]
    split at h
    · cases h
      rename_i declared
      exact (declareTypes_error declared).mono ((List.sublist_append_left ..).map _)
    · rename_i middle declared
      obtain ⟨nodup', rfl⟩ := declareTypes_ok nodup declared
      exact ih nodup' h

end Types

/-! ## Directories -/

/-- The source files of a directory can be read as these files, belong to one package, and have a value
for each of their constants. -/
structure FileTree.ReadsAsOne (t : FileTree) (dir : String) (files : List SourceFile) : Prop where
  read : ∃ entries, t.list dir = .ok entries ∧
    (∀ path ∈ sourcePaths dir entries, ∃ source, t.sourceAt path = .ok source) ∧
    files = t.sourcesAt (sourcePaths dir entries)
  onePackage : OnePackage files
  complete : ∀ file ∈ files, ∀ decl ∈ file.consts, decl.Complete

/-- A name that is not blank is declared twice in files, whether for a constant or for a type. -/
def RepeatsName (files : List SourceFile) : Prop :=
  ∃ name, name ≠ blankName ∧
    2 ≤ (files.flatMap SourceFile.constNames ++ files.flatMap SourceFile.typeNames).count name

namespace Package

variable {dir : String} {files : List SourceFile}

/-- Files make up a package only if their constants and their types have names of their own. -/
theorem nodup_of_ofFiles {p : Package} (h : ofFiles dir files = .ok p) :
    (files.flatMap SourceFile.constNames).Nodup ∧ (files.flatMap SourceFile.typeNames).Nodup := by
  obtain ⟨-, -, -, constants, types⟩ := ofFiles_ok_iff.mp h
  obtain ⟨nodup, eq⟩ := @declareFileTypes_ok files [] p.types List.nodup_nil types
  rw [eq, List.nil_append, List.map_flatMap] at nodup
  obtain ⟨complete, adds⟩ := declareFiles_iff.mp constants
  exact ⟨names_flatMap_declarations complete ▸ adds.distinct, nodup⟩

/-- What complete files are refused for. -/
theorem ofFiles_error {f : Failure} (complete : ∀ file ∈ files, ∀ decl ∈ file.consts, decl.Complete)
    (h : ofFiles dir files = .error f) :
    f = .noSourceFiles dir ∧ files = [] ∨ ∃ e, f = .ofSource e ∧
      (e.Redeclares (files.flatMap SourceFile.constNames) ∨
        e.Redeclares (files.flatMap SourceFile.typeNames)) := by
  cases files with
  | nil =>
    cases h
    exact .inl ⟨rfl, rfl⟩
  | cons first files =>
    unfold ofFiles at h
    dsimp only at h
    split at h
    · rename_i e constants
      cases h
      exact .inr ⟨e, rfl, .inl (extractConstants_error complete constants)⟩
    · split at h <;> cases h
      rename_i e types
      have again := @declareFileTypes_error e (first :: files) [] List.nodup_nil types
      rw [List.nil_append, List.map_flatMap] at again
      exact .inr ⟨e, rfl, .inr again⟩

end Package

namespace Workspace

variable {w : Workspace} {format : String → FormatOutcome} {dir : String} {files : List SourceFile}

/-- Once its files have been read, a directory loads as they make up a package. -/
theorem outcome_load (h : w.tree.ReadsAsOne dir files) :
    w.outcome (Package.load (host format) dir) = (Package.ofFiles dir files, w) := by
  obtain ⟨entries, listed, readable, are⟩ := h.read
  have none : OnePackage [] := fun _ hf => (by cases hf)
  have read : w.outcome (readSources (host format) dir (sourcePaths dir entries) []) =
      (.ok files, w) :=
    (outcome_readSources_iff none).mpr ⟨rfl, readable, are, h.onePackage⟩
  rw [Package.load, listSources, bind_assoc, outcome_bind, outcome_ask_list, listed]
  simp only [Except.mapError, pure_bind, outcome_bind, read, outcome_settled]

/-- **Which directories are refused for a name that is declared again.**  If the files of a directory
can be read, belong to one package and have a value for each of their constants, then the directory is
refused for such a name if and only if two constants that are not blank have one name, or two types
have one name, be it blank or not.  The name that is reported is one of these; and apart from that, only
a directory without source files is refused. -/
theorem load_redeclared_iff (h : w.tree.ReadsAsOne dir files) :
    ((∃ path name previous line column, (w.outcome (Package.load (host format) dir)).1
        = .error (.parse path (.redeclared name previous) line column)) ↔
      ¬ (files.flatMap SourceFile.constNames).Nodup ∨
        ¬ (files.flatMap SourceFile.typeNames).Nodup) ∧
    ∀ f, (w.outcome (Package.load (host format) dir)).1 = .error f →
      f = .noSourceFiles dir ∧ files = [] ∨ ∃ e, f = .ofSource e ∧
        (e.Redeclares (files.flatMap SourceFile.constNames) ∨
          e.Redeclares (files.flatMap SourceFile.typeNames)) := by
  rw [outcome_load h]
  refine ⟨⟨?_, fun again => ?_⟩, fun f refused => Package.ofFiles_error h.complete refused⟩
  · rintro ⟨path, name, previous, line, column, refused⟩
    obtain ⟨none, -⟩ | ⟨e, -, constant | type⟩ := Package.ofFiles_error h.complete refused
    · cases none
    · exact .inl constant.not_nodup
    · exact .inr type.not_nodup
  · cases made : Package.ofFiles dir files with
    | ok p =>
      obtain ⟨constants, types⟩ := Package.nodup_of_ofFiles made
      exact (again.elim (· constants) (· types)).elim
    | error f =>
      obtain ⟨-, rfl⟩ | ⟨e, rfl, ⟨name, previous, problem, -⟩ | ⟨name, previous, problem, -⟩⟩ :=
        Package.ofFiles_error h.complete made
      · simp at again
      all_goals
        refine ⟨e.file, name, previous, some e.pos.line, some e.pos.column, ?_⟩
        rw [← problem]
        rfl

end Workspace

/-- Two directories with one file each: one declares two blank types, the other one a constant and a
type of one name. -/
def harborWorkspace : Workspace where
  tree := ⟨[(["blank"], .folder),
    (["blank", "a.go"], .file "package ink\ntype _ int\ntype _ string\n".toUTF8),
    (["shared"], .folder),
    (["shared", "a.go"], .file "package ink\nconst A = 1\ntype A int\n".toUTF8)], []⟩
  warnings := []

/-- The file with the blank types. -/
def blankTypesFile : SourceFile :=
  ⟨"blank/a.go", ⟨"ink", ⟨1, 9⟩⟩, [],
    [⟨⟨"_", ⟨2, 6⟩⟩, false, .named (.own "int")⟩, ⟨⟨"_", ⟨3, 6⟩⟩, false, .named (.own "string")⟩]⟩

/-- The file with a name for a constant and for a type. -/
def sharedNameFile : SourceFile :=
  ⟨"shared/a.go", ⟨"ink", ⟨1, 9⟩⟩, [⟨⟨2, 1⟩, [⟨[⟨"A", ⟨2, 7⟩⟩], none, [.integer "1"], 0⟩]⟩],
    [⟨⟨"A", ⟨3, 6⟩⟩, false, .named (.own "int")⟩]⟩

theorem sourcePaths_single {dir : String} {e : DirEntry} (h : e.isSource = true) :
    sourcePaths dir [e] = [Path.join dir e.name] := by
  have sources : sourceEntries [e] = [e] := by simp [sourceEntries, h]
  rw [sourcePaths_eq, sources, List.mergeSort_singleton]
  rfl

/-- A directory with one source file reads as one package. -/
theorem FileTree.ReadsAsOne.single {t : FileTree} {dir : String} {e : DirEntry} {file : SourceFile}
    (listed : t.list dir = .ok [e]) (source : e.isSource = true)
    (found : t.sourceAt (Path.join dir e.name) = .ok (some file))
    (complete : ∀ decl ∈ file.consts, decl.Complete) : t.ReadsAsOne dir [file] := by
  refine ⟨⟨[e], listed, ?_, ?_⟩, ?_, ?_⟩
  · rw [sourcePaths_single source]
    simpa using ⟨_, found⟩
  · rw [sourcePaths_single source, sourcesAt_cons found]
    rfl
  · simp [OnePackage]
  · simpa using complete

theorem readsAsOne_blank : harborWorkspace.tree.ReadsAsOne "blank" [blankTypesFile] := by
  have found : harborWorkspace.tree.sourceAt "blank/a.go" = .ok (some blankTypesFile) := by
    with_unfolding_all rfl
  exact .single rfl (by decide +kernel) found (List.forall_mem_nil _)

theorem readsAsOne_shared : harborWorkspace.tree.ReadsAsOne "shared" [sharedNameFile] := by
  have found : harborWorkspace.tree.sourceAt "shared/a.go" = .ok (some sharedNameFile) := by
    with_unfolding_all rfl
  have declared : extractConstants [sharedNameFile] =
      .ok [⟨"A", "shared/a.go", ⟨2, 7⟩, none, .integer "1", 0, 0⟩] := rfl
  have complete := (declareFiles_iff.mp declared).1
  exact .single rfl (by decide +kernel) found (complete _ (List.mem_singleton_self _))

namespace Workspace

theorem load_redeclared_iff_blank :
    harborWorkspace.tree.ReadsAsOne "blank" [blankTypesFile] ∧
    ∃ path name previous line column,
      (harborWorkspace.outcome (Package.load (host fun _ => .unavailable) "blank")).1
        = .error (.parse path (.redeclared name previous) line column) :=
  ⟨readsAsOne_blank, (load_redeclared_iff readsAsOne_blank).1.mpr (.inr (by decide))⟩

/-- Two blank types are refused, although no other name is declared twice, and a constant and a type of
one name are not refused. -/
theorem load_blank_types_and_shared_name :
    (harborWorkspace.tree.ReadsAsOne "blank" [blankTypesFile] ∧ ¬ RepeatsName [blankTypesFile] ∧
      (harborWorkspace.outcome (Package.load (host fun _ => .unavailable) "blank")).1 =
        .error (.parse "blank/a.go" (.redeclared "_" none) (some 3) (some 6))) ∧
    harborWorkspace.tree.ReadsAsOne "shared" [sharedNameFile] ∧ RepeatsName [sharedNameFile] ∧
      ∃ p, (harborWorkspace.outcome (Package.load (host fun _ => .unavailable) "shared")).1 = .ok p := by
  refine ⟨⟨readsAsOne_blank, ?_, ?_⟩, readsAsOne_shared, ?_, ?_⟩
  · rintro ⟨name, named, twice⟩
    have other : ∀ n ∈ [blankTypesFile].flatMap SourceFile.constNames ++
        [blankTypesFile].flatMap SourceFile.typeNames, n = blankName := by decide
    have listed := List.count_pos_iff.mp (Nat.lt_of_lt_of_le Nat.zero_lt_two twice)
    exact named (other name listed)
  · rw [outcome_load readsAsOne_blank]
    rfl
  · exact ⟨"A", by decide, by decide⟩
  · rw [outcome_load readsAsOne_shared]
    exact ⟨_, rfl⟩

end Workspace

end EnumCodec
