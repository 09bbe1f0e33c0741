import EnumCodec.Proofs.DeclaredConstants
import EnumCodec.Proofs.TreeRuns
import Mathlib.Data.List.Sort

/-!
# The files that matter to a package

A package is made of the files that declare a constant with a name or a type; the others only have to
belong to it.  So a directory holds the same package, under other files, when sources without
declarations are written to it over files that do not matter, or beside the files of the package
(`FileTree.HasPackage.puts`), wherever their names stand among those of the other files.
-/

set_option autoImplicit false

namespace EnumCodec

/-! ## Files without declarations -/

/-- Whether a file declares a constant with a name, or a type. -/
def SourceFile.contributes (file : SourceFile) : Bool :=
  !file.constNames.isEmpty || !file.types.isEmpty

theorem SourceFile.declarations_eq_nil {file : SourceFile} (h : file.contributes = false)
    (complete : ∀ decl ∈ file.consts, decl.Complete) : file.declarations = [] := by
  have names := SourceFile.names_declarations complete
  have none : file.constNames = [] := by
    have both : file.constNames = [] ∧ file.types = [] := by simpa [contributes] using h
    exact both.1
  rw [none] at names
  exact List.map_eq_nil_iff.mp names

theorem flatMap_declarations_filter {files : List SourceFile}
    (complete : ∀ file ∈ files, ∀ decl ∈ file.consts, decl.Complete) :
    (files.filter SourceFile.contributes).flatMap SourceFile.declarations
      = files.flatMap SourceFile.declarations := by
  induction files with
  | nil => rfl
  | cons file files ih =>
    obtain ⟨here, more⟩ := List.forall_mem_cons.mp complete
    rw [List.flatMap_cons, ← ih more]
    cases h : file.contributes with
    | true => rw [List.filter_cons_of_pos h, List.flatMap_cons]
    | false =>
      rw [List.filter_cons_of_neg (by simp [h]), SourceFile.declarations_eq_nil h here,
        List.nil_append]

theorem declareFileTypes_filter (files : List SourceFile) (types : List TypeSpec) :
    declareFileTypes (files.filter SourceFile.contributes) types = declareFileTypes files types := by
  induction files generalizing types with
  | nil => rfl
  | cons file files ih =>
    cases h : file.contributes with
    | true => simp only [List.filter_cons_of_pos h, declareFileTypes, ih]
    | false =>
      have none : file.types = [] := by
        have both : file.constNames = [] ∧ file.types = [] := by
          simpa [SourceFile.contributes] using h
        exact both.2
      rw [List.filter_cons_of_neg (by simp [h]), ih, declareFileTypes, none]
      rfl

namespace Package

variable {dir : String} {files files' : List SourceFile} {p : Package}

theorem ofFiles_ok_iff :
    ofFiles dir files = .ok p ↔
      (∃ first, files.head? = some first ∧ p.name = first.package.name) ∧
        p.dir = dir ∧ p.files = files.map (·.path) ∧
        declareFiles files [] = .ok p.entries ∧ declareFileTypes files [] = .ok p.types := by
  obtain ⟨name, dir', paths, entries, types⟩ := p
  cases files with
  | nil => simp [ofFiles]
  | cons first files =>
    simp only [ofFiles, extractConstants]
    cases declareFiles (first :: files) [] with
    | error e => simp
    | ok entries' =>
      cases declareFileTypes (first :: files) [] with
      | error e => simp
      | ok types' => simp [eq_comm]

/-- The package is that of the files that contribute to it. -/
theorem ofFiles_of_contributing (h : ofFiles dir files = .ok p) (some : files' ≠ [])
    (same : files'.filter SourceFile.contributes = files.filter SourceFile.contributes)
    (complete : ∀ file ∈ files', file.contributes = false → ∀ decl ∈ file.consts, decl.Complete)
    (named : ∀ file ∈ files', file.package.name = p.name) :
    ofFiles dir files' = .ok { p with files := files'.map (·.path) } := by
  obtain ⟨-, hdir, -, constants, types⟩ := ofFiles_ok_iff.mp h
  obtain ⟨complete_old, adds⟩ := declareFiles_iff.mp constants
  have complete' : ∀ file ∈ files', ∀ decl ∈ file.consts, decl.Complete := by
    intro file hf
    cases hc : file.contributes with
    | false => exact complete file hf hc
    | true =>
      have mem : file ∈ files.filter SourceFile.contributes :=
        same ▸ List.mem_filter.mpr ⟨hf, hc⟩
      exact complete_old file (List.mem_filter.mp mem).1
  refine ofFiles_ok_iff.mpr ⟨?_, hdir, rfl, declareFiles_iff.mpr ⟨complete', ?_⟩, ?_⟩
  · obtain ⟨first, rest, rfl⟩ := List.exists_cons_of_ne_nil some
    exact ⟨first, rfl, (named first List.mem_cons_self).symm⟩
  · rw [← flatMap_declarations_filter complete', same, flatMap_declarations_filter complete_old]
    exact adds
  · rw [← declareFileTypes_filter, same, declareFileTypes_filter]
    exact types

theorem entries_eq_nil (h : ofFiles dir files = .ok p)
    (none : files.filter SourceFile.contributes = []) : p.entries = [] := by
  obtain ⟨complete, adds⟩ := declareFiles_iff.mp (ofFiles_ok_iff.mp h).2.2.2.1
  rw [adds.after_eq, ← flatMap_declarations_filter complete, none]
  rfl

end Package

/-! ## Reading after writing -/

namespace FileTree

variable {t : FileTree} {written : List (Location × String)} {path : String}

theorem fromUTF8?_toUTF8 (s : String) : String.fromUTF8? s.toUTF8 = some s := by
  unfold String.fromUTF8?
  exact dif_pos s.isValidUTF8

section Puts

variable (h : ∀ w ∈ written, t.IsFilePlace w.1)

include h

theorem resolve_puts_of_apart {d : Destination}
    (apart : ∀ w ∈ written, t.filePlaceAt? .look path ≠ some w.1) :
    (t.puts written).resolve .look path = .ok d ↔ t.resolve .look path = .ok d := by
  have same : ∀ {d}, t.resolve .look path = .ok d → d.afterWrites written = d := fun leads =>
    Destination.afterWrites_of_notMem fun place placed mem => by
      obtain ⟨w, hw, rfl⟩ := List.mem_map.mp mem
      exact apart w hw (filePlaceAt?_eq_some_iff.mpr ⟨_, leads, placed⟩)
  rw [resolve_puts_ok_iff h]
  constructor
  · rintro ⟨d, leads, rfl⟩
    rwa [same leads]
  · exact fun leads => ⟨d, leads, (same leads).symm⟩

/-- A file reads as before if no other was written in its place. -/
theorem read_puts_of_apart (apart : ∀ w ∈ written, t.filePlaceAt? .look path ≠ some w.1)
    {text : String} (read : t.read path = .ok text) : (t.puts written).read path = .ok text := by
  unfold FileTree.read at read ⊢
  cases leads : t.resolve .look path with
  | error e => simp [leads] at read
  | ok d =>
    rw [leads] at read
    rwa [(resolve_puts_of_apart h apart).mpr leads]

/-- A file that was written reads as what was written. -/
theorem read_puts_of_mem {w : Location × String} (hw : w ∈ written)
    (place : t.filePlaceAt? .look path = some w.1) :
    ∃ text, (w.1, text) ∈ written ∧ (t.puts written).read path = .ok text := by
  obtain ⟨d, leads, placed⟩ := filePlaceAt?_eq_some_iff.mp place
  obtain ⟨text, mem, now⟩ := Destination.afterWrites_of_mem placed (List.mem_map_of_mem hw)
  refine ⟨text, mem, ?_⟩
  have leads' : (t.puts written).resolve .look path = .ok (.file w.1 text.toUTF8) :=
    (resolve_puts_ok_iff h).mpr ⟨d, leads, now.symm⟩
  simp only [FileTree.read, leads', fromUTF8?_toUTF8]

theorem hasPath_puts_of_apart (apart : ∀ w ∈ written, t.filePlaceAt? .look path ≠ some w.1) :
    (t.puts written).hasPath path = t.hasPath path := by
  have same : ∀ {t' : FileTree}, t'.hasPath path = true ↔
      ∃ d, t'.resolve .look path = .ok d ∧ ∀ place, d ≠ .vacant place := by
    intro t'
    unfold hasPath
    cases t'.resolve .look path with
    | error e => simp
    | ok d => cases d <;> simp
  rw [Bool.eq_iff_iff, same, same]
  simp only [resolve_puts_of_apart h apart]

/-- The settings of a directory stay as they are if no file is written in their place. -/
theorem settings_puts {dir : String} {settings : Option Settings}
    (apart : ∀ w ∈ written, t.filePlaceAt? .look (Path.join dir Settings.fileName) ≠ some w.1)
    (read : t.settings dir = .ok settings) : (t.puts written).settings dir = .ok settings := by
  simp only [FileTree.settings, hasPath_puts_of_apart h apart] at read ⊢
  split at read
  · rename_i there
    rw [if_pos there]
    cases text : t.read (Path.join dir Settings.fileName) with
    | error e => simp [text] at read
    | ok source =>
      rw [read_puts_of_apart h apart text]
      rwa [text] at read
  · rename_i there
    rwa [if_neg there]

end Puts

/-! ## Sources without declarations -/

/-- The file at a path, if it declares something. -/
def contribution? (t : FileTree) (path : String) : Option SourceFile :=
  (t.sourceAt path).toOption.join.filter SourceFile.contributes

theorem filter_sourcesAt (t : FileTree) (paths : List String) :
    (t.sourcesAt paths).filter SourceFile.contributes = paths.filterMap t.contribution? :=
  List.filter_filterMap

end FileTree

/-- The text is that of a source file of the package that declares nothing. -/
structure IsBareSource (package text : String) : Prop where
  built : isBuildIgnored text = false
  reads : ∀ path, ∃ pos, SourceFile.ofText path text = .ok ⟨path, ⟨package, pos⟩, [], []⟩

namespace FileTree

variable {t : FileTree} {written : List (Location × String)} {path package : String}
  {source : Option SourceFile}

theorem sourceAt_of_read {text : String} (read : t.read path = .ok text)
    (bare : IsBareSource package text) :
    ∃ pos, t.sourceAt path = .ok (some ⟨path, ⟨package, pos⟩, [], []⟩) := by
  obtain ⟨pos, file⟩ := bare.reads path
  exact ⟨pos, by simp [sourceAt, read, bare.built, file]⟩

/-- A file without declarations that was written is a source that declares nothing. -/
theorem sourceAt_puts_of_mem (h : ∀ w ∈ written, t.IsFilePlace w.1)
    (bare : ∀ w ∈ written, IsBareSource package w.2) {w : Location × String} (hw : w ∈ written)
    (place : t.filePlaceAt? .look path = some w.1) :
    ∃ pos, (t.puts written).sourceAt path = .ok (some ⟨path, ⟨package, pos⟩, [], []⟩) := by
  obtain ⟨text, mem, read⟩ := read_puts_of_mem h hw place
  exact sourceAt_of_read read (bare _ mem)

/-- What a source becomes when files without declarations are written. -/
theorem sourceAt_puts (h : ∀ w ∈ written, t.IsFilePlace w.1)
    (bare : ∀ w ∈ written, IsBareSource package w.2) (found : t.sourceAt path = .ok source) :
    (∀ w ∈ written, t.filePlaceAt? .look path ≠ some w.1) ∧
        (t.puts written).sourceAt path = .ok source ∨
      (∃ w ∈ written, t.filePlaceAt? .look path = some w.1) ∧
        ∃ pos, (t.puts written).sourceAt path = .ok (some ⟨path, ⟨package, pos⟩, [], []⟩) := by
  by_cases mem : ∃ w ∈ written, t.filePlaceAt? .look path = some w.1
  · obtain ⟨w, hw, place⟩ := mem
    exact .inr ⟨⟨w, hw, place⟩, sourceAt_puts_of_mem h bare hw place⟩
  · have apart : ∀ w ∈ written, t.filePlaceAt? .look path ≠ some w.1 :=
      fun w hw place => mem ⟨w, hw, place⟩
    refine .inl ⟨apart, ?_⟩
    unfold sourceAt at found ⊢
    cases read : t.read path with
    | error e => simp [read] at found
    | ok text =>
      rw [read_puts_of_apart h apart read]
      rwa [read] at found

/-- No contribution changes when files without declarations are written in other places. -/
theorem contribution?_puts (h : ∀ w ∈ written, t.IsFilePlace w.1)
    (bare : ∀ w ∈ written, IsBareSource package w.2) (found : t.sourceAt path = .ok source)
    (apart : (t.contribution? path).isSome →
      ∀ w ∈ written, t.filePlaceAt? .look path ≠ some w.1) :
    (t.puts written).contribution? path = t.contribution? path := by
  rcases sourceAt_puts h bare found with ⟨-, same⟩ | ⟨⟨w, hw, place⟩, pos, now⟩
  · rw [contribution?, contribution?, same, found]
  · have before : t.contribution? path = none := by
      rw [← Option.not_isSome_iff_eq_none]
      exact fun some => apart some w hw place
    rw [before, contribution?, now]
    rfl

end FileTree

/-! ## The list of a directory -/

/-- Whether an entry of a directory is a source file of its package. -/
def DirEntry.isSource (e : DirEntry) : Bool := e.kind == .file && isPackageSource e.name

theorem DirEntry.isSource_iff {e : DirEntry} :
    e.isSource = true ↔ e.kind = .file ∧ isPackageSource e.name = true := by
  simp [isSource]

/-- The entries of a directory that are source files of its package. -/
def sourceEntries (entries : List DirEntry) : List DirEntry := entries.filter DirEntry.isSource

/-- The order of the entries of a directory. -/
def notAfter (a b : DirEntry) : Bool := !decide (b.name < a.name)

theorem sourcePaths_eq (dir : String) (entries : List DirEntry) :
    sourcePaths dir entries
      = ((sourceEntries entries).mergeSort notAfter).map fun e => Path.join dir e.name := rfl

theorem mem_sourcePaths {dir path : String} {entries : List DirEntry} :
    path ∈ sourcePaths dir entries ↔ ∃ e ∈ sourceEntries entries, Path.join dir e.name = path := by
  simp [sourcePaths_eq]

theorem join_mem_sourcePaths (dir : String) {entries : List DirEntry} {e : DirEntry}
    (he : e ∈ sourceEntries entries) : Path.join dir e.name ∈ sourcePaths dir entries :=
  mem_sourcePaths.mpr ⟨e, he, rfl⟩

theorem notAfter_iff {a b : DirEntry} : notAfter a b = true ↔ a.name ≤ b.name := by
  rw [notAfter, Bool.not_eq_true', decide_eq_false_iff_not, String.not_lt]

theorem pairwise_mergeSort_notAfter (l : List DirEntry) :
    (l.mergeSort notAfter).Pairwise fun a b => a.name ≤ b.name := by
  have trans : ∀ a b c, notAfter a b = true → notAfter b c = true → notAfter a c = true := by
    simp only [notAfter_iff]
    exact fun _ _ _ => String.le_trans
  have total : ∀ a b, (notAfter a b || notAfter b a) = true := by
    simp only [Bool.or_eq_true, notAfter_iff]
    exact fun a b => String.le_total a.name b.name
  exact (List.pairwise_mergeSort trans total l).imp notAfter_iff.mp

theorem sourceEntry_ext {entries : List DirEntry} {a b : DirEntry} (ha : a ∈ sourceEntries entries)
    (hb : b ∈ sourceEntries entries) (h : a.name = b.name) : a = b := by
  have kind : ∀ e ∈ sourceEntries entries, e.kind = .file :=
    fun e he => (DirEntry.isSource_iff.mp (List.mem_filter.mp he).2).1
  have same := (kind a ha).trans (kind b hb).symm
  cases a
  cases b
  simp_all

/-- What the sources of a directory contribute, in the order of their names, depends only on which
of them contribute what. -/
theorem filterMap_sorted {β : Type} {entries entries' : List DirEntry} {c c' : DirEntry → Option β}
    (same : ((sourceEntries entries').filterMap fun e => (c' e).map (e, ·)).Perm
      ((sourceEntries entries).filterMap fun e => (c e).map (e, ·))) :
    ((sourceEntries entries').mergeSort notAfter).filterMap c'
      = ((sourceEntries entries).mergeSort notAfter).filterMap c := by
  have perm : ∀ (l : List DirEntry) (c : DirEntry → Option β),
      ((l.mergeSort notAfter).filterMap fun e => (c e).map (e, ·)).Perm
        (l.filterMap fun e => (c e).map (e, ·)) :=
    fun l c => (List.mergeSort_perm l notAfter).filterMap _
  have sorted : ∀ (l : List DirEntry) (c : DirEntry → Option β),
      ((l.mergeSort notAfter).filterMap fun e => (c e).map (e, ·)).Pairwise
        fun p q => p.1.name ≤ q.1.name := by
    intro l c
    refine List.pairwise_filterMap.mpr
      ((pairwise_mergeSort_notAfter l).imp fun {a b} hab p hp q hq => ?_)
    obtain ⟨_, -, rfl⟩ := Option.map_eq_some_iff.mp hp
    obtain ⟨_, -, rfl⟩ := Option.map_eq_some_iff.mp hq
    exact hab
  have values : ∀ (l : List DirEntry) (c : DirEntry → Option β),
      (l.filterMap fun e => (c e).map (e, ·)).map Prod.snd = l.filterMap c := by
    intro l c
    rw [List.map_filterMap]
    exact List.filterMap_congr fun e _ => by cases c e <;> rfl
  have pairs := @List.Perm.eq_of_pairwise _ (fun p q => p.1.name ≤ q.1.name) _ _ ?_
    (sorted (sourceEntries entries') c') (sorted (sourceEntries entries) c)
    ((perm _ c').trans (same.trans (perm _ c).symm))
  · rw [← values, pairs, values]
  · -- sources of one name are one entry, and each has one contribution
    intro p q hp hq hpq hqp
    have mem : ∀ r, r ∈ ((sourceEntries entries).filterMap fun e => (c e).map (e, ·)) →
        r.1 ∈ sourceEntries entries ∧ c r.1 = some r.2 := by
      intro r hr
      obtain ⟨e, he, hr⟩ := List.mem_filterMap.mp hr
      obtain ⟨b, hb, rfl⟩ := Option.map_eq_some_iff.mp hr
      exact ⟨he, hb⟩
    obtain ⟨listed, contributed⟩ := mem p (same.mem_iff.mp ((perm _ c').mem_iff.mp hp))
    obtain ⟨listed', contributed'⟩ := mem q ((perm _ c).mem_iff.mp hq)
    have entry := sourceEntry_ext listed listed' (String.le_antisymm hpq hqp)
    refine Prod.ext entry ?_
    rw [entry, contributed'] at contributed
    exact (Option.some.inj contributed).symm

/-! ## A package after files have been written -/

namespace FileTree

variable {t : FileTree} {dir : String} {entries : List DirEntry} {p : Package}
  {written : List (Location × String)}

theorem entryIn?_eq_some_iff {folder : Location} {n : Location × Node} {e : DirEntry} :
    entryIn? folder n = some e ↔ n.1 = folder ++ [e.name] ∧ e.kind = n.2.kind := by
  unfold entryIn?
  cases last : n.1.getLast? with
  | none =>
    have empty : n.1 = [] := List.getLast?_eq_none_iff.mp last
    simp [empty]
  | some name =>
    have split := List.dropLast_append_getLast? name last
    obtain ⟨name', kind⟩ := e
    dsimp only
    constructor
    · intro h
      split at h <;> cases h
      rename_i folder_eq
      exact ⟨by rw [← folder_eq, split], rfl⟩
    · rintro ⟨place, rfl⟩
      rw [place] at last
      simp at last
      simp [place, last]

/-- A package is read from a folder, whatever path names it. -/
theorem HasPackage.exists_folder (h : t.HasPackage dir entries p) :
    ∃ folder, t.resolve .look dir = .ok (.folder folder) ∧
      entries = t.nodes.filterMap (entryIn? folder) := by
  have listed := h.listed
  unfold FileTree.list at listed
  cases leads : t.resolve .look dir with
  | error e => simp [leads] at listed
  | ok d =>
    rw [leads] at listed
    cases d with
    | vacant place => cases listed
    | folder place => exact ⟨place, rfl, (Except.ok.inj listed).symm⟩
    | file place bytes =>
      obtain rfl : [] = entries := Except.ok.inj listed
      have none := h.ofFiles
      simp [sourcePaths, sourcesAt, Package.ofFiles] at none

theorem HasPackage.entries_eq (h : t.HasPackage dir entries p) {folder : Location}
    (leads : t.resolve .look dir = .ok (.folder folder)) :
    entries = t.nodes.filterMap (entryIn? folder) := by
  obtain ⟨folder', leads', eq⟩ := h.exists_folder
  rw [leads] at leads'
  cases leads'
  exact eq

theorem HasPackage.mem_sourcesAt {path : String} {file : SourceFile}
    (hpath : path ∈ sourcePaths dir entries) (found : t.sourceAt path = .ok (some file)) :
    file ∈ t.sourcesAt (sourcePaths dir entries) :=
  List.mem_filterMap.mpr ⟨path, hpath, by rw [found]; rfl⟩

/-- The files of a package belong to it. -/
theorem HasPackage.package_name (h : t.HasPackage dir entries p) :
    ∀ file ∈ t.sourcesAt (sourcePaths dir entries), file.package.name = p.name := by
  obtain ⟨⟨first, head, name⟩, -⟩ := Package.ofFiles_ok_iff.mp h.ofFiles
  intro file hfile
  rw [name]
  exact h.onePackage file hfile first (List.mem_of_mem_head? head)

/-- The sources that are listed after some files have been written: those that were listed before,
and those at the places of the written files. -/
theorem mem_sourceEntries_puts {folder : Location} {e : DirEntry}
    (he : e ∈ sourceEntries ((t.puts written).nodes.filterMap (entryIn? folder))) :
    e ∈ sourceEntries (t.nodes.filterMap (entryIn? folder)) ∨
      ∃ w ∈ written, w.1 = folder ++ [e.name] := by
  obtain ⟨listed, source⟩ := List.mem_filter.mp he
  obtain ⟨n, hn, entry⟩ := List.mem_filterMap.mp listed
  rw [nodes_puts] at hn
  rcases List.mem_append.mp hn with hn | hn
  · exact .inl (List.mem_filter.mpr
      ⟨List.mem_filterMap.mpr ⟨n, (List.mem_filter.mp hn).1, entry⟩, source⟩)
  · obtain ⟨text, mem, -⟩ := mem_writtenNodes hn
    exact .inr ⟨_, mem, (entryIn?_eq_some_iff.mp entry).1⟩

/-- What a node of a folder adds to the contributions to the package of the directory, as its files
read in the tree. -/
def added? (t : FileTree) (dir : String) (folder : Location) (n : Location × Node) :
    Option (DirEntry × SourceFile) :=
  (entryIn? folder n).bind fun e =>
    if e.isSource then (t.contribution? (Path.join dir e.name)).map (e, ·) else none

theorem filterMap_added (t : FileTree) (dir : String) (folder : Location)
    (nodes : List (Location × Node)) :
    (sourceEntries (nodes.filterMap (entryIn? folder))).filterMap
        (fun e => (t.contribution? (Path.join dir e.name)).map (e, ·))
      = nodes.filterMap (t.added? dir folder) := by
  rw [sourceEntries, List.filterMap_filter, List.filterMap_filterMap]
  rfl

/-- Two trees add the same for a node if its entry contributes the same. -/
theorem added?_congr {t t' : FileTree} {folder : Location} {n : Location × Node}
    (h : ∀ e, entryIn? folder n = some e → e.isSource = true →
      t'.contribution? (Path.join dir e.name) = t.contribution? (Path.join dir e.name)) :
    t'.added? dir folder n = t.added? dir folder n := by
  unfold added?
  cases entry : entryIn? folder n with
  | none => rfl
  | some e =>
    simp only [Option.bind_some]
    split
    · rw [h e entry ‹_›]
    · rfl

theorem added?_eq_none {folder : Location} {n : Location × Node}
    (h : ∀ e, entryIn? folder n = some e → e.isSource = true →
      t.contribution? (Path.join dir e.name) = none) : t.added? dir folder n = none := by
  unfold added?
  cases entry : entryIn? folder n with
  | none => rfl
  | some e =>
    simp only [Option.bind_some]
    split
    · rw [h e entry ‹_›]
      rfl
    · rfl

section Puts

variable (h : t.HasPackage dir entries p) (places : ∀ w ∈ written, t.IsFilePlace w.1)
  (bare : ∀ w ∈ written, IsBareSource p.name w.2)
  (named : ∀ w ∈ written, ∀ folder name, t.resolve .look dir = .ok (.folder folder) →
    w.1 = folder ++ [name] → isPackageSource name = true →
    t.filePlaceAt? .look (Path.join dir name) = some w.1)

include h places bare named

/-- All sources that are listed can be read, belong to the package, and are complete. -/
theorem HasPackage.sourceAt_puts {folder : Location}
    (leads : t.resolve .look dir = .ok (.folder folder))
    {path : String} (hpath : path ∈ sourcePaths dir ((t.puts written).nodes.filterMap
      (entryIn? folder))) :
    ∃ source, (t.puts written).sourceAt path = .ok source ∧ ∀ file, source = some file →
      file.package.name = p.name ∧ ∀ decl ∈ file.consts, decl.Complete := by
  have asBare : ∀ {path pos}, (t.puts written).sourceAt path
      = .ok (some ⟨path, ⟨p.name, pos⟩, [], []⟩) →
      ∃ source, (t.puts written).sourceAt path = .ok source ∧ ∀ file, source = some file →
        file.package.name = p.name ∧ ∀ decl ∈ file.consts, decl.Complete := by
    rintro path pos now
    refine ⟨_, now, ?_⟩
    rintro file ⟨⟩
    exact ⟨rfl, List.forall_mem_nil _⟩
  obtain ⟨e, he, rfl⟩ := mem_sourcePaths.mp hpath
  obtain rfl := h.entries_eq leads
  rcases mem_sourceEntries_puts he with listed | ⟨w, hw, place⟩
  · have old := join_mem_sourcePaths dir listed
    obtain ⟨source, found⟩ := h.readable _ old
    rcases FileTree.sourceAt_puts places bare found with ⟨-, same⟩ | ⟨-, pos, now⟩
    · refine ⟨source, same, ?_⟩
      rintro file rfl
      have mem := HasPackage.mem_sourcesAt old found
      exact ⟨h.package_name file mem,
        (declareFiles_iff.mp (Package.ofFiles_ok_iff.mp h.ofFiles).2.2.2.1).1 file mem⟩
    · exact asBare now
  · have source := (DirEntry.isSource_iff.mp (List.mem_filter.mp he).2).2
    obtain ⟨pos, now⟩ := sourceAt_puts_of_mem places bare hw (named w hw folder _ leads place source)
    exact asBare now

section Apart

variable (apart : ∀ path ∈ sourcePaths dir entries, (t.contribution? path).isSome →
  ∀ w ∈ written, t.filePlaceAt? .look path ≠ some w.1)

include apart

/-- The sources of a directory contribute what they did. -/
theorem HasPackage.contributions_puts {folder : Location}
    (leads : t.resolve .look dir = .ok (.folder folder)) :
    (sourceEntries ((t.puts written).nodes.filterMap (entryIn? folder))).filterMap
        (fun e => ((t.puts written).contribution? (Path.join dir e.name)).map (e, ·))
      = (sourceEntries entries).filterMap
        fun e => (t.contribution? (Path.join dir e.name)).map (e, ·) := by
  obtain rfl := h.entries_eq leads
  have path_mem : ∀ n ∈ t.nodes, ∀ e, entryIn? folder n = some e → e.isSource = true →
      Path.join dir e.name ∈ sourcePaths dir (t.nodes.filterMap (entryIn? folder)) :=
    fun n hn e entry source => join_mem_sourcePaths dir
      (List.mem_filter.mpr ⟨List.mem_filterMap.mpr ⟨n, hn, entry⟩, source⟩)
  -- a written file is found under its name
  have found : ∀ w ∈ written, ∀ n : Location × Node, n.1 = w.1 → ∀ e, entryIn? folder n = some e →
      e.isSource = true → t.filePlaceAt? .look (Path.join dir e.name) = some w.1 :=
    fun w hw n place e entry source => named w hw folder e.name leads
      (place ▸ (entryIn?_eq_some_iff.mp entry).1) (DirEntry.isSource_iff.mp source).2
  rw [filterMap_added, filterMap_added, nodes_puts, List.filterMap_append]
  have new : (writtenNodes written).filterMap ((t.puts written).added? dir folder) = [] := by
    refine List.filterMap_eq_nil_iff.mpr fun n hn => added?_eq_none fun e entry source => ?_
    obtain ⟨text, mem, -⟩ := mem_writtenNodes hn
    obtain ⟨pos, now⟩ := sourceAt_puts_of_mem places bare mem (found _ mem n rfl e entry source)
    rw [contribution?, now]
    rfl
  rw [new, List.append_nil, List.filterMap_filter]
  refine List.filterMap_congr fun n hn => ?_
  by_cases replaced : n.1 ∈ written.map Prod.fst
  · obtain ⟨w, hw, place⟩ := List.mem_map.mp replaced
    rw [if_neg (by simpa using replaced)]
    refine (added?_eq_none fun e entry source => ?_).symm
    rw [← Option.not_isSome_iff_eq_none]
    exact fun contributes => apart _ (path_mem n hn e entry source) contributes w hw
      (found w hw n place.symm e entry source)
  · rw [if_pos (by simpa using replaced)]
    refine added?_congr fun e entry source => ?_
    have listed := path_mem n hn e entry source
    obtain ⟨file, now⟩ := h.readable _ listed
    exact contribution?_puts places bare now (apart _ listed)

/-- **The package stays as it is** when sources without declarations are written, none of them over a
file that contributes to it. -/
theorem HasPackage.puts (nonempty : p.entries ≠ []) :
    ∃ entries' files, (t.puts written).HasPackage dir entries' { p with files := files } := by
  obtain ⟨folder, leads, -⟩ := h.exists_folder
  have contributions := h.contributions_puts places bare named apart leads
  have sources := @HasPackage.sourceAt_puts _ _ _ _ _ h places bare named folder leads
  have leads' : (t.puts written).resolve .look dir = .ok (.folder folder) :=
    (resolve_puts_ok_iff places).mpr ⟨_, leads, by simp⟩
  have all : ∀ file ∈ (t.puts written).sourcesAt (sourcePaths dir
      ((t.puts written).nodes.filterMap (entryIn? folder))),
      file.package.name = p.name ∧ ∀ decl ∈ file.consts, decl.Complete := by
    intro file hfile
    obtain ⟨path, hpath, read⟩ := List.mem_filterMap.mp hfile
    obtain ⟨source, found, holds⟩ := sources hpath
    rw [found] at read
    exact holds file (by simpa [Except.toOption] using read)
  have same : ((t.puts written).sourcesAt (sourcePaths dir
      ((t.puts written).nodes.filterMap (entryIn? folder)))).filter SourceFile.contributes
        = (t.sourcesAt (sourcePaths dir entries)).filter SourceFile.contributes := by
    rw [filter_sourcesAt, filter_sourcesAt, sourcePaths_eq, sourcePaths_eq, List.filterMap_map,
      List.filterMap_map]
    exact filterMap_sorted (.of_eq contributions)
  have some : (t.puts written).sourcesAt (sourcePaths dir
      ((t.puts written).nodes.filterMap (entryIn? folder))) ≠ [] := by
    intro none
    rw [none] at same
    exact nonempty (Package.entries_eq_nil h.ofFiles same.symm)
  refine ⟨_, _, ⟨by simp only [FileTree.list, leads'], fun path hpath => ?_, ?_,
    Package.ofFiles_of_contributing h.ofFiles some same (fun file hfile _ => (all file hfile).2)
      fun file hfile => (all file hfile).1⟩⟩
  · obtain ⟨source, found, -⟩ := sources hpath
    exact ⟨source, found⟩
  · exact fun f hf g hg => ((all f hf).1).trans (all g hg).1.symm

end Apart

end Puts

end FileTree

end EnumCodec
