import EnumCodec.Proofs.FolderPaths
import EnumCodec.Proofs.LoadedPackages
import Mathlib

/-!
# What does not matter in a directory

Folders, links, files that are no sources and files that no build takes in do not matter to the
package of a directory: it loads as it does without them, or fails as it does without them.

* `FileTree.IsIdle` — the entries that do not matter; `FileTree.AddsIdle` — a tree with more of them.
* `FileTree.Within.resolve`, `FileTree.Within.read_join` — paths lead where they did, and files read as
  they did.
* `FileTree.package`, `Workspace.outcome_load_eq` — what loading a directory gives, in one piece.
* `addTexts_filterMap` — files that no build takes in can be left out.
* `Workspace.load_of_addsIdle` — a directory loads as it does without the idle entries.
-/

set_option autoImplicit false

namespace EnumCodec

/-! ## Loading in one piece -/

/-- Reads files, each of which has its answer, one after the other. -/
def addTexts (answer : String → Except SystemError String) (dir : String) :
    List String → List SourceFile → Except Failure (List SourceFile)
  | [], files => .ok files
  | path :: paths, files =>
    match answer path with
    | .error e => .error (.ofFile path e)
    | .ok text =>
      match addSource dir files path text with
      | .error e => .error e
      | .ok files => addTexts answer dir paths files

/-- The package of a directory, or why there is none. -/
def FileTree.package (t : FileTree) (dir : String) : Except Failure Package :=
  match t.list dir with
  | .error e => .error (.io dir (.listing dir e))
  | .ok entries =>
    match addTexts t.read dir (sourcePaths dir entries) [] with
    | .error e => .error e
    | .ok files => Package.ofFiles dir files

namespace Workspace

variable {w : Workspace} {format : String → FormatOutcome}

theorem outcome_readSources (dir : String) (paths : List String) (files : List SourceFile) :
    w.outcome (readSources (host format) dir paths files)
      = (addTexts w.tree.read dir paths files, w) := by
  induction paths generalizing files with
  | nil => rfl
  | cons path paths ih =>
    rw [readSources, outcome_bind, outcome_ask_readSource, addTexts]
    cases w.tree.read path with
    | error e => rfl
    | ok text =>
      simp only [Except.mapError, outcome_bind, outcome_settled]
      cases addSource dir files path text with
      | error e => rfl
      | ok files => exact ih files

theorem outcome_load_eq (dir : String) :
    w.outcome (Package.load (host format) dir) = (w.tree.package dir, w) := by
  rw [Package.load, listSources, bind_assoc, outcome_bind, outcome_ask_list, FileTree.package]
  cases w.tree.list dir with
  | error e => rfl
  | ok entries =>
    simp only [Except.mapError, pure_bind, outcome_bind, outcome_readSources]
    cases addTexts w.tree.read dir (sourcePaths dir entries) [] <;> rfl

end Workspace

/-! ## Files that can be left out -/

section Texts

variable {answer : String → Except SystemError String} {dir : String}

/-- The file at a path can be read, and no build takes it in. -/
def LeftOut (answer : String → Except SystemError String) (path : String) : Prop :=
  ∃ text, answer path = .ok text ∧ isBuildIgnored text = true

theorem addTexts_cons_of_leftOut {path : String} (h : LeftOut answer path) (paths : List String)
    (files : List SourceFile) :
    addTexts answer dir (path :: paths) files = addTexts answer dir paths files := by
  obtain ⟨text, read, left_out⟩ := h
  simp only [addTexts, read, addSource, left_out, if_true]

/-- **Files that no build takes in can be left out**, wherever they stand among the others. -/
theorem addTexts_filterMap {α : Type} {all : α → String} {some : α → Option String} (items : List α)
    (files : List SourceFile)
    (h : ∀ item ∈ items,
      some item = .some (all item) ∨ some item = none ∧ LeftOut answer (all item)) :
    addTexts answer dir (items.map all) files = addTexts answer dir (items.filterMap some) files := by
  induction items generalizing files with
  | nil => rfl
  | cons item items ih =>
    obtain ⟨here, more⟩ := List.forall_mem_cons.mp h
    rw [List.map_cons, List.filterMap_cons]
    obtain kept | ⟨dropped, left_out⟩ := here
    · rw [kept, addTexts, addTexts]
      simp only [ih _ more]
    · rw [dropped, addTexts_cons_of_leftOut left_out]
      exact ih files more

theorem addTexts_congr {answer' : String → Except SystemError String} {paths : List String}
    (h : ∀ path ∈ paths, answer' path = answer path) (files : List SourceFile) :
    addTexts answer' dir paths files = addTexts answer dir paths files := by
  induction paths generalizing files with
  | nil => rfl
  | cons path paths ih =>
    obtain ⟨here, more⟩ := List.forall_mem_cons.mp h
    simp only [addTexts, here, ih more]

end Texts

/-! ## A tree with more nodes -/

namespace FileTree

variable {t t' : FileTree} {dir : String} {folder place : Location} {node : Node}

theorem Distinct.nodeAt?_of_mem (h : t.Distinct) (hn : (place, node) ∈ t.nodes) (hp : place ≠ []) :
    t.nodeAt? place = some node := by
  obtain ⟨before, after, eq⟩ := List.append_of_mem hn
  have first : ∀ n ∈ before, place ≠ n.1 := by
    rintro n hb rfl
    unfold Distinct at h
    rw [eq, List.map_append, List.map_cons] at h
    exact (List.nodup_append.mp h).2.2 _ (List.mem_map_of_mem hb) _ List.mem_cons_self rfl
  rw [nodeAt?, if_neg (by simpa using hp)]
  exact List.lookup_eq_some_iff.mpr ⟨before, after, eq, fun n hb => by simpa using first n hb⟩

/-- All nodes of the first tree stand in the second one. -/
def Within (t t' : FileTree) : Prop :=
  t'.workingDir = t.workingDir ∧
    ∀ place node, t.nodeAt? place = some node → t'.nodeAt? place = some node

theorem Within.stage (h : t.Within t') {here : Location} {parts : List String} {s : Stage}
    (reached : t.stage .look here parts = .ok s)
    (stands : ∀ place, s ≠ .arrived (.vacant place)) : t'.stage .look here parts = .ok s := by
  induction parts generalizing here with
  | nil => exact reached
  | cons part rest ih =>
    rw [FileTree.stage] at reached ⊢
    split at reached
    · rename_i blank
      rw [if_pos blank]
      exact ih reached
    rename_i blank
    rw [if_neg blank]
    split at reached
    · rename_i above
      rw [if_pos above]
      exact ih reached
    rename_i above
    rw [if_neg above]
    split at reached; · cases reached
    rename_i write
    rw [if_neg write]
    split at reached; · cases reached
    rename_i size
    rw [if_neg size]
    cases found : t.nodeAt? (here ++ [part]) with
    | none =>
      simp only [found] at reached
      split at reached <;> cases reached
      exact absurd rfl (stands _)
    | some node =>
      simp only [found, h.2 _ _ found] at reached ⊢
      cases node with
      | folder => exact ih reached
      | file bytes => exact reached
      | link target => exact reached

theorem Within.walk (h : t.Within t') {links : Nat} {here : Location} {parts : List String}
    {d : Destination} (leads : t.walk .look links here parts = .ok d)
    (stands : ∀ place, d ≠ .vacant place) : t'.walk .look links here parts = .ok d := by
  induction links using Nat.strongRecOn generalizing here parts with
  | _ links ih =>
    rcases walk_ok_iff.mp leads with reached | ⟨fewer, here', parts', rfl, met, more⟩
    · refine walk_ok_iff.mpr (.inl (h.stage reached fun place e => ?_))
      exact stands place (by cases e; rfl)
    · exact walk_ok_iff.mpr (.inr ⟨fewer, here', parts', rfl,
        h.stage met fun place e => (by cases e), ih fewer (Nat.lt_succ_self _) more⟩)

/-- A path to something that stands in the first tree leads there in the second one. -/
theorem Within.resolve (h : t.Within t') {path : String} {d : Destination}
    (leads : t.resolve .look path = .ok d) (stands : ∀ place, d ≠ .vacant place) :
    t'.resolve .look path = .ok d := by
  obtain ⟨nul, nonempty, short, leads⟩ := resolve_ok_iff.mp leads
  refine resolve_ok_iff.mpr ⟨nul, nonempty, short, ?_⟩
  rw [h.1]
  exact h.walk leads stands

/-- A file in a folder reads the same in both trees, or it is refused for the same reason. -/
theorem Within.read_join (h : t.Within t') (leads : t.resolve .look dir = .ok (.folder folder))
    {name : String} (hname : IsName name) {bytes : ByteArray}
    (stands : t.nodeAt? (folder ++ [name]) = some (.file bytes)) :
    t'.read (Path.join dir name) = t.read (Path.join dir name) := by
  have stands' := h.2 _ _ stands
  have leads' := h.resolve leads fun _ e => by cases e
  have there : t'.standingAt (folder ++ [name]) = t.standingAt (folder ++ [name]) := by
    rw [standingAt, standingAt, stands, stands']
  rw [FileTree.read, FileTree.read, resolve_join leads' hname (by simp [stands']),
    resolve_join leads hname (by simp [stands]), there]

/-! ## Entries that do not matter -/

/-- The entry of a directory does not matter to its package. -/
inductive IsIdle (t : FileTree) (dir : String) : DirEntry → Prop
  | folder {name : String} : IsIdle t dir ⟨name, .folder⟩
  | link {name : String} : IsIdle t dir ⟨name, .link⟩
  | other {e : DirEntry} (h : isPackageSource e.name = false) : IsIdle t dir e
  | ignored {e : DirEntry} (h : LeftOut t.read (Path.join dir e.name)) : IsIdle t dir e

/-- The second tree has more nodes than the first one, and those of them that stand in the folder of a
directory are idle entries.  What stands in folders of this folder, or elsewhere, is not restricted. -/
structure AddsIdle (t t' : FileTree) (dir : String) (folder : Location)
    (extra : List (Location × Node)) : Prop where
  workingDir : t'.workingDir = t.workingDir
  nodes : t'.nodes.Perm (t.nodes ++ extra)
  distinct : t'.Distinct
  leads : t.resolve .look dir = .ok (.folder folder)
  /-- The names in the folder are names. -/
  plain : ∀ e ∈ t.nodes.filterMap (entryIn? folder), '/' ∉ e.name.toList
  idle : ∀ e ∈ extra.filterMap (entryIn? folder), t'.IsIdle dir e

namespace AddsIdle

variable {extra : List (Location × Node)}

theorem within (h : AddsIdle t t' dir folder extra) : t.Within t' := by
  refine ⟨h.workingDir, fun place node found => ?_⟩
  by_cases hp : place = []
  · subst hp
    exact found
  · refine h.distinct.nodeAt?_of_mem (h.nodes.mem_iff.mpr ?_) hp
    exact List.mem_append_left _ (mem_of_nodeAt? hp found)

/-- The directory lists the idle entries beside those that it had. -/
theorem entries (h : AddsIdle t t' dir folder extra) :
    (t'.nodes.filterMap (entryIn? folder)).Perm
      (t.nodes.filterMap (entryIn? folder) ++ extra.filterMap (entryIn? folder)) := by
  rw [← List.filterMap_append]
  exact h.nodes.filterMap _

/-- A source that was listed reads as it did. -/
theorem read_join (h : AddsIdle t t' dir folder extra) {e : DirEntry}
    (he : e ∈ sourceEntries (t.nodes.filterMap (entryIn? folder))) :
    t'.read (Path.join dir e.name) = t.read (Path.join dir e.name) := by
  obtain ⟨listed, source⟩ := List.mem_filter.mp he
  obtain ⟨file, isSource⟩ := DirEntry.isSource_iff.mp source
  obtain ⟨n, hn, entry⟩ := List.mem_filterMap.mp listed
  obtain ⟨place, kind⟩ := entryIn?_eq_some_iff.mp entry
  obtain ⟨bytes, hbytes⟩ : ∃ bytes, n.2 = .file bytes := by
    rw [file] at kind
    cases node : n.2 <;> rw [node] at kind <;> cases kind
    exact ⟨_, rfl⟩
  have distinct : t.Distinct := by
    have both := (h.nodes.map Prod.fst).nodup_iff.mp h.distinct
    rw [List.map_append] at both
    exact both.of_append_left
  have stands : t.nodeAt? (folder ++ [e.name]) = some (.file bytes) :=
    distinct.nodeAt?_of_mem (by rwa [← place, ← hbytes]) (by simp)
  have go : ".go".toList <:+ e.name.toList := by
    simp only [isPackageSource, Bool.and_eq_true, List.isSuffixOf_iff_suffix] at isSource
    exact isSource.1.1.1
  exact h.within.read_join h.leads (isName_of_suffix (h.plain e listed) go) stands

theorem listed (h : AddsIdle t t' dir folder extra) :
    t.list dir = .ok (t.nodes.filterMap (entryIn? folder)) ∧
      t'.list dir = .ok (t'.nodes.filterMap (entryIn? folder)) := by
  have leads' := h.within.resolve h.leads fun _ e => by cases e
  exact ⟨by simp only [FileTree.list, h.leads], by simp only [FileTree.list, leads']⟩

/-- No idle entry was there before. -/
theorem notMem (h : AddsIdle t t' dir folder extra) {e : DirEntry}
    (he : e ∈ extra.filterMap (entryIn? folder)) : e ∉ t.nodes.filterMap (entryIn? folder) := by
  have names := (h.entries.map (·.name)).nodup_iff.mp (h.distinct.names_nodup h.listed.2)
  rw [List.map_append] at names
  intro old
  exact (List.nodup_append.mp names).2.2 _ (List.mem_map_of_mem old) _ (List.mem_map_of_mem he) rfl

/-- The path of a source that was there before. -/
def oldPath? (t : FileTree) (dir : String) (folder : Location) (e : DirEntry) : Option String :=
  if e ∈ t.nodes.filterMap (entryIn? folder) then some (Path.join dir e.name) else none

/-- The sources that were there before stand in their order among the others. -/
theorem filterMap_oldPath (h : AddsIdle t t' dir folder extra) :
    (sortedSources (t'.nodes.filterMap (entryIn? folder))).filterMap (oldPath? t dir folder)
      = sourcePaths dir (t.nodes.filterMap (entryIn? folder)) := by
  rw [sourcePaths_eq, ← List.filterMap_eq_map]
  refine filterMap_sorted ((h.entries.filter DirEntry.isSource |>.filterMap _).trans ?_)
  have new : (sourceEntries (extra.filterMap (entryIn? folder))).filterMap
      (fun e => (oldPath? t dir folder e).map (e, ·)) = [] := by
    refine List.filterMap_eq_nil_iff.mpr fun e he => ?_
    rw [oldPath?, if_neg (h.notMem (List.mem_filter.mp he).1), Option.map_none]
  have old : (sourceEntries (t.nodes.filterMap (entryIn? folder))).filterMap
      (fun e => (oldPath? t dir folder e).map (e, ·))
        = (sourceEntries (t.nodes.filterMap (entryIn? folder))).filterMap
          fun e => ((some ∘ fun e => Path.join dir e.name) e).map (e, ·) :=
    List.filterMap_congr fun e he => by rw [oldPath?, if_pos (List.mem_filter.mp he).1]; rfl
  rw [List.filter_append, List.filterMap_append]
  exact .of_eq ((congrArg₂ (· ++ ·) old new).trans (List.append_nil _))

/-- A source of the directory that was not there before is left out of every build. -/
theorem old_or_leftOut (h : AddsIdle t t' dir folder extra) {e : DirEntry}
    (he : e ∈ sortedSources (t'.nodes.filterMap (entryIn? folder))) :
    oldPath? t dir folder e = some (Path.join dir e.name) ∨
      oldPath? t dir folder e = none ∧ LeftOut t'.read (Path.join dir e.name) := by
  obtain ⟨listed, source⟩ := List.mem_filter.mp (List.mem_mergeSort.mp he)
  obtain ⟨file, isSource⟩ := DirEntry.isSource_iff.mp source
  obtain old | new := List.mem_append.mp (h.entries.mem_iff.mp listed)
  · exact .inl (if_pos old)
  · refine .inr ⟨if_neg (h.notMem new), ?_⟩
    cases h.idle e new with
    | folder | link => cases file
    | other no => rw [isSource] at no; cases no
    | ignored left_out => exact left_out

/-- **The directory has the package that it had**, or none for the same reason. -/
theorem package_eq (h : AddsIdle t t' dir folder extra) : t'.package dir = t.package dir := by
  have texts : addTexts t'.read dir (sourcePaths dir (t'.nodes.filterMap (entryIn? folder))) []
      = addTexts t.read dir (sourcePaths dir (t.nodes.filterMap (entryIn? folder))) [] := by
    rw [sourcePaths_eq, ← sortedSources,
      addTexts_filterMap _ _ fun e he => h.old_or_leftOut he, h.filterMap_oldPath]
    refine addTexts_congr (fun path hpath => ?_) []
    obtain ⟨e, he, rfl⟩ := mem_sourcePaths.mp hpath
    exact h.read_join he
  rw [package, package, h.listed.1, h.listed.2]
  simp only [texts]

end AddsIdle

end FileTree

/-- **What does not matter to a directory changes nothing.**  With more folders, whatever is in them,
more links, more files that are no sources, and more files that can be read and that no build takes in,
a directory loads as it does without them: it gives the same package, with its name, its files, its
constants and its types, or it fails in the same way. -/
theorem Workspace.load_of_addsIdle {w w' : Workspace} {dir : String} {folder : Location}
    {extra : List (Location × Node)} (h : FileTree.AddsIdle w.tree w'.tree dir folder extra)
    (format format' : String → FormatOutcome) :
    ∃ result, w.outcome (Package.load (host format) dir) = (result, w) ∧
      w'.outcome (Package.load (host format') dir) = (result, w') := by
  refine ⟨w.tree.package dir, outcome_load_eq dir, ?_⟩
  rw [outcome_load_eq, h.package_eq]

/-- A folder with a file, a link to it, a test, and a program that is not built. -/
def driftwood : List (Location × Node) :=
  [(["tide", "attic"], .folder), (["tide", "attic", "old.go"], .file "package old\n".toUTF8),
    (["tide", "ebb.go"], .link "attic/old.go"), (["tide", "low_test.go"], .file "package low\n".toUTF8),
    (["tide", "gen.go"], .file "//go:build ignore\n\npackage main\n".toUTF8)]

/-- The directory of `tideWorkspace` with them. -/
def cluttered : Workspace := ⟨⟨driftwood ++ tideWorkspace.tree.nodes, []⟩, []⟩

theorem addsIdle_cluttered :
    FileTree.AddsIdle tideWorkspace.tree cluttered.tree "tide" ["tide"] driftwood := by
  have listed : driftwood.filterMap (FileTree.entryIn? ["tide"]) = [⟨"attic", .folder⟩,
      ⟨"ebb.go", .link⟩, ⟨"low_test.go", .file⟩, ⟨"gen.go", .file⟩] := by decide +kernel
  have read : cluttered.tree.read "tide/gen.go" = .ok "//go:build ignore\n\npackage main\n" := by
    with_unfolding_all rfl
  refine ⟨rfl, List.perm_append_comm, ?_, ?_, ?_, ?_⟩
  · unfold FileTree.Distinct
    decide +kernel
  · with_unfolding_all rfl
  · decide +kernel
  · rw [listed]
    simp only [List.forall_mem_cons]
    exact ⟨.folder, .link, .other (by decide +kernel), .ignored ⟨_, read, by decide +kernel⟩,
      List.forall_mem_nil _⟩

theorem Workspace.load_of_addsIdle_cluttered :
    FileTree.AddsIdle tideWorkspace.tree cluttered.tree "tide" ["tide"] driftwood ∧
      cluttered.outcome (Package.load (host fun _ => .unavailable) "tide")
        = (.ok tidePackage, cluttered) := by
  obtain ⟨result, before, after⟩ := load_of_addsIdle addsIdle_cluttered
    (fun _ => .unavailable) fun _ => .unavailable
  have loaded : tideWorkspace.outcome (Package.load (host fun _ => .unavailable) "tide")
      = (.ok tidePackage, tideWorkspace) := outcome_load_iff.mpr ⟨rfl, _, tideWorkspace_hasPackage⟩
  obtain ⟨rfl, -⟩ := Prod.mk.inj (before.symm.trans loaded)
  exact ⟨addsIdle_cluttered, after⟩

end EnumCodec
