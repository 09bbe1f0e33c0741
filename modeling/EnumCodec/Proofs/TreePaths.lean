import EnumCodec.FileTree
import Mathlib.Data.List.Induction

/-!
# Paths in a tree whose files change

A file that is written changes where no path leads: a path that leads to a folder, to a file or to a
vacant place still does, except that the place of the file is no longer vacant and has the new bytes
(`FileTree.resolve_put_ok_iff`, and `FileTree.resolve_puts_ok_iff` for a list of files).  What stands
in other places stays there (`FileTree.nodes_puts`), and to write the same files again changes nothing
(`FileTree.puts_puts`).
-/

set_option autoImplicit false

namespace EnumCodec

open Text

namespace Destination

/-- The place where a path leads. -/
def place : Destination → Location
  | file place _ | folder place | vacant place => place

/-- The place of a file, or of one that is to be made. -/
def filePlace? : Destination → Option Location
  | file place _ | vacant place => some place
  | folder _ => none

/-- Where a path leads once a file has been written at a place. -/
def afterWrite (d : Destination) (written : Location) (bytes : ByteArray) : Destination :=
  match d with
  | folder place => folder place
  | file place old => if place = written then file place bytes else file place old
  | vacant place => if place = written then file place bytes else vacant place

/-- Where a path leads once files have been written one after the other. -/
def afterWrites (d : Destination) (written : List (Location × String)) : Destination :=
  written.foldl (fun d w => d.afterWrite w.1 w.2.toUTF8) d

@[simp] theorem filePlace?_afterWrite (d : Destination) (written : Location) (bytes : ByteArray) :
    (d.afterWrite written bytes).filePlace? = d.filePlace? := by
  cases d <;> simp only [afterWrite] <;> (try split) <;> rfl

@[simp] theorem afterWrites_folder (place : Location) (written : List (Location × String)) :
    (folder place).afterWrites written = folder place := by
  induction written with
  | nil => rfl
  | cons w written ih => exact ih

@[simp] theorem filePlace?_afterWrites (d : Destination) (written : List (Location × String)) :
    (d.afterWrites written).filePlace? = d.filePlace? := by
  induction written generalizing d with
  | nil => rfl
  | cons w written ih => exact (ih _).trans (filePlace?_afterWrite d _ _)

theorem afterWrites_of_notMem {d : Destination} {written : List (Location × String)}
    (h : ∀ place, d.filePlace? = some place → place ∉ written.map Prod.fst) :
    d.afterWrites written = d := by
  induction written with
  | nil => rfl
  | cons w written ih =>
    have same : d.afterWrite w.1 w.2.toUTF8 = d := by
      cases d with
      | folder place => rfl
      | file place bytes | vacant place =>
        have apart : place ≠ w.1 := fun e => h place rfl (by simp [e])
        simp [afterWrite, apart]
    have step : d.afterWrites (w :: written) = (d.afterWrite w.1 w.2.toUTF8).afterWrites written :=
      rfl
    rw [step, same]
    exact ih fun place hp mem => h place hp (List.mem_cons_of_mem _ mem)

/-- A place where a file was written has one of the texts that were written there. -/
theorem afterWrites_of_mem {d : Destination} {place : Location} {written : List (Location × String)}
    (leads : d.filePlace? = some place) (h : place ∈ written.map Prod.fst) :
    ∃ text, (place, text) ∈ written ∧ d.afterWrites written = file place text.toUTF8 := by
  induction written generalizing d with
  | nil => cases h
  | cons w written ih =>
    have step : d.afterWrites (w :: written) = (d.afterWrite w.1 w.2.toUTF8).afterWrites written :=
      rfl
    rw [step]
    by_cases later : place ∈ written.map Prod.fst
    · obtain ⟨text, mem, eq⟩ :=
        @ih (d.afterWrite w.1 w.2.toUTF8) ((filePlace?_afterWrite ..).trans leads) later
      exact ⟨text, List.mem_cons_of_mem _ mem, eq⟩
    · obtain rfl : place = w.1 := by
        rcases List.mem_cons.mp h with h | h
        · exact h
        · exact absurd h later
      rw [afterWrites_of_notMem fun p hp => by
        rw [filePlace?_afterWrite, leads] at hp
        exact Option.some.inj hp ▸ later]
      refine ⟨w.2, List.mem_cons_self, ?_⟩
      cases d <;> cases leads <;> simp [afterWrite]

end Destination

namespace FileTree

variable {t : FileTree} {place other : Location} {bytes : ByteArray} {node : Node}

/-! ## What stands where -/

/-- A file stands at the place, or nothing. -/
def IsFilePlace (t : FileTree) (place : Location) : Prop :=
  place ≠ [] ∧ ∀ node, t.nodeAt? place = some node → node.kind = .file

theorem IsFilePlace.file_of_found (h : t.IsFilePlace place) (found : t.nodeAt? place = some node) :
    ∃ bytes, node = .file bytes := by
  have kind := h.2 node found
  cases node with
  | file bytes => exact ⟨bytes, rfl⟩
  | folder => cases kind
  | link target => cases kind

theorem nodeAt?_put_self (h : place ≠ []) : (t.put place node).nodeAt? place = some node := by
  have gone : (t.nodes.filter fun n => n.1 != place).lookup place = none := by
    rw [List.lookup_eq_none_iff]
    intro n hn
    exact bne_iff_ne.mpr (bne_iff_ne.mp (List.mem_filter.mp hn).2).symm
  simp [nodeAt?, put, h, List.lookup_append, gone]

theorem nodeAt?_put_of_ne (h : other ≠ place) :
    (t.put place node).nodeAt? other = t.nodeAt? other := by
  have kept : (t.nodes.filter fun n => n.1 != place).lookup other = t.nodes.lookup other := by
    induction t.nodes with
    | nil => rfl
    | cons n nodes ih =>
      obtain ⟨p, k⟩ := n
      by_cases hp : p = place
      · subst hp
        simp [List.lookup_cons, ih, beq_false_of_ne h]
      · simp [hp, List.lookup_cons, ih]
  have apart : (other == place) = false := by simpa using h
  simp [nodeAt?, put, List.lookup_append, kept, List.lookup_cons, apart]

theorem IsFilePlace.put (h : t.IsFilePlace other) : (t.put place (.file bytes)).IsFilePlace other := by
  refine ⟨h.1, fun node found => ?_⟩
  by_cases same : other = place
  · subst same
    rw [nodeAt?_put_self h.1] at found
    cases found
    rfl
  · exact h.2 node (by rwa [nodeAt?_put_of_ne same] at found)

/-! ## Where paths lead -/

/-- A path leads somewhere at once, or by way of a link. -/
theorem walk_ok_iff {purpose : Purpose} {links : Nat} {here : Location} {parts : List String}
    {d : Destination} :
    t.walk purpose links here parts = .ok d ↔
      t.stage purpose here parts = .ok (.arrived d) ∨
        ∃ fewer here' parts', links = fewer + 1 ∧
          t.stage purpose here parts = .ok (.link here' parts') ∧
          t.walk purpose fewer here' parts' = .ok d := by
  rw [walk]
  cases t.stage purpose here parts with
  | error e => simp
  | ok s =>
    cases s with
    | arrived destination => simp
    | link here' parts' =>
      cases links with
      | zero => simp
      | succ links =>
        constructor
        · exact fun h => .inr ⟨links, here', parts', rfl, rfl, h⟩
        · rintro (h | ⟨_, _, _, same, met, h⟩)
          · cases h
          · cases same
            cases met
            exact h

theorem resolve_ok_iff {purpose : Purpose} {path : String} {d : Destination} :
    t.resolve purpose path = .ok d ↔
      '\x00' ∉ path.toList ∧ path ≠ "" ∧ path.utf8ByteSize < maxPathSize ∧
        t.walk purpose maxLinks (startOf t.workingDir path) (parts path) = .ok d := by
  by_cases nul : '\x00' ∈ path.toList
  · simp [resolve, nul]
  by_cases none : path = ""
  · simp [resolve, none]
  by_cases short : path.utf8ByteSize < maxPathSize
  · simp [resolve, nul, none, short, Nat.not_le.mpr short]
  · simp [resolve, nul, none, short, Nat.not_lt.mp short]

/-! ## Where paths lead after a write -/

namespace Stage

/-- How far parts lead once a file has been written at a place. -/
def afterWrite (s : Stage) (written : Location) (bytes : ByteArray) : Stage :=
  match s with
  | arrived d => arrived (d.afterWrite written bytes)
  | link here parts => link here parts

end Stage

section Written

variable (h : t.IsFilePlace place)

include h

theorem stage_put_ok_iff {purpose : Purpose} {here : Location} {parts : List String} {s' : Stage} :
    (t.put place (.file bytes)).stage purpose here parts = .ok s' ↔
      ∃ s, t.stage purpose here parts = .ok s ∧ s' = s.afterWrite place bytes := by
  induction parts generalizing here with
  | nil => simp [stage, Stage.afterWrite, Destination.afterWrite, eq_comm]
  | cons part rest ih =>
    simp only [stage]
    split; · exact ih
    split; · exact ih
    split; · simp
    split; · simp
    by_cases same : here ++ [part] = place
    · -- a file stands at the place now, where a file stood before, or nothing
      rw [same, nodeAt?_put_self h.1]
      cases found : t.nodeAt? place with
      | none => cases rest <;> simp [Stage.afterWrite, Destination.afterWrite, eq_comm]
      | some node =>
        obtain ⟨old, rfl⟩ := h.file_of_found found
        cases rest <;> simp [Stage.afterWrite, Destination.afterWrite, eq_comm]
    · rw [nodeAt?_put_of_ne same]
      cases t.nodeAt? (here ++ [part]) with
      | none =>
        cases rest <;> simp [Stage.afterWrite, Destination.afterWrite, Ne.symm same, eq_comm]
      | some node =>
        cases node with
        | file old =>
          cases rest <;> simp [Stage.afterWrite, Destination.afterWrite, Ne.symm same, eq_comm]
        | folder => exact ih
        | link target => simp [Stage.afterWrite, eq_comm]

theorem walk_put_ok_iff {purpose : Purpose} {links : Nat} {here : Location} {parts : List String}
    {d' : Destination} :
    (t.put place (.file bytes)).walk purpose links here parts = .ok d' ↔
      ∃ d, t.walk purpose links here parts = .ok d ∧ d' = d.afterWrite place bytes := by
  induction links using Nat.strongRecOn generalizing here parts with
  | _ links ih =>
    constructor
    · intro leads
      rcases walk_ok_iff.mp leads with reached | ⟨fewer, here', parts', rfl, met, leads⟩
      · obtain ⟨s, before, eq⟩ := (stage_put_ok_iff h).mp reached
        cases s <;> cases eq
        exact ⟨_, walk_ok_iff.mpr (.inl before), rfl⟩
      · obtain ⟨s, before, eq⟩ := (stage_put_ok_iff h).mp met
        cases s <;> cases eq
        obtain ⟨d, leads, eq⟩ := (ih fewer (Nat.lt_succ_self _)).mp leads
        exact ⟨d, walk_ok_iff.mpr (.inr ⟨fewer, _, _, rfl, before, leads⟩), eq⟩
    · rintro ⟨d, leads, rfl⟩
      rcases walk_ok_iff.mp leads with reached | ⟨fewer, here', parts', rfl, met, leads⟩
      · exact walk_ok_iff.mpr (.inl ((stage_put_ok_iff h).mpr ⟨_, reached, rfl⟩))
      · exact walk_ok_iff.mpr (.inr ⟨fewer, here', parts', rfl,
          (stage_put_ok_iff h).mpr ⟨_, met, rfl⟩,
          (ih fewer (Nat.lt_succ_self _)).mpr ⟨d, leads, rfl⟩⟩)

theorem resolve_put_ok_iff {purpose : Purpose} {path : String} {d' : Destination} :
    (t.put place (.file bytes)).resolve purpose path = .ok d' ↔
      ∃ d, t.resolve purpose path = .ok d ∧ d' = d.afterWrite place bytes := by
  simp only [resolve_ok_iff, walk_put_ok_iff h]
  constructor
  · rintro ⟨nul, some, short, d, leads, rfl⟩
    exact ⟨d, ⟨nul, some, short, leads⟩, rfl⟩
  · rintro ⟨d, ⟨nul, some, short, leads⟩, rfl⟩
    exact ⟨nul, some, short, d, leads, rfl⟩

end Written

/-! ## Files that are written one after the other -/

/-- The tree after files have been written at some places, with their texts. -/
def puts (t : FileTree) (written : List (Location × String)) : FileTree :=
  written.foldl (fun t w => t.put w.1 (.file w.2.toUTF8)) t

/-- The nodes of the files that were written, each with its last text. -/
def writtenNodes (written : List (Location × String)) : List (Location × Node) :=
  (puts ⟨[], []⟩ written).nodes

theorem puts_concat (t : FileTree) (written : List (Location × String)) (w : Location × String) :
    t.puts (written ++ [w]) = (t.puts written).put w.1 (.file w.2.toUTF8) := by
  simp [puts]

theorem workingDir_puts (t : FileTree) (written : List (Location × String)) :
    (t.puts written).workingDir = t.workingDir := by
  induction written using List.reverseRecOn with
  | nil => rfl
  | append_singleton written w ih => rw [puts_concat]; exact ih

theorem nodes_puts (t : FileTree) (written : List (Location × String)) :
    (t.puts written).nodes
      = (t.nodes.filter fun n => n.1 ∉ written.map Prod.fst) ++ writtenNodes written := by
  induction written using List.reverseRecOn with
  | nil =>
    have all : (t.nodes.filter fun n => n.1 ∉ ([] : List (Location × String)).map Prod.fst)
        = t.nodes := List.filter_eq_self.mpr (by simp)
    rw [all]
    simp [puts, writtenNodes]
  | append_singleton written w ih =>
    simp only [writtenNodes, puts_concat, put]
    rw [ih, List.filter_append, List.filter_filter, List.append_assoc]
    congr 1
    refine List.filter_congr fun n _ => ?_
    rw [List.map_append, List.map_singleton]
    by_cases same : n.1 = w.1 <;> simp [-List.mem_map, same]

theorem mem_writtenNodes {written : List (Location × String)} {n : Location × Node}
    (h : n ∈ writtenNodes written) : ∃ text, (n.1, text) ∈ written ∧ n.2 = .file text.toUTF8 := by
  induction written using List.reverseRecOn with
  | nil => cases h
  | append_singleton written w ih =>
    simp only [writtenNodes, puts_concat, put] at h
    rcases List.mem_append.mp h with h | h
    · obtain ⟨text, mem, eq⟩ := ih (List.mem_filter.mp h).1
      exact ⟨text, by simp [mem], eq⟩
    · obtain rfl := List.mem_singleton.mp h
      exact ⟨w.2, by simp, rfl⟩

theorem puts_eq_of_nodes {t' : FileTree} {written : List (Location × String)}
    (nodes : t'.nodes.filter (fun n => n.1 ∉ written.map Prod.fst)
      = t.nodes.filter fun n => n.1 ∉ written.map Prod.fst)
    (workingDir : t'.workingDir = t.workingDir) : t'.puts written = t.puts written := by
  have hn : (t'.puts written).nodes = (t.puts written).nodes := by
    rw [nodes_puts, nodes_puts, nodes]
  have hw : (t'.puts written).workingDir = (t.puts written).workingDir := by
    rw [workingDir_puts, workingDir_puts, workingDir]
  cases hp : t'.puts written
  cases hq : t.puts written
  simp_all

/-- Writing the same files again changes nothing. -/
theorem puts_puts (t : FileTree) (written : List (Location × String)) :
    (t.puts written).puts written = t.puts written := by
  refine puts_eq_of_nodes ?_ (workingDir_puts t written)
  have gone : (writtenNodes written).filter (fun n => n.1 ∉ written.map Prod.fst) = [] := by
    rw [List.filter_eq_nil_iff]
    intro n hn
    obtain ⟨text, mem, -⟩ := mem_writtenNodes hn
    simpa using ⟨text, mem⟩
  rw [nodes_puts, List.filter_append, gone, List.append_nil, List.filter_filter]
  simp

theorem IsFilePlace.puts (h : t.IsFilePlace other) (written : List (Location × String)) :
    (t.puts written).IsFilePlace other := by
  induction written using List.reverseRecOn with
  | nil => exact h
  | append_singleton written w ih => rw [puts_concat]; exact ih.put

/-- Where paths lead after files have been written. -/
theorem resolve_puts_ok_iff {written : List (Location × String)} {purpose : Purpose} {path : String}
    (h : ∀ w ∈ written, t.IsFilePlace w.1) {d' : Destination} :
    (t.puts written).resolve purpose path = .ok d' ↔
      ∃ d, t.resolve purpose path = .ok d ∧ d' = d.afterWrites written := by
  induction written using List.reverseRecOn generalizing d' with
  | nil => simp [puts, Destination.afterWrites, eq_comm]
  | append_singleton written w ih =>
    have place : (t.puts written).IsFilePlace w.1 := (h w (by simp)).puts written
    rw [puts_concat, resolve_put_ok_iff place]
    simp only [ih fun w' hw => h w' (List.mem_append_left _ hw)]
    simp [Destination.afterWrites]

theorem stage_filePlace {purpose : Purpose} {here : Location} {parts : List String}
    {d : Destination} (h : t.stage purpose here parts = .ok (.arrived d))
    (leads : d.filePlace? = some place) : t.IsFilePlace place := by
  induction parts generalizing here with
  | nil => cases h; cases leads
  | cons part rest ih =>
    simp only [stage] at h
    split at h; · exact ih h
    split at h; · exact ih h
    split at h; · cases h
    split at h; · cases h
    cases found : t.nodeAt? (here ++ [part]) with
    | none =>
      simp only [found] at h
      split at h <;> cases h
      cases leads
      exact ⟨by simp, by simp [found]⟩
    | some node =>
      cases node with
      | file bytes =>
        simp only [found] at h
        split at h <;> cases h
        cases leads
        exact ⟨by simp, by simp [found, Node.kind]⟩
      | folder => exact ih (by simpa only [found] using h)
      | link target => simp [found] at h

theorem walk_filePlace {purpose : Purpose} {links : Nat} {here : Location} {parts : List String}
    {d : Destination} (h : t.walk purpose links here parts = .ok d)
    (leads : d.filePlace? = some place) : t.IsFilePlace place := by
  induction links using Nat.strongRecOn generalizing here parts with
  | _ links ih =>
    rcases walk_ok_iff.mp h with reached | ⟨fewer, here', parts', rfl, -, h⟩
    · exact stage_filePlace reached leads
    · exact ih fewer (Nat.lt_succ_self _) h

/-- A file can be written only where a file stands, or nothing. -/
theorem resolve_filePlace {purpose : Purpose} {path : String} {d : Destination}
    (h : t.resolve purpose path = .ok d) (leads : d.filePlace? = some place) :
    t.IsFilePlace place :=
  walk_filePlace (resolve_ok_iff.mp h).2.2.2 leads

theorem write_ok_iff {path text : String} {t' : FileTree} :
    t.write path text = .ok t' ↔
      ∃ d place, t.resolve .write path = .ok d ∧ d.filePlace? = some place ∧
        t' = t.put place (.file text.toUTF8) := by
  unfold write
  cases t.resolve .write path with
  | error e => simp
  | ok d => cases d <;> simp [Destination.filePlace?, eq_comm]

end FileTree

end EnumCodec
