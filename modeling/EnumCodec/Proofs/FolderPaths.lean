import EnumCodec.Proofs.TreePaths

/-!
# Names in a folder, and the last name of a path

* `FileTree.resolve_join` — a name that is joined to the path of a folder is looked up there.
* `FileTree.resolve_lastName` — a path that leads to a file, or to where one can be made, leads to
  the last name of the path, unless a link has that name.
* `FileTree.look_of_write` — where a path leads to write a file, it leads to look there.
-/

set_option autoImplicit false

namespace EnumCodec

open Text

/-! ## Parts of a path -/

/-- The last piece of a text has no separator, and all that the text ends with and that has none. -/
theorem exists_lastPiece (sep : Char) (text : List Char) :
    ∃ last, (pieces sep text).getLast? = some last ∧ sep ∉ last ∧ last <:+ text ∧
      ∀ back, sep ∉ back → back <:+ text → back <:+ last := by
  by_cases h : sep ∈ text
  · obtain ⟨after, before, eq, hafter⟩ := List.eq_append_cons_of_mem (List.mem_reverse.mpr h)
    have split : text = before.reverse ++ sep :: after.reverse := by
      simpa using congrArg List.reverse eq
    have hlast : sep ∉ after.reverse := by simpa using hafter
    have cut : sep :: after.reverse <:+ text := ⟨before.reverse, split.symm⟩
    refine ⟨after.reverse, ?_, hlast, (List.suffix_cons _ _).trans cut, fun back hback hsuffix => ?_⟩
    · rw [split, pieces_append, pieces_of_notMem hlast]
      simp
    · rcases List.suffix_or_suffix_of_suffix cut hsuffix with long | short
      · exact absurd (long.subset List.mem_cons_self) hback
      · rcases List.suffix_cons_iff.mp short with same | short
        · exact absurd (same ▸ List.mem_cons_self) hback
        · exact short
  · exact ⟨text, by simp [pieces_of_notMem h], h, List.suffix_rfl, fun _ _ hsuffix => hsuffix⟩

namespace FileTree

variable {t : FileTree}

/-- The last name of a path ends as the path does, up to the last slash. -/
theorem exists_lastName {path : String} {back : List Char} (slash : '/' ∉ back)
    (h : back <:+ path.toList) :
    ∃ name, (parts path).getLast? = some name ∧ '/' ∉ name.toList ∧ back <:+ name.toList ∧
      name.toList <:+ path.toList := by
  obtain ⟨last, found, hlast, hsuffix, hback⟩ := exists_lastPiece '/' path.toList
  have text : (String.ofList last).toList = last := String.toList_ofList
  exact ⟨String.ofList last, by simp [parts, found], by rwa [text],
    by rw [text]; exact hback back slash h, by rwa [text]⟩

/-- A name that a folder can hold, and that a path can name. -/
structure IsName (name : String) : Prop where
  slash : '/' ∉ name.toList
  empty : name ≠ ""
  here : name ≠ "."
  above : name ≠ ".."

/-- A name that ends in `.go` is a name in a folder. -/
theorem isName_of_suffix {name : String} (slash : '/' ∉ name.toList)
    (back : ".go".toList <:+ name.toList) : IsName name where
  slash := slash
  empty := by rintro rfl; revert back; decide
  here := by rintro rfl; revert back; decide
  above := by rintro rfl; revert back; decide

theorem isAbsolute_of_noSlash {name : String} (h : '/' ∉ name.toList) :
    Path.isAbsolute name = false := by
  cases chars : name.toList with
  | nil => simp [Path.isAbsolute, chars]
  | cons c cs =>
    have hc : c ≠ '/' := fun e => h (by simp [chars, e])
    simp [Path.isAbsolute, chars, List.isPrefixOf, hc.symm]

/-! ## Parts after parts -/

/-- Parts are followed one after the other; nothing follows from a file or from a vacant place. -/
theorem stage_append {here : Location} {front back : List String} (hb : back ≠ []) :
    t.stage .look here (front ++ back) =
      match t.stage .look here front with
      | .ok (.arrived (.folder place)) => t.stage .look place back
      | .ok (.arrived (.file ..)) => .error .notADirectory
      | .ok (.arrived (.vacant _)) => .error .notFound
      | .ok (.link place parts) => .ok (.link place (parts ++ back))
      | .error e => .error e := by
  induction front generalizing here with
  | nil => rfl
  | cons part rest ih =>
    simp only [List.cons_append, stage]
    split; · exact ih
    split; · exact ih
    split
    · rename_i h
      cases h.1
    split; · rfl
    cases t.nodeAt? (here ++ [part]) with
    | none => cases rest <;> simp [hb]
    | some node =>
      cases node with
      | file bytes => cases rest <;> simp [hb]
      | folder => exact ih
      | link target => simp

theorem walk_append (links : Nat) (here : Location) (front : List String) :
    ∃ fewer, ∀ back, back ≠ [] → t.walk .look links here (front ++ back) =
      match t.walk .look links here front with
      | .ok (.folder place) => t.walk .look fewer place back
      | .ok (.file ..) => .error .notADirectory
      | .ok (.vacant _) => .error .notFound
      | .error e => .error e := by
  induction links using Nat.strongRecOn generalizing here front with
  | _ links ih =>
    cases reached : t.stage .look here front with
    | error e =>
      refine ⟨links, fun back hb => ?_⟩
      rw [walk, stage_append hb, walk, reached]
    | ok s =>
      cases s with
      | arrived d =>
        refine ⟨links, fun back hb => ?_⟩
        have front_eq : t.walk .look links here front = .ok d := walk_ok_iff.mpr (.inl reached)
        rw [front_eq, walk, stage_append hb, reached]
        cases d with
        | folder place => exact (walk.eq_def ..).symm
        | file place bytes => rfl
        | vacant place => rfl
      | link place parts =>
        cases links with
        | zero =>
          refine ⟨0, fun back hb => ?_⟩
          rw [walk, stage_append hb, walk, reached]
        | succ links =>
          obtain ⟨fewer, h⟩ := ih links (Nat.lt_succ_self _) place parts
          refine ⟨fewer, fun back hb => ?_⟩
          have front_eq : t.walk .look (links + 1) here front = t.walk .look links place parts := by
            rw [walk, reached]
          rw [front_eq, walk, stage_append hb, reached]
          exact h back hb

/-! ## Names in a folder -/

/-- What a path leads to that names something in a folder, if that is no link. -/
def standingAt (t : FileTree) (place : Location) : Destination :=
  match t.nodeAt? place with
  | some (.file bytes) => .file place bytes
  | some .folder => .folder place
  | _ => .vacant place

theorem filePlace?_standingAt {place found : Location}
    (h : (t.standingAt place).filePlace? = some found) : found = place := by
  unfold standingAt at h
  split at h <;> cases h <;> rfl

section Name

variable {folder : Location} {name : String} (hname : IsName name)
  (link : ∀ target, t.nodeAt? (folder ++ [name]) ≠ some (.link target))

include hname link

/-- A name alone leads to what stands in the folder. -/
theorem stage_name_iff {purpose : Purpose} {s : Stage} :
    t.stage purpose folder [name] = .ok s ↔
      name.utf8ByteSize ≤ 255 ∧ s = .arrived (t.standingAt (folder ++ [name])) := by
  rw [@eq_comm _ s]
  simp only [stage, hname.empty, hname.here, hname.above, standingAt]
  by_cases size : 255 < name.utf8ByteSize
  · simp [endsInSlash, size, Nat.not_le.mpr size]
  · cases found : t.nodeAt? (folder ++ [name]) with
    | none => simp [endsInSlash, size, Nat.not_lt.mp size]
    | some node =>
      cases node with
      | file bytes => simp [endsInSlash, size, Nat.not_lt.mp size]
      | folder => simp [endsInSlash, size, Nat.not_lt.mp size]
      | link target => exact absurd found (link target)

theorem walk_name (links : Nat) :
    t.walk .look links folder [name] =
      if 255 < name.utf8ByteSize then .error .nameTooLong
      else .ok (t.standingAt (folder ++ [name])) := by
  split
  · rename_i size
    simp [walk, stage, hname.empty, hname.here, hname.above, size]
  · rename_i size
    exact walk_ok_iff.mpr (.inl ((stage_name_iff hname link).mpr ⟨Nat.not_lt.mp size, rfl⟩))

end Name

theorem walk_blank (links : Nat) (folder : Location) :
    t.walk .look links folder [""] = .ok (.folder folder) :=
  walk_ok_iff.mpr (.inl (by simp [stage]))

theorem startOf_append (here : Location) {dir : String} (hd : dir ≠ "") (name : String) :
    startOf here (dir ++ name) = startOf here dir := by
  obtain ⟨c, cs, eq⟩ := List.exists_cons_of_ne_nil (by simpa using hd : dir.toList ≠ [])
  simp [startOf, Path.isAbsolute, String.toList_append, eq]

/-- The path of a name in a folder starts where that of the folder does, and its parts are those of
the folder and the name, but for a blank part at the end of the first. -/
theorem join_name {dir name : String} (hd : dir ≠ "") (hname : '/' ∉ name.toList) :
    ∃ front, (parts dir = front ∨ parts dir = front ++ [""]) ∧
      parts (Path.join dir name) = front ++ [name] ∧
      ∀ here, startOf here (Path.join dir name) = startOf here dir := by
  have relative := isAbsolute_of_noSlash hname
  by_cases slash : ['/'] <:+ dir.toList
  · obtain ⟨front, eq⟩ := slash
    have joined : Path.join dir name = dir ++ name := by
      simp [Path.join, relative, ← eq]
    refine ⟨(pieces '/' front).map String.ofList, .inr ?_, ?_, fun here => ?_⟩
    · rw [parts, ← eq, pieces_append]
      simp [pieces]
    · rw [joined, parts, String.toList_append, ← eq, List.append_assoc, List.singleton_append,
        pieces_append, pieces_of_notMem hname]
      simp
    · rw [joined, startOf_append here hd]
  · have joined : Path.join dir name = dir ++ "/" ++ name := by
      simp [Path.join, relative, slash, hd]
    refine ⟨parts dir, .inl rfl, ?_, fun here => ?_⟩
    · have text : (dir ++ "/" ++ name).toList = dir.toList ++ '/' :: name.toList := by simp
      rw [joined, parts, text, pieces_append, pieces_of_notMem hname]
      simp [parts]
    · rw [joined, String.append_assoc, startOf_append here hd]

/-- **A name that is joined to the path of a folder is looked up there**, if it can be asked for. -/
theorem resolve_join {dir : String} {folder : Location}
    (leads : t.resolve .look dir = .ok (.folder folder)) {name : String} (hname : IsName name)
    (link : ∀ target, t.nodeAt? (folder ++ [name]) ≠ some (.link target)) :
    t.resolve .look (Path.join dir name) =
      if '\x00' ∈ (Path.join dir name).toList then .error .nulInPath
      else if maxPathSize ≤ (Path.join dir name).utf8ByteSize ∨ 255 < name.utf8ByteSize then
        .error .nameTooLong
      else .ok (t.standingAt (folder ++ [name])) := by
  obtain ⟨-, nonempty, -, leads⟩ := resolve_ok_iff.mp leads
  obtain ⟨front, shape, joined, starts⟩ := join_name nonempty hname.slash
  obtain ⟨fewer, follow⟩ := t.walk_append maxLinks (startOf t.workingDir dir) front
  have there : t.walk .look maxLinks (startOf t.workingDir dir) front = .ok (.folder folder) := by
    rcases shape with shape | shape
    · rwa [shape] at leads
    · -- the blank part leads nowhere else
      rw [shape, follow _ (by simp)] at leads
      split at leads <;> first | cases leads | skip
      rename_i place reached
      rw [walk_blank] at leads
      cases leads
      exact reached
  have some : Path.join dir name ≠ "" := fun e => by
    have blank : [""] = front ++ [name] := by simpa [e, parts, pieces] using joined
    cases front with
    | nil => exact hname.empty (by simpa using blank.symm)
    | cons part front => simp at blank
  have walked : t.walk .look maxLinks (startOf t.workingDir (Path.join dir name))
      (parts (Path.join dir name)) = t.walk .look fewer folder [name] := by
    rw [starts, joined, follow _ (by simp), there]
  rw [resolve, walked, walk_name hname link]
  by_cases nul : '\x00' ∈ (Path.join dir name).toList
  · simp [nul]
  by_cases long : maxPathSize ≤ (Path.join dir name).utf8ByteSize
  · simp [nul, some, long]
  · simp [nul, some, long]

theorem resolve_join_iff {dir : String} {folder : Location}
    (leads : t.resolve .look dir = .ok (.folder folder)) {name : String} (hname : IsName name)
    (link : ∀ target, t.nodeAt? (folder ++ [name]) ≠ some (.link target)) {d : Destination} :
    t.resolve .look (Path.join dir name) = .ok d ↔
      '\x00' ∉ (Path.join dir name).toList ∧ (Path.join dir name).utf8ByteSize < maxPathSize ∧
        name.utf8ByteSize ≤ 255 ∧ d = t.standingAt (folder ++ [name]) := by
  rw [resolve_join leads hname link]
  split
  · simp [*]
  split
  · rename_i long
    refine ⟨fun h => (by cases h), fun ⟨_, short, size, _⟩ => ?_⟩
    omega
  · rename_i nul long
    rw [not_or, Nat.not_le, Nat.not_lt] at long
    simp [nul, long, eq_comm]

/-! ## The last name of a path -/

theorem mem_of_nodeAt? {place : Location} {node : Node} (hp : place ≠ [])
    (h : t.nodeAt? place = some node) : (place, node) ∈ t.nodes := by
  rw [nodeAt?, if_neg (by simpa using hp)] at h
  obtain ⟨before, after, eq, -⟩ := List.lookup_eq_some_iff.mp h
  simp [eq]

section LastName

variable {purpose : Purpose} {name : String} (hname : IsName name)
  (link : ∀ n ∈ t.nodes, n.1.getLast? = some name → n.2.kind ≠ .link)

include hname link

/-- The last of the parts is the last name of the place, or it is still to be followed. -/
theorem stage_lastName {here : Location} {parts : List String} {s : Stage}
    (last : parts.getLast? = some name) (h : t.stage purpose here parts = .ok s) :
    (∀ d place, s = .arrived d → d.filePlace? = some place →
      place.getLast? = some name ∧ name.utf8ByteSize ≤ 255) ∧
      ∀ place rest, s = .link place rest → rest.getLast? = some name := by
  induction parts generalizing here with
  | nil => cases last
  | cons part rest ih =>
    cases rest with
    | nil =>
      obtain rfl : part = name := by simpa using last
      have noLink : ∀ target, t.nodeAt? (here ++ [part]) ≠ some (.link target) := fun target found =>
        link _ (mem_of_nodeAt? (by simp) found) (by simp) rfl
      obtain ⟨size, rfl⟩ := (stage_name_iff hname noLink).mp h
      refine ⟨fun d place arrived leads => ?_, fun _ _ e => by cases e⟩
      cases arrived
      rw [filePlace?_standingAt leads]
      exact ⟨by simp, size⟩
    | cons next rest =>
      have last : (next :: rest).getLast? = some name := by simpa using last
      rw [stage] at h
      split at h; · exact ih last h
      split at h; · exact ih last h
      split at h; · cases h
      split at h; · cases h
      cases found : t.nodeAt? (here ++ [part]) with
      | none => simp [found] at h
      | some node =>
        cases node with
        | file bytes => simp [found] at h
        | folder => exact ih last (by simpa only [found] using h)
        | link target =>
          simp only [found] at h
          cases h
          refine ⟨fun d place e => (by cases e), fun place rest e => ?_⟩
          cases e
          rw [List.getLast?_append, last]
          rfl

theorem walk_lastName {links : Nat} {here : Location} {parts : List String} {d : Destination}
    {place : Location} (last : parts.getLast? = some name)
    (h : t.walk purpose links here parts = .ok d) (leads : d.filePlace? = some place) :
    place.getLast? = some name ∧ name.utf8ByteSize ≤ 255 := by
  induction links using Nat.strongRecOn generalizing here parts with
  | _ links ih =>
    rcases walk_ok_iff.mp h with reached | ⟨fewer, here', parts', rfl, met, h⟩
    · exact (stage_lastName hname link last reached).1 d place rfl leads
    · exact ih fewer (Nat.lt_succ_self _) ((stage_lastName hname link last met).2 _ _ rfl) h

/-- A path that leads to a file, or to where one can be made, leads to the last name of the path,
unless there is a link with that name. -/
theorem resolve_lastName {path : String} {d : Destination} {place : Location}
    (last : (parts path).getLast? = some name) (h : t.resolve purpose path = .ok d)
    (leads : d.filePlace? = some place) :
    place.getLast? = some name ∧ name.utf8ByteSize ≤ 255 :=
  walk_lastName hname link last (resolve_ok_iff.mp h).2.2.2 leads

end LastName

/-! ## Looking and writing -/

theorem stage_look_of_write {here : Location} {parts : List String} {s : Stage}
    (h : t.stage .write here parts = .ok s) : t.stage .look here parts = .ok s := by
  induction parts generalizing here with
  | nil => exact h
  | cons part rest ih =>
    simp only [stage] at h ⊢
    split at h
    · rename_i blank
      rw [if_pos blank]
      exact ih h
    · rename_i blank
      rw [if_neg blank]
      split at h
      · rename_i above
        rw [if_pos above]
        exact ih h
      · rename_i above
        rw [if_neg above, if_neg (by simp)]
        split at h; · cases h
        split at h; · cases h
        rename_i size
        rw [if_neg size]
        cases found : t.nodeAt? (here ++ [part]) with
        | none => simpa only [found] using h
        | some node =>
          cases node with
          | folder => exact ih (by simpa only [found] using h)
          | file bytes => simpa only [found] using h
          | link target => simpa only [found] using h

/-- Where a path leads to write a file, it leads to look there. -/
theorem look_of_write {path : String} {d : Destination} (h : t.resolve .write path = .ok d) :
    t.resolve .look path = .ok d := by
  obtain ⟨nul, nonempty, short, leads⟩ := resolve_ok_iff.mp h
  refine resolve_ok_iff.mpr ⟨nul, nonempty, short, ?_⟩
  clear nul nonempty short h
  generalize maxLinks = links at leads ⊢
  generalize startOf t.workingDir path = here at leads ⊢
  generalize parts path = ps at leads ⊢
  induction links using Nat.strongRecOn generalizing here ps with
  | _ links ih =>
    rcases walk_ok_iff.mp leads with reached | ⟨fewer, here', parts', rfl, met, leads⟩
    · exact walk_ok_iff.mpr (.inl (stage_look_of_write reached))
    · exact walk_ok_iff.mpr (.inr ⟨fewer, here', parts', rfl, stage_look_of_write met,
        ih fewer (Nat.lt_succ_self _) _ _ leads⟩)

end FileTree

end EnumCodec
