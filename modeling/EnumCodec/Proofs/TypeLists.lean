import EnumCodec.Proofs.Lines
import EnumCodec.Request
import Mathlib.Data.List.Nodup

/-!
# Lists of types

The names in a list with commas, without the blanks around them: each is listed once, where it comes
first.

* `pieces_eq_splitOn`, `notMem_of_mem_pieces` — the parts of a text between separators.
* `trimmed_trimmed` — what has been trimmed is its own trimming.
* `ListsFirsts` — a list without repetitions of another one; there is only one (`ListsFirsts.unique`).
* `addNames_ok_iff`, `addNames_listsFirsts` — what the parts that are read add to the names.
* `typeList_listsFirsts` — the names of a list, and of the list that is made of them.
-/

set_option autoImplicit false

namespace EnumCodec

open Text

/-! ## Parts and their trimming -/

namespace Text

theorem pieces_eq_splitOn (sep : Char) (text : List Char) : pieces sep text = text.splitOn sep := by
  induction text with
  | nil => simp [pieces]
  | cons c text ih =>
    obtain ⟨p, ps, eq⟩ := List.exists_cons_of_ne_nil (pieces_ne_nil sep text)
    rw [List.splitOn, List.splitOnP_cons_eq_if_modifyHead, ← List.splitOn, ← ih, pieces, eq]
    rfl

/-- No piece has a separator. -/
theorem notMem_of_mem_pieces {sep : Char} {text part : List Char} (h : part ∈ pieces sep text) :
    sep ∉ part := by
  induction text generalizing part with
  | nil =>
    obtain rfl := List.mem_singleton.mp h
    exact List.not_mem_nil
  | cons c text ih =>
    obtain ⟨p, ps, eq⟩ := List.exists_cons_of_ne_nil (pieces_ne_nil sep text)
    rw [eq] at ih
    by_cases hc : c = sep
    · simp only [pieces, hc, beq_self_eq_true, if_true, eq] at h
      obtain rfl | h := List.mem_cons.mp h
      · exact List.not_mem_nil
      · exact ih h
    · simp only [pieces, beq_eq_false_iff_ne.mpr hc, Bool.false_eq_true, if_false, eq] at h
      obtain rfl | h := List.mem_cons.mp h
      · exact List.not_mem_cons_of_ne_of_not_mem (Ne.symm hc) (ih List.mem_cons_self)
      · exact ih (List.mem_cons_of_mem p h)

/-- What has been trimmed has no blanks to be trimmed off. -/
theorem trimmed_trimmed (text : List Char) : trimmed (trimmed text) = trimmed text := by
  have start : trimmed text <+: text.dropWhile isBlank := trimmed_prefix text
  have first : (trimmed text).dropWhile isBlank = trimmed text := by
    rw [List.dropWhile_eq_self_iff]
    intro some
    rw [start.getElem]
    exact List.dropWhile_get_zero_not isBlank text (some.trans_le start.length_le)
  calc trimmed (trimmed text) = List.rdropWhile isBlank ((trimmed text).dropWhile isBlank) := rfl
    _ = List.rdropWhile isBlank (trimmed text) := by rw [first]
    _ = trimmed text := List.rdropWhile_idempotent isBlank (text.dropWhile isBlank)

theorem mem_of_mem_trimmed {c : Char} {text : List Char} (h : c ∈ trimmed text) : c ∈ text := by
  have start : trimmed text <+: text.dropWhile isBlank := trimmed_prefix text
  exact (List.dropWhile_sublist isBlank).subset (start.subset h)

/-- A text of blanks is one part between commas. -/
theorem splitOn_of_trimmed_nil {text : List Char} (h : trimmed text = []) :
    text.splitOn ',' = [text] := by
  obtain ⟨left, right, blank, blank', eq⟩ := exists_trimmed text
  rw [h, List.append_nil] at eq
  rw [← pieces_eq_splitOn]
  apply pieces_of_notMem
  intro comma
  rw [eq] at comma
  exact absurd (blank.append blank' ',' comma) (by decide)

end Text

/-! ## Lists without repetitions -/

/-- The names are those of the list, each of them once, in the order in which they come first. -/
structure ListsFirsts (all names : List String) : Prop where
  nodup : names.Nodup
  mem : ∀ name, name ∈ names ↔ name ∈ all
  sorted : names.Pairwise fun a b => all.idxOf a < all.idxOf b

namespace ListsFirsts

variable {all names : List String}

theorem nil : ListsFirsts [] [] := ⟨.nil, fun _ => Iff.rfl, .nil⟩

/-- One more name is listed if it has not come before. -/
theorem snoc (h : ListsFirsts all names) (name : String) :
    ListsFirsts (all ++ [name]) (if names.contains name then names else names ++ [name]) := by
  have kept : names.Pairwise fun a b => (all ++ [name]).idxOf a < (all ++ [name]).idxOf b := by
    refine h.sorted.imp_of_mem fun {a b} ha hb less => ?_
    rw [List.idxOf_append_of_mem ((h.mem a).mp ha), List.idxOf_append_of_mem ((h.mem b).mp hb)]
    exact less
  by_cases listed : name ∈ names
  · rw [if_pos (List.contains_iff_mem.mpr listed)]
    refine ⟨h.nodup, fun other => ?_, kept⟩
    rw [List.mem_append, List.mem_singleton, ← h.mem, or_iff_left_of_imp]
    rintro rfl
    exact listed
  · rw [if_neg (listed ∘ List.contains_iff_mem.mp)]
    have new : name ∉ all := listed ∘ (h.mem name).mpr
    refine ⟨?_, fun other => ?_, ?_⟩
    · rw [← List.concat_eq_append]
      exact h.nodup.concat listed
    · rw [List.mem_append, List.mem_append, h.mem]
    · refine List.pairwise_append.mpr ⟨kept, List.pairwise_singleton _ _, fun a ha b hb => ?_⟩
      obtain rfl := List.mem_singleton.mp hb
      have before := (h.mem a).mp ha
      rw [List.idxOf_append_of_mem before, List.idxOf_append_of_notMem new]
      exact (List.idxOf_lt_length_iff.mpr before).trans_le (Nat.le_add_right _ _)

/-- A list without repetitions lists its own names. -/
theorem self (h : names.Nodup) : ListsFirsts names names := by
  refine ⟨h, fun _ => Iff.rfl, List.pairwise_iff_getElem.mpr fun i j hi hj less => ?_⟩
  rw [h.idxOf_getElem, h.idxOf_getElem]
  exact less

theorem unique {names' : List String} (h : ListsFirsts all names) (h' : ListsFirsts all names') :
    names = names' := by
  have perm : names.Perm names' := by
    rw [List.perm_ext_iff_of_nodup h.nodup h'.nodup]
    exact fun name => (h.mem name).trans (h'.mem name).symm
  refine List.Perm.eq_of_pairwise (fun a b _ _ less more => ?_) h.sorted h'.sorted perm
  omega

end ListsFirsts

/-! ## Reading a list -/

section Reading

variable {raw : String} {part : List Char} {parts : List (List Char)} {all names result : List String}

theorem addNames_cons (some : trimmed part ≠ []) : addNames raw (part :: parts) names =
    addNames raw parts (if names.contains (String.ofList (trimmed part)) then names
      else names ++ [String.ofList (trimmed part)]) := by
  obtain ⟨c, cs, eq⟩ := List.exists_cons_of_ne_nil some
  simp only [addNames, eq]

/-- Parts are read if none of them is blank. -/
theorem addNames_ok_iff :
    (∃ result, addNames raw parts names = .ok result) ↔ ∀ part ∈ parts, trimmed part ≠ [] := by
  induction parts generalizing names with
  | nil => simp [addNames]
  | cons part parts ih =>
    rw [List.forall_mem_cons]
    by_cases blank : trimmed part = []
    · simp [addNames, blank]
    · rw [addNames_cons blank, ih]
      exact (and_iff_right blank).symm

/-- Parts that are read are listed after those that have been read before. -/
theorem addNames_listsFirsts (before : ListsFirsts all names)
    (h : addNames raw parts names = .ok result) :
    ListsFirsts (all ++ parts.map fun part => String.ofList (trimmed part)) result := by
  induction parts generalizing all names with
  | nil =>
    cases h
    rw [List.map_nil, List.append_nil]
    exact before
  | cons part parts ih =>
    have some : trimmed part ≠ [] :=
      addNames_ok_iff.mp ⟨result, h⟩ part List.mem_cons_self
    rw [addNames_cons some] at h
    have more := ih (before.snoc _) h
    rw [List.append_assoc] at more
    exact more

end Reading

/-- The parts of a text between commas, without the blanks around them. -/
def trimmedParts (raw : String) : List String :=
  (raw.toList.splitOn ',').map fun part => String.ofList (trimmed part)

section Lists

variable {raw : String} {names : List String}

theorem typeList_eq (some : trimmed raw.toList ≠ []) :
    typeList raw = addNames raw (raw.toList.splitOn ',') [] := by
  rw [typeList, if_neg (by simpa using some), pieces_eq_splitOn]

/-- A list is read if none of its parts is blank. -/
theorem typeList_ok_iff : (∃ names, typeList raw = .ok names) ↔
    ∀ part ∈ raw.toList.splitOn ',', trimmed part ≠ [] := by
  by_cases blank : trimmed raw.toList = []
  · rw [splitOn_of_trimmed_nil blank]
    simp [typeList, blank]
  · rw [typeList_eq blank]
    exact addNames_ok_iff

theorem typeList_firsts (h : typeList raw = .ok names) : ListsFirsts (trimmedParts raw) names := by
  have some : trimmed raw.toList ≠ [] := by
    intro blank
    simp [typeList, blank] at h
  rw [typeList_eq some] at h
  exact addNames_listsFirsts .nil h

/-- A part without the blanks around it has no comma, and nothing more is trimmed off. -/
theorem of_mem_trimmedParts {name : String} (h : name ∈ trimmedParts raw) :
    ',' ∉ name.toList ∧ trimmed name.toList = name.toList := by
  obtain ⟨part, mem, rfl⟩ := List.mem_map.mp h
  rw [← pieces_eq_splitOn] at mem
  rw [String.toList_ofList]
  exact ⟨fun comma => notMem_of_mem_pieces mem (mem_of_mem_trimmed comma), trimmed_trimmed part⟩

/-- The names of a list make a list with the same parts. -/
theorem splitOn_intercalate_names (some : names ≠ []) (of_list : ∀ name ∈ names, name ∈ trimmedParts raw) :
    (",".intercalate names).toList.splitOn ',' = names.map String.toList ∧
      trimmedParts (",".intercalate names) = names := by
  have cut : (",".intercalate names).toList.splitOn ',' = names.map String.toList := by
    rw [String.toList_intercalate]
    refine List.splitOn_intercalate ',' (List.forall_mem_map.mpr fun name mem => ?_) ?_
    · exact (of_mem_trimmedParts (of_list name mem)).1
    · exact mt List.map_eq_nil_iff.mp some
  refine ⟨cut, ?_⟩
  rw [trimmedParts, cut, List.map_map]
  calc names.map _ = names.map id := List.map_congr_left fun name mem => by
        rw [Function.comp_apply, (of_mem_trimmedParts (of_list name mem)).2, String.ofList_toList, id]
    _ = names := List.map_id names

/-- **The names of a list.**  It is read exactly if none of its parts is blank.  Then it has a name; the
names are its parts without the blanks around them, each listed once, where it comes first; and the list
that is made of the names is read as these names again. -/
theorem typeList_listsFirsts (raw : String) :
    ((∃ names, typeList raw = .ok names) ↔ ∀ part ∈ raw.toList.splitOn ',', trimmed part ≠ []) ∧
    ∀ names, typeList raw = .ok names → names ≠ [] ∧ ListsFirsts (trimmedParts raw) names ∧
      typeList (",".intercalate names) = .ok names := by
  refine ⟨typeList_ok_iff, fun names h => ?_⟩
  have firsts := typeList_firsts h
  have of_list : ∀ name ∈ names, name ∈ trimmedParts raw := fun name => (firsts.mem name).mp
  have some : names ≠ [] := by
    obtain ⟨part, parts, eq⟩ := List.exists_cons_of_ne_nil (List.splitOn_ne_nil ',' raw.toList)
    have first : String.ofList (trimmed part) ∈ trimmedParts raw := by
      rw [trimmedParts, eq]
      exact List.mem_cons_self
    exact List.ne_nil_of_mem ((firsts.mem _).mpr first)
  obtain ⟨cut, parts⟩ := splitOn_intercalate_names some of_list
  have no_blank : ∀ part ∈ (",".intercalate names).toList.splitOn ',', trimmed part ≠ [] := by
    rw [cut]
    refine List.forall_mem_map.mpr fun name mem => ?_
    obtain ⟨part, of_raw, rfl⟩ := List.mem_map.mp (of_list name mem)
    rw [String.toList_ofList, trimmed_trimmed]
    exact typeList_ok_iff.mp ⟨names, h⟩ part of_raw
  obtain ⟨names', again⟩ := typeList_ok_iff.mpr no_blank
  have firsts' := typeList_firsts again
  rw [parts] at firsts'
  refine ⟨some, firsts, ?_⟩
  rw [again, firsts'.unique (.self firsts.nodup)]

/-- A list with blanks around its names and one name twice. -/
theorem typeList_listsFirsts_twice :
    typeList " Pill,\tColor , Pill" = .ok ["Pill", "Color"] ∧
    ListsFirsts (trimmedParts " Pill,\tColor , Pill") ["Pill", "Color"] ∧
    typeList "Pill,Color" = .ok ["Pill", "Color"] := by
  have read : typeList " Pill,\tColor , Pill" = .ok ["Pill", "Color"] := by decide
  obtain ⟨-, firsts, again⟩ := (typeList_listsFirsts " Pill,\tColor , Pill").2 _ read
  exact ⟨read, firsts, again⟩

end Lists

end EnumCodec
