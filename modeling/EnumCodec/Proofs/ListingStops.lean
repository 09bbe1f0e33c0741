import EnumCodec.Proofs.DeclaredConstants

/-!
# Where the listing of constants stops

The listing of the constants of files is a pass over files, groups and lines.  If it fails, it does so at
one line, after what stands before this line has been listed.

* `exists_stop_of_foldlM`, `declareSpecs_stop` — a pass that fails does so at one element, after a start
  that succeeds.
* `ComesTo`, `extractConstants_stop` — the line at which the listing of files stops.
* `declareLine_stop` — a line with a value for each name is refused for a name that is declared already.
* `ComesTo.exists_supplier`, `ComesTo.two_le_count` — the line among what all the files declare.
-/

set_option autoImplicit false

namespace EnumCodec

/-! ## Passes -/

/-- A pass that fails does so at one element, after a start that succeeds. -/
theorem exists_stop_of_foldlM {α σ ε : Type} {f : σ → α → Except ε σ} {l : List α} {s : σ} {e : ε}
    (h : l.foldlM f s = .error e) :
    ∃ done a later s', l = done ++ a :: later ∧ done.foldlM f s = .ok s' ∧ f s' a = .error e := by
  induction l generalizing s with
  | nil => cases h
  | cons a l ih =>
    rw [List.foldlM_cons] at h
    cases here : f s a with
    | error e' =>
      rw [here] at h
      cases h
      exact ⟨[], a, l, s, rfl, rfl, here⟩
    | ok middle =>
      rw [here] at h
      obtain ⟨done, a', later, s', rfl, passed, stop⟩ := ih h
      refine ⟨a :: done, a', later, s', rfl, ?_, stop⟩
      rw [List.foldlM_cons, here]
      exact passed

theorem declareFiles_eq_foldlM (files : List SourceFile) (entries : List ConstEntry) :
    declareFiles files entries
      = files.foldlM (fun entries file => declareGroups file.path file.consts entries) entries := by
  induction files generalizing entries with
  | nil => rfl
  | cons file files ih =>
    rw [declareFiles_cons, List.foldlM_cons, funext ih]
    rfl

theorem declareGroups_eq_foldlM (file : String) (decls : List ConstDecl) (entries : List ConstEntry) :
    declareGroups file decls entries
      = decls.foldlM (fun entries decl => declareSpecs file decl.specs none entries) entries := by
  induction decls generalizing entries with
  | nil => rfl
  | cons decl decls ih =>
    rw [declareGroups_cons, List.foldlM_cons, funext ih]
    rfl

section Lines

variable {file : String} {before lines : List ConstSpec} {line : ConstSpec}
  {entries : List ConstEntry} {e : SourceError}

/-- One line, then the lines after it, with the values that it has or repeats. -/
theorem declareSpecs_bind :
    declareSpecs file (line :: lines) ((lastWithValues? before).map ConstSpec.supplied) entries
      = (declareSpecs file [line] ((lastWithValues? before).map ConstSpec.supplied) entries).bind
          (declareSpecs file lines ((lastWithValues? (before ++ [line])).map ConstSpec.supplied)) := by
  cases checked : line.checkedValues ((lastWithValues? before).map ConstSpec.supplied) with
  | error problem =>
    simp only [declareSpecs, checked]
    rfl
  | ok values =>
    obtain ⟨supplier, last, count, rfl⟩ := checkedValues_ok_iff.mp checked
    rw [declareSpecs_cons checked, declareSpecs_cons checked, last]
    cases declareNames file supplier.supplied.1 line.iota (line.names.zip supplier.supplied.2) entries
      <;> rfl

/-- The pass over the lines of a group stops at one of them, as it would with this line alone. -/
theorem declareSpecs_stop
    (h : declareSpecs file lines ((lastWithValues? before).map ConstSpec.supplied) entries = .error e) :
    ∃ done line later middle, lines = done ++ line :: later ∧
      declareSpecs file done ((lastWithValues? before).map ConstSpec.supplied) entries = .ok middle ∧
      declareSpecs file [line] ((lastWithValues? (before ++ done)).map ConstSpec.supplied) middle
        = .error e := by
  induction lines generalizing before entries with
  | nil => cases h
  | cons line lines ih =>
    cases here : declareSpecs file [line] ((lastWithValues? before).map ConstSpec.supplied) entries with
    | error problem =>
      rw [declareSpecs_bind, here] at h
      cases h
      exact ⟨[], line, lines, entries, rfl, rfl, by rwa [List.append_nil]⟩
    | ok middle =>
      rw [declareSpecs_bind, here] at h
      obtain ⟨done, line', later, after, rfl, passed, stop⟩ := ih h
      refine ⟨line :: done, line', later, after, rfl, ?_, by simpa using stop⟩
      rw [declareSpecs_bind, here]
      exact passed

/-! ## Names that are declared already -/

/-- The constants that are declared before some name of a line: those listed so far, and the earlier
names of the line, each with the place of its declaration. -/
def declaredBefore (file : String) (entries : List ConstEntry) (earlier : List Ident) :
    List (String × String × Pos) :=
  entries.map (fun e => (e.name, e.file, e.pos)) ++
    (earlier.filter fun ident => !ident.isBlank).map fun ident => (ident.name, file, ident.pos)

theorem declareNames_stop {type : Option TypeName} {iota : Nat} {named : List (Ident × Expr)}
    (h : declareNames file type iota named entries = .error e) :
    ∃ earlier ident later place, named.map Prod.fst = earlier ++ ident :: later ∧
      ident.isBlank = false ∧ (ident.name, place) ∈ declaredBefore file entries earlier ∧
      e = ⟨⟨.redeclared ident.name (some place), ident.pos⟩, file⟩ := by
  -- the names that are passed over move from the ones to come to the earlier ones
  induction named generalizing entries with
  | nil => cases h
  | cons head rest ih =>
    obtain ⟨ident, expr⟩ := head
    rw [declareNames] at h
    split at h
    case isTrue blank =>
      obtain ⟨earlier, again, later, place, names, named, declared, rfl⟩ := ih h
      refine ⟨ident :: earlier, again, later, place, by simp [names], named, ?_, rfl⟩
      simpa [declaredBefore, blank] using declared
    case isFalse named =>
      split at h
      next previous found =>
        cases h
        refine ⟨[], ident, rest.map Prod.fst, (previous.file, previous.pos), rfl, by simpa using named,
          ?_, rfl⟩
        have same : previous.name = ident.name := by simpa using List.find?_some found
        simpa [declaredBefore] using ⟨previous, List.mem_of_find?_eq_some found, same, rfl, rfl⟩
      next unseen =>
        obtain ⟨earlier, again, later, place, names, named', declared, rfl⟩ := ih h
        refine ⟨ident :: earlier, again, later, place, by simp [names], named', ?_, rfl⟩
        simpa [declaredBefore, named] using declared

/-- A line with a value for each of its names is refused for a name that is declared already. -/
theorem declareLine_stop {supplier : ConstSpec} (last : lastWithValues? (before ++ [line]) = some supplier)
    (count : supplier.values.length = line.names.length)
    (stop : declareSpecs file [line] ((lastWithValues? before).map ConstSpec.supplied) entries
      = .error e) :
    ∃ earlier ident later place, line.names = earlier ++ ident :: later ∧ ident.isBlank = false ∧
      (ident.name, place) ∈ declaredBefore file entries earlier ∧
      e = ⟨⟨.redeclared ident.name (some place), ident.pos⟩, file⟩ := by
  have checked := checkedValues_ok_iff.mpr ⟨supplier, last, count, rfl⟩
  simp only [declareSpecs, checked] at stop
  split at stop <;> cases stop
  rename_i refused
  have names := List.map_fst_zip (Nat.le_of_eq count.symm)
  obtain ⟨earlier, ident, later, place, split, found⟩ := declareNames_stop refused
  rw [ConstSpec.supplied, names] at split
  exact ⟨earlier, ident, later, place, split, found⟩

end Lines

/-! ## Files -/

/-- The listing of files comes to a line of one of them, after some lines of the line's group and with
the entries of all that stands before it. -/
def ComesTo (files : List SourceFile) (file : SourceFile) (before : List ConstSpec) (line : ConstSpec)
    (entries : List ConstEntry) : Prop :=
  ∃ done rest decls decl more later, files = done ++ file :: rest ∧
    file.consts = decls ++ decl :: more ∧ decl.specs = before ++ line :: later ∧
    extractConstants (done ++ [{ file with consts := decls ++ [{ decl with specs := before }] }])
      = .ok entries

/-- The listing of files stops at one line of one of them, as it would with this line alone. -/
theorem extractConstants_stop {files : List SourceFile} {e : SourceError}
    (h : extractConstants files = .error e) :
    ∃ file before line entries, ComesTo files file before line entries ∧
      declareSpecs file.path [line] ((lastWithValues? before).map ConstSpec.supplied) entries
        = .error e := by
  rw [extractConstants, declareFiles_eq_foldlM] at h
  obtain ⟨done, file, rest, listed, rfl, passed, h⟩ := exists_stop_of_foldlM h
  rw [declareGroups_eq_foldlM] at h
  obtain ⟨decls, decl, more, listed', consts, passed', h⟩ := exists_stop_of_foldlM h
  obtain ⟨before, line, later, entries, lines, passed'', stop⟩ :=
    @declareSpecs_stop file.path [] decl.specs listed' e h
  refine ⟨file, before, line, entries, ⟨done, rest, decls, decl, more, later, rfl, consts, lines, ?_⟩,
    stop⟩
  have group : declareGroups file.path (decls ++ [{ decl with specs := before }]) listed
      = .ok entries := by
    rw [declareGroups_eq_foldlM, List.foldlM_append, passed']
    simp only [List.foldlM_cons, List.foldlM_nil, bind_pure]
    exact passed''
  rw [extractConstants, declareFiles_eq_foldlM, List.foldlM_append, passed]
  simp only [List.foldlM_cons, List.foldlM_nil, bind_pure]
  exact group

/-! ## Lines that the listing comes to -/

section Comes

variable {files : List SourceFile} {file : SourceFile} {before : List ConstSpec} {line : ConstSpec}
  {entries : List ConstEntry}

theorem ComesTo.exists_decl (h : ComesTo files file before line entries) :
    file ∈ files ∧ ∃ decl ∈ file.consts, ∃ later, decl.specs = before ++ line :: later := by
  obtain ⟨done, rest, decls, decl, more, later, rfl, consts, lines, -⟩ := h
  exact ⟨by simp, decl, by simp [consts], later, lines⟩

/-- In complete files the line has a supplier with a value for each of its names. -/
theorem ComesTo.exists_supplier (h : ComesTo files file before line entries)
    (complete : ∀ file ∈ files, ∀ decl ∈ file.consts, decl.Complete) :
    ∃ supplier, lastWithValues? (before ++ [line]) = some supplier ∧
      supplier.values.length = line.names.length := by
  obtain ⟨hfile, decl, hdecl, later, lines⟩ := h.exists_decl
  have supplied := (complete_iff_supplied decl).mp (complete file hfile decl hdecl)
  obtain ⟨supplier, last, count⟩ := supplied before.length line (by simp [lines])
  rw [List.nil_append, lines, List.take_length_add_append, List.take_succ_cons, List.take_zero] at last
  exact ⟨supplier, last, count⟩

/-- The names that are declared before some name of a line. -/
theorem names_declaredBefore (file : String) (entries : List ConstEntry) (earlier : List Ident) :
    (declaredBefore file entries earlier).map Prod.fst
      = entries.map (·.name) ++ (earlier.filter fun ident => !ident.isBlank).map Ident.name := by
  simp [declaredBefore, Function.comp_def]

/-- The entries before a line are those of the constants that stand before it. -/
theorem ComesTo.exists_names (h : ComesTo files file before line entries) :
    ∃ rest, files.flatMap SourceFile.constNames
      = entries.map (·.name) ++ (line.declaredNames ++ rest) := by
  obtain ⟨done, rest, decls, decl, more, later, rfl, consts, lines, listed⟩ := h
  obtain ⟨complete, -, -, rfl⟩ := declareFiles_iff.mp listed
  rw [List.nil_append, names_numberedFrom, names_flatMap_declarations complete]
  simp [SourceFile.constNames, consts, lines]

/-- A name of the line that is declared before it stands among the names of the files twice. -/
theorem ComesTo.two_le_count (h : ComesTo files file before line entries) {earlier later : List Ident}
    {ident : Ident} {place : String × Pos} (split : line.names = earlier ++ ident :: later)
    (named : ident.isBlank = false)
    (declared : (ident.name, place) ∈ declaredBefore file.path entries earlier) :
    2 ≤ (files.flatMap SourceFile.constNames).count ident.name := by
  obtain ⟨rest, names⟩ := h.exists_names
  have already : ident.name ∈ entries.map (·.name) ++
      (earlier.filter fun ident => !ident.isBlank).map Ident.name := by
    rw [← names_declaredBefore file.path]
    exact List.mem_map_of_mem declared
  have line_names : line.declaredNames = (earlier.filter fun ident => !ident.isBlank).map Ident.name ++
      ident.name :: (later.filter fun ident => !ident.isBlank).map Ident.name := by
    simp [ConstSpec.declaredNames, split, named]
  rw [names, line_names, List.append_assoc, List.cons_append, ← List.append_assoc, List.count_append,
    List.count_cons_self]
  have := List.count_pos_iff.mpr already
  omega

end Comes

end EnumCodec
