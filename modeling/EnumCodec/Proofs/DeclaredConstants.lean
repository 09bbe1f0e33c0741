import EnumCodec.Constant.Entry

/-!
# The constants that files declare

What a list of files declares is said here without a pass over it.  The values of a line of a group
are those of its *supplier*, the nearest line of the group, from the line backwards, that has some;
`SourceFile.declarations` lists the named constants of a file with the types and the values of their
suppliers, and a group is *complete* if its first line has values and every supplier has as many of
them as the line has names.

`extractConstants_iff` is the result: the listing succeeds exactly if every group is complete and no
name is declared twice, and it is then the declarations of the files in order, numbered from zero.
The pass is followed by `Adds`, what one stage of it (a line, a group, a file) makes of the list so
far; two stages in a row are one stage with the declarations of both (`adds_append`).
-/

set_option autoImplicit false

namespace EnumCodec

/-! ## What is declared -/

/-- A constant as its line declares it: all of an entry but its place among the others. -/
structure ConstDeclared where
  ident : Ident
  file : String
  type : Option TypeName
  expr : Expr
  iota : Nat

namespace ConstDeclared

/-- The entry of a constant at a place. -/
def entry (c : ConstDeclared) (index : Nat) : ConstEntry :=
  ⟨c.ident.name, c.file, c.ident.pos, c.type, c.expr, c.iota, index⟩

@[simp] theorem entry_name (c : ConstDeclared) (index : Nat) :
    (c.entry index).name = c.ident.name := rfl

end ConstDeclared

/-- Entries at the places from `start` on. -/
def numberedFrom (start : Nat) (constants : List ConstDeclared) : List ConstEntry :=
  (constants.zipIdx start).map fun placed => placed.1.entry placed.2

theorem numberedFrom_append (start : Nat) (first second : List ConstDeclared) :
    numberedFrom start (first ++ second)
      = numberedFrom start first ++ numberedFrom (start + first.length) second := by
  simp [numberedFrom, List.zipIdx_append]

@[simp] theorem length_numberedFrom (start : Nat) (constants : List ConstDeclared) :
    (numberedFrom start constants).length = constants.length := by
  simp [numberedFrom]

@[simp] theorem names_numberedFrom (start : Nat) (constants : List ConstDeclared) :
    (numberedFrom start constants).map ConstEntry.name = constants.map (·.ident.name) := by
  have h : (numberedFrom start constants).map ConstEntry.name
      = ((constants.zipIdx start).map Prod.fst).map (·.ident.name) := by
    simp only [numberedFrom, List.map_map, Function.comp_def, ConstDeclared.entry_name]
  rw [h, List.zipIdx_map_fst]

/-- The last of some lines that has values. -/
def lastWithValues? (lines : List ConstSpec) : Option ConstSpec :=
  lines.reverse.find? fun line => !line.values.isEmpty

/-- The line whose type and values line `k` of a group has: the nearest, from `k` backwards, that
has values. -/
def supplier? (group : List ConstSpec) (k : Nat) : Option ConstSpec :=
  lastWithValues? (group.take (k + 1))

/-- The named constants of a line with the type and the values of a supplier. -/
def ConstSpec.declarations (file : String) (line supplier : ConstSpec) : List ConstDeclared :=
  ((line.names.zip supplier.values).filter fun named => !named.1.isBlank).map fun named =>
    ⟨named.1, file, supplier.type, named.2, line.iota⟩

/-- The named constants of a group. -/
def ConstDecl.declarations (file : String) (decl : ConstDecl) : List ConstDeclared :=
  (decl.specs.mapIdx fun k line =>
    (supplier? decl.specs k).elim [] (line.declarations file)).flatten

/-- The named constants of a file. -/
def SourceFile.declarations (file : SourceFile) : List ConstDeclared :=
  file.consts.flatMap (·.declarations file.path)

/-- The names of a line that declare something. -/
def ConstSpec.declaredNames (line : ConstSpec) : List String :=
  (line.names.filter fun ident => !ident.isBlank).map Ident.name

/-- The names of constants that a file declares. -/
def SourceFile.constNames (file : SourceFile) : List String :=
  file.consts.flatMap fun decl => decl.specs.flatMap ConstSpec.declaredNames

/-- The first line of a group has values, and every line has one for each of its names. -/
structure ConstDecl.Complete (decl : ConstDecl) : Prop where
  first : ∀ line, decl.specs.head? = some line → line.values ≠ []
  counts : ∀ k line supplier, decl.specs[k]? = some line → supplier? decl.specs k = some supplier →
    supplier.values.length = line.names.length

/-! ## Suppliers -/

theorem lastWithValues?_concat (lines : List ConstSpec) (line : ConstSpec) :
    lastWithValues? (lines ++ [line])
      = if line.values.isEmpty then lastWithValues? lines else some line := by
  cases h : line.values.isEmpty <;> simp [lastWithValues?, h]

/-- The type and the values that a line gives to itself and to the lines after it. -/
def ConstSpec.supplied (line : ConstSpec) : LineValues := (line.type, line.values)

/-- A line has the values of the last line with values, up to itself. -/
theorem lineValues?_eq (before : List ConstSpec) (line : ConstSpec) :
    line.lineValues? ((lastWithValues? before).map ConstSpec.supplied)
      = (lastWithValues? (before ++ [line])).map ConstSpec.supplied := by
  rw [lastWithValues?_concat, ConstSpec.lineValues?]
  split <;> rfl

theorem checkedValues_ok_iff {before : List ConstSpec} {line : ConstSpec} {values : LineValues} :
    line.checkedValues ((lastWithValues? before).map ConstSpec.supplied) = .ok values ↔
      ∃ supplier, lastWithValues? (before ++ [line]) = some supplier ∧
        supplier.values.length = line.names.length ∧ values = supplier.supplied := by
  rw [ConstSpec.checkedValues, lineValues?_eq]
  cases lastWithValues? (before ++ [line]) with
  | none => simp
  | some supplier =>
    simp only [Option.map_some, ConstSpec.supplied]
    split
    · simp; omega
    · split
      · simp; omega
      · simp [eq_comm]; omega

/-! ## One stage -/

/-- A stage of the listing: the constants have names of their own and come after the entries. -/
structure Adds (entries : List ConstEntry) (constants : List ConstDeclared)
    (after : List ConstEntry) : Prop where
  distinct : (constants.map (·.ident.name)).Nodup
  fresh : ∀ c ∈ constants, c.ident.name ∉ entries.map ConstEntry.name
  after_eq : after = entries ++ numberedFrom entries.length constants

theorem adds_nil {entries after : List ConstEntry} : Adds entries [] after ↔ after = entries :=
  ⟨fun h => by simpa [numberedFrom] using h.after_eq,
    fun h => ⟨by simp, by simp, by simpa [numberedFrom] using h⟩⟩

/-- Two stages in a row are one. -/
theorem adds_append {entries after : List ConstEntry} {first second : List ConstDeclared} :
    Adds entries (first ++ second) after ↔
      ∃ middle, Adds entries first middle ∧ Adds middle second after := by
  constructor
  · intro h
    obtain ⟨distinct, apart, apart'⟩ := List.nodup_append.mp (List.map_append ▸ h.distinct)
    refine ⟨_, ⟨distinct, fun c hc => h.fresh c (by simp [hc]), rfl⟩, ⟨apart, ?_, ?_⟩⟩
    · intro c hc
      have old := h.fresh c (by simp [hc])
      have new : c.ident.name ∉ first.map (·.ident.name) := fun m =>
        apart' _ m _ (List.mem_map_of_mem hc) rfl
      simp [-List.mem_map, old, new]
    · simp [h.after_eq, numberedFrom_append]
  · rintro ⟨_, ⟨distinct, fresh, rfl⟩, ⟨distinct', fresh', rfl⟩⟩
    refine ⟨?_, ?_, by simp [numberedFrom_append]⟩
    · rw [List.map_append, List.nodup_append]
      refine ⟨distinct, distinct', ?_⟩
      rintro _ m _ m' rfl
      obtain ⟨c, hc, rfl⟩ := List.mem_map.mp m'
      exact fresh' c hc (by simp [-List.mem_map, m])
    · intro c hc
      rcases List.mem_append.mp hc with hc | hc
      · exact fresh c hc
      · exact fun m => fresh' c hc (by simp [-List.mem_map, m])

theorem adds_cons {entries after : List ConstEntry} {c : ConstDeclared}
    {constants : List ConstDeclared} :
    Adds entries (c :: constants) after ↔
      c.ident.name ∉ entries.map ConstEntry.name ∧
        Adds (entries ++ [c.entry entries.length]) constants after := by
  rw [← List.singleton_append, adds_append]
  constructor
  · rintro ⟨_, ⟨-, fresh, rfl⟩, h⟩
    exact ⟨fresh c (by simp), h⟩
  · rintro ⟨fresh, h⟩
    exact ⟨_, ⟨by simp, fun c' hc => by rwa [List.mem_singleton.mp hc], rfl⟩, h⟩

/-- A stage that is followed by another one. -/
theorem adds_bind {entries after : List ConstEntry} {constants constants' : List ConstDeclared}
    {first : Except SourceError (List ConstEntry)}
    {next : List ConstEntry → Except SourceError (List ConstEntry)} {P Q : Prop}
    (hfirst : ∀ middle, first = .ok middle ↔ P ∧ Adds entries constants middle)
    (hnext : ∀ middle, next middle = .ok after ↔ Q ∧ Adds middle constants' after) :
    first.bind next = .ok after ↔ (P ∧ Q) ∧ Adds entries (constants ++ constants') after := by
  have bind : first.bind next = .ok after ↔ ∃ middle, first = .ok middle ∧ next middle = .ok after := by
    cases first <;> simp [Except.bind]
  simp only [bind, hfirst, hnext, adds_append]
  constructor
  · rintro ⟨middle, ⟨p, adds⟩, q, adds'⟩
    exact ⟨⟨p, q⟩, middle, adds, adds'⟩
  · rintro ⟨⟨p, q⟩, middle, adds, adds'⟩
    exact ⟨middle, ⟨p, adds⟩, q, adds'⟩

/-! ## The names of one line -/

theorem declareNames_iff {file : String} {type : Option TypeName} {iota : Nat}
    {named : List (Ident × Expr)} {entries after : List ConstEntry} :
    declareNames file type iota named entries = .ok after ↔
      Adds entries ((named.filter fun n => !n.1.isBlank).map fun n => ⟨n.1, file, type, n.2, iota⟩)
        after := by
  induction named generalizing entries with
  | nil => simp [declareNames, adds_nil, eq_comm]
  | cons head rest ih =>
    obtain ⟨ident, expr⟩ := head
    rw [declareNames]
    split
    case isTrue blank => rw [ih, List.filter_cons_of_neg (by simpa using blank)]
    case isFalse named =>
      rw [List.filter_cons_of_pos (by simpa using named), List.map_cons, adds_cons]
      split
      next previous found =>
        have seen : ident.name ∈ entries.map ConstEntry.name :=
          List.mem_map.mpr ⟨previous, List.mem_of_find?_eq_some found,
            by simpa using List.find?_some found⟩
        simp [-List.mem_map, seen]
      next unseen =>
        have fresh : ident.name ∉ entries.map ConstEntry.name := by
          simpa [List.find?_eq_none] using unseen
        rw [ih]
        simp [-List.mem_map, fresh, ConstDeclared.entry]

/-! ## The lines of a group -/

section Lines

variable {file : String} {before lines : List ConstSpec} {line : ConstSpec}

/-- Every one of the lines after some others has a supplier with a value for each of its names. -/
def Supplied (before lines : List ConstSpec) : Prop :=
  ∀ k line, lines[k]? = some line → ∃ supplier,
    lastWithValues? (before ++ lines.take (k + 1)) = some supplier ∧
      supplier.values.length = line.names.length

/-- The named constants of the lines that come after some others. -/
def declarationsAfter (file : String) (before lines : List ConstSpec) : List ConstDeclared :=
  (lines.mapIdx fun k line =>
    (lastWithValues? (before ++ lines.take (k + 1))).elim [] (line.declarations file)).flatten

theorem supplied_cons :
    Supplied before (line :: lines) ↔
      (∃ supplier, lastWithValues? (before ++ [line]) = some supplier ∧
        supplier.values.length = line.names.length) ∧ Supplied (before ++ [line]) lines := by
  constructor
  · exact fun h => ⟨by simpa using h 0 line, fun k l hl => by simpa using h (k + 1) l hl⟩
  · rintro ⟨first, rest⟩ k l hl
    cases k with
    | zero => obtain rfl : line = l := by simpa using hl
              simpa using first
    | succ k => simpa using rest k l (by simpa using hl)

theorem declarationsAfter_cons :
    declarationsAfter file before (line :: lines)
      = (lastWithValues? (before ++ [line])).elim [] (line.declarations file)
        ++ declarationsAfter file (before ++ [line]) lines := by
  simp [declarationsAfter, List.mapIdx_cons]

/-- A line is declared, then the lines after it with its values. -/
theorem declareSpecs_cons {values : Option LineValues} {supplied : LineValues}
    (h : line.checkedValues values = .ok supplied) (entries : List ConstEntry) :
    declareSpecs file (line :: lines) values entries
      = (declareNames file supplied.1 line.iota (line.names.zip supplied.2) entries).bind
          (declareSpecs file lines (some supplied)) := by
  simp only [declareSpecs, h]
  cases declareNames file supplied.1 line.iota (line.names.zip supplied.2) entries <;> rfl

theorem declareSpecs_iff {entries after : List ConstEntry} :
    declareSpecs file lines ((lastWithValues? before).map ConstSpec.supplied) entries = .ok after ↔
      Supplied before lines ∧ Adds entries (declarationsAfter file before lines) after := by
  induction lines generalizing before entries with
  | nil => simp [declareSpecs, Supplied, declarationsAfter, adds_nil, eq_comm]
  | cons line lines ih =>
    rw [supplied_cons, declarationsAfter_cons]
    cases checked : line.checkedValues ((lastWithValues? before).map ConstSpec.supplied) with
    | error e =>
      have none : ¬ ∃ supplier, lastWithValues? (before ++ [line]) = some supplier ∧
          supplier.values.length = line.names.length := by
        rintro ⟨supplier, last, count⟩
        rw [checkedValues_ok_iff.mpr ⟨supplier, last, count, rfl⟩] at checked
        cases checked
      simp [declareSpecs, checked, none]
    | ok values =>
      obtain ⟨supplier, last, count, rfl⟩ := checkedValues_ok_iff.mp checked
      have own : (∃ s, lastWithValues? (before ++ [line]) = some s ∧
          s.values.length = line.names.length) ↔ True := by simp [last, count]
      rw [declareSpecs_cons checked, own, last, Option.elim_some]
      have ih := @ih (before ++ [line])
      rw [last, Option.map_some] at ih
      exact adds_bind (fun _ => declareNames_iff.trans (true_and _).symm.to_iff) fun _ => ih

theorem names_declarations {supplier : ConstSpec}
    (count : supplier.values.length = line.names.length) :
    (line.declarations file supplier).map (·.ident.name) = line.declaredNames := by
  have names : (line.names.zip supplier.values).map Prod.fst = line.names :=
    List.map_fst_zip (by omega)
  rw [ConstSpec.declaredNames, ← names, List.filter_map]
  simp [ConstSpec.declarations, Function.comp_def]

theorem names_declarationsAfter (h : Supplied before lines) :
    (declarationsAfter file before lines).map (·.ident.name)
      = lines.flatMap ConstSpec.declaredNames := by
  induction lines generalizing before with
  | nil => simp [declarationsAfter]
  | cons line lines ih =>
    obtain ⟨⟨supplier, last, count⟩, rest⟩ := supplied_cons.mp h
    rw [declarationsAfter_cons, last, List.map_append, ih rest, Option.elim_some,
      names_declarations count, List.flatMap_cons]

end Lines

/-! ## Groups and files -/

/-- Once the first line of a group has values, every line has a supplier. -/
theorem complete_iff_supplied (decl : ConstDecl) : decl.Complete ↔ Supplied [] decl.specs := by
  constructor
  · intro h k line hk
    obtain ⟨first, rest, lines⟩ : ∃ first rest, decl.specs = first :: rest :=
      List.exists_cons_of_ne_nil (by rintro lines; simp [lines] at hk)
    have found : (supplier? decl.specs k).isSome := by
      have values : first.values ≠ [] := h.first first (by simp [lines])
      simp [supplier?, lastWithValues?, lines, values]
    obtain ⟨supplier, found⟩ := Option.isSome_iff_exists.mp found
    exact ⟨supplier, found, h.counts k line supplier hk found⟩
  · intro h
    refine ⟨fun line head => ?_, fun k line supplier hk found => ?_⟩
    · obtain ⟨rest, lines⟩ := List.head?_eq_some_iff.mp head
      obtain ⟨supplier, last, -⟩ := h 0 line (by simp [lines])
      rintro none
      simp [lastWithValues?, lines, none] at last
    · obtain ⟨supplier', last, count⟩ := h k line hk
      obtain rfl : supplier' = supplier := Option.some.inj (last.symm.trans found)
      exact count

theorem declareGroups_cons (file : String) (decl : ConstDecl) (decls : List ConstDecl)
    (entries : List ConstEntry) :
    declareGroups file (decl :: decls) entries
      = (declareSpecs file decl.specs none entries).bind (declareGroups file decls) := by
  rw [declareGroups]
  cases declareSpecs file decl.specs none entries <;> rfl

theorem declareGroups_iff {file : String} {decls : List ConstDecl}
    {entries after : List ConstEntry} :
    declareGroups file decls entries = .ok after ↔
      (∀ decl ∈ decls, decl.Complete) ∧ Adds entries (decls.flatMap (·.declarations file)) after := by
  induction decls generalizing entries with
  | nil => simp [declareGroups, adds_nil, eq_comm]
  | cons decl decls ih =>
    rw [declareGroups_cons, List.flatMap_cons, List.forall_mem_cons, complete_iff_supplied]
    exact adds_bind (fun middle => @declareSpecs_iff file [] decl.specs entries middle) fun _ => ih

theorem declareFiles_cons (file : SourceFile) (files : List SourceFile)
    (entries : List ConstEntry) :
    declareFiles (file :: files) entries
      = (declareGroups file.path file.consts entries).bind (declareFiles files) := by
  rw [declareFiles]
  cases declareGroups file.path file.consts entries <;> rfl

theorem declareFiles_iff {files : List SourceFile} {entries after : List ConstEntry} :
    declareFiles files entries = .ok after ↔
      (∀ file ∈ files, ∀ decl ∈ file.consts, decl.Complete) ∧
        Adds entries (files.flatMap SourceFile.declarations) after := by
  induction files generalizing entries with
  | nil => simp [declareFiles, adds_nil, eq_comm]
  | cons file files ih =>
    rw [declareFiles_cons, List.flatMap_cons, List.forall_mem_cons]
    exact adds_bind (fun _ => declareGroups_iff) (fun _ => ih)

theorem ConstDecl.Complete.names_declarations {decl : ConstDecl} (h : decl.Complete)
    (file : String) :
    (decl.declarations file).map (·.ident.name) = decl.specs.flatMap ConstSpec.declaredNames :=
  names_declarationsAfter (complete_iff_supplied decl |>.mp h)

theorem SourceFile.names_declarations {file : SourceFile}
    (h : ∀ decl ∈ file.consts, decl.Complete) :
    file.declarations.map (·.ident.name) = file.constNames := by
  rw [SourceFile.declarations, SourceFile.constNames, List.map_flatMap, List.flatMap_def,
    List.flatMap_def]
  exact congrArg _ (List.map_congr_left fun decl hd => (h decl hd).names_declarations file.path)

/-- Complete files declare the names of their constants, in order. -/
theorem names_flatMap_declarations {files : List SourceFile}
    (complete : ∀ file ∈ files, ∀ decl ∈ file.consts, decl.Complete) :
    (files.flatMap SourceFile.declarations).map (·.ident.name) = files.flatMap SourceFile.constNames := by
  rw [List.map_flatMap, List.flatMap_def, List.flatMap_def]
  exact congrArg _ (List.map_congr_left fun file hf => SourceFile.names_declarations (complete file hf))

/-- **The listing of constants**: it succeeds exactly if every group is complete and no name is
declared twice, and it then consists of the declarations of the files in order, each with its place
as its index. -/
theorem extractConstants_iff (files : List SourceFile) (entries : List ConstEntry) :
    extractConstants files = .ok entries ↔
      (∀ file ∈ files, ∀ decl ∈ file.consts, decl.Complete) ∧
        (files.flatMap SourceFile.constNames).Nodup ∧
        entries = numberedFrom 0 (files.flatMap SourceFile.declarations) := by
  rw [extractConstants, declareFiles_iff]
  refine and_congr_right fun complete => ?_
  rw [← names_flatMap_declarations complete]
  exact ⟨fun h => ⟨h.distinct, by simpa using h.after_eq⟩,
    fun ⟨distinct, eq⟩ => ⟨distinct, by simp, by simpa using eq⟩⟩

end EnumCodec
