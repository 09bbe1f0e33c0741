import EnumCodec.Proofs.FileParts
import EnumCodec.Proofs.ListingStops
import Mathlib.Data.List.Nodup

/-!
# Groups of constants as they are read

What has been read keeps the rules of a group of constants, and the listing of the constants relies on
them: of its own checks only two are ever needed.

* `ConstDecl.IsRegular` — the rules; `SourceFile.isRegular_of_ofText` — every file that is read keeps them.
* `Refusal`, `ConstDecl.IsRegular.refusal` — why the listing stops at a line of a regular group.
* `ComesTo.exists_error` — it stops wherever there is such a reason.
* `extractConstants_of_read` — what the listing of files that have been read can fail for.
-/

set_option autoImplicit false

namespace EnumCodec

/-! ## The rules of a group -/

/-- The lines of a group are numbered from zero and have names; only a line with values has a type, and it
has one value for each name; the first line has values. -/
structure ConstDecl.IsRegular (decl : ConstDecl) : Prop where
  numbered : decl.specs.map (·.iota) = List.range decl.specs.length
  named : ∀ line ∈ decl.specs, line.names ≠ []
  typed : ∀ line ∈ decl.specs, line.type.isSome = true → line.values ≠ []
  counted : ∀ line ∈ decl.specs, line.values = [] ∨ line.values.length = line.names.length
  first : ∀ line, decl.specs.head? = some line → line.values ≠ []

section Reading

variable {ts : List Token} {line : ConstSpec} {n : Nat}

/-- A line whose number of values is no problem has one for each name, or it repeats those of a line
before it. -/
theorem valueCountProblem?_eq_none (h : valueCountProblem? line = none) :
    line.values = [] ∧ line.type = none ∧ line.iota ≠ 0 ∨
      line.values ≠ [] ∧ line.values.length = line.names.length := by
  unfold valueCountProblem? at h
  split at h
  · rename_i empty
    split at h
    · cases h
    rename_i untyped
    rw [Bool.or_eq_true, not_or] at untyped
    exact .inl ⟨by simpa using empty, by simpa using untyped.1, by simpa using untyped.2⟩
  · rename_i some
    split at h
    · cases h
    split at h
    · cases h
    exact .inr ⟨by simpa using some, by omega⟩

theorem Separated.ne_nil {α : Type} {Writes : α → List Token → Prop} {as : List α}
    (h : Separated Writes as ts) : as ≠ [] := by
  cases h <;> simp

theorem ConstSpec.Written.names_ne_nil (h : line.Written n ts) : line.names ≠ [] := by
  obtain ⟨names, -, -, -, -⟩ := h
  exact names.ne_nil

theorem ConstSpec.Written.iota_eq (h : line.Written n ts) : line.iota = n := by
  obtain ⟨-, -, -, number, -⟩ := h
  exact number

theorem ConstSpec.Written.counted (h : line.Written n ts) :
    line.values = [] ∧ line.type = none ∧ line.iota ≠ 0 ∨
      line.values ≠ [] ∧ line.values.length = line.names.length := by
  obtain ⟨-, -, -, -, count⟩ := h
  exact valueCountProblem?_eq_none count

/-- Semicolons alone take no number. -/
theorem GroupLines.numbered {lines : List ConstSpec} (h : GroupLines ConstSpec.Written n lines ts) :
    lines.map (·.iota) = List.range' n lines.length := by
  induction h with
  | nil => rfl
  | blank semicolon more ih => exact ih
  | last tokens => simp [tokens.iota_eq]
  | line tokens semicolon more ih =>
    rw [List.map_cons, List.length_cons, List.range'_succ, ih, tokens.iota_eq]

theorem Declared.numbered {lines : List ConstSpec} (h : Declared ConstSpec.Written lines ts) :
    lines.map (·.iota) = List.range lines.length := by
  cases h with
  | one tokens => simp [tokens.iota_eq]
  | group left lines right => rw [lines.numbered, List.range_eq_range']

theorem Declared.isRegular {pos : Pos} {lines : List ConstSpec}
    (h : Declared ConstSpec.Written lines ts) : (ConstDecl.mk pos lines).IsRegular where
  numbered := h.numbered
  named := by
    intro line hline
    obtain ⟨n, us, -, written⟩ := h.exists_mem hline
    exact written.names_ne_nil
  typed := by
    intro line hline typed empty
    obtain ⟨n, us, -, written⟩ := h.exists_mem hline
    obtain ⟨-, untyped, -⟩ | ⟨some, -⟩ := written.counted
    · simp [untyped] at typed
    · exact some empty
  counted := by
    intro line hline
    obtain ⟨n, us, -, written⟩ := h.exists_mem hline
    exact written.counted.imp (·.1) (·.2)
  first := by
    intro line head
    obtain ⟨rest, rfl⟩ := List.head?_eq_some_iff.mp head
    have zero : line.iota = 0 := by
      have numbered := h.numbered
      rw [List.map_cons, List.length_cons, List.range_succ_eq_map] at numbered
      exact (List.cons.inj numbered).1
    obtain ⟨n, us, -, written⟩ := h.exists_mem (List.mem_cons_self ..)
    obtain ⟨-, -, later⟩ | ⟨some, -⟩ := written.counted
    · exact absurd zero later
    · exact some

theorem TopLevel.Written.isRegular {part : TopLevel} {rest : List Token} (h : part.Written ts rest)
    {decl : ConstDecl} (hdecl : part.const? = some decl) : decl.IsRegular := by
  cases h with
  | consts word enclosed lines ended =>
    cases hdecl
    exact lines.isRegular
  | _ => cases hdecl

/-- The groups of a file that has been read are regular. -/
theorem SourceFile.isRegular_of_ofText {path source : String} {file : SourceFile}
    (h : SourceFile.ofText path source = .ok file) {decl : ConstDecl} (hdecl : decl ∈ file.consts) :
    decl.IsRegular := by
  unfold SourceFile.ofText at h
  split at h
  · cases h
  obtain ⟨clause, segments, rest, -, -, written, -, consts, -⟩ := readFile_ok h
  rw [consts] at hdecl
  obtain ⟨s, hs, const⟩ := List.mem_filterMap.mp hdecl
  obtain ⟨-, rest, written⟩ := written.exists_mem hs
  exact written.isRegular const

end Reading

/-! ## Suppliers -/

theorem lastWithValues?_isSome {lines : List ConstSpec} {first : ConstSpec}
    (head : lines.head? = some first) (values : first.values ≠ []) :
    (lastWithValues? lines).isSome = true := by
  obtain ⟨rest, rfl⟩ := List.head?_eq_some_iff.mp head
  simp [lastWithValues?, values]

/-- A line without values has lines before it, and one of them has values. -/
theorem ConstDecl.IsRegular.exists_supplier {decl : ConstDecl} (h : decl.IsRegular)
    {before later : List ConstSpec} {line : ConstSpec} (lines : decl.specs = before ++ line :: later)
    (elided : line.values = []) : ∃ supplier, lastWithValues? before = some supplier := by
  refine Option.isSome_iff_exists.mp ?_
  cases before with
  | nil => exact absurd elided (h.first line (by simp [lines]))
  | cons first before => exact lastWithValues?_isSome rfl (h.first first (by simp [lines]))

/-! ## Why the listing stops -/

section Lines

variable {file : String} {before : List ConstSpec} {line : ConstSpec} {entries : List ConstEntry}
  {e : SourceError}

/-- Why the listing stops at a line, after the lines of its group before it and with the entries so far:
the line repeats values that are not as many as its names, or one of its names is declared already. -/
inductive Refusal (file : String) (before : List ConstSpec) (line : ConstSpec)
    (entries : List ConstEntry) : SourceError → Prop
  | tooFew {supplier : ConstSpec} {first : Ident} {more : List Ident} (elided : line.values = [])
      (names : line.names = first :: more) (repeats : lastWithValues? before = some supplier)
      (fewer : supplier.values.length < line.names.length) :
      Refusal file before line entries ⟨⟨.missingValue, first.pos⟩, file⟩
  | tooMany {supplier : ConstSpec} {first : Ident} {more : List Ident} (elided : line.values = [])
      (names : line.names = first :: more) (repeats : lastWithValues? before = some supplier)
      (exceeds : line.names.length < supplier.values.length) :
      Refusal file before line entries ⟨⟨.extraValue, first.pos⟩, file⟩
  | redeclared {earlier later : List Ident} {ident : Ident} {place : String × Pos}
      (names : line.names = earlier ++ ident :: later) (named : ident.isBlank = false)
      (declared : (ident.name, place) ∈ declaredBefore file entries earlier) :
      Refusal file before line entries ⟨⟨.redeclared ident.name (some place), ident.pos⟩, file⟩

theorem checkedValues_error {problem : SyntaxError} {supplier : ConstSpec}
    (last : lastWithValues? (before ++ [line]) = some supplier)
    (h : line.checkedValues ((lastWithValues? before).map ConstSpec.supplied) = .error problem) :
    supplier.values.length < line.names.length ∧ problem = ⟨.missingValue, line.pos⟩ ∨
      line.names.length < supplier.values.length ∧ problem = ⟨.extraValue, line.pos⟩ := by
  rw [ConstSpec.checkedValues, lineValues?_eq, last] at h
  simp only [Option.map_some, ConstSpec.supplied] at h
  split at h
  · rename_i fewer
    cases h
    exact .inl ⟨fewer, rfl⟩
  · split at h
    · rename_i more
      cases h
      exact .inr ⟨more, rfl⟩
    · cases h

/-- A line of a regular group is refused for a name that is declared already or, if it has no values of
its own, for the number of the values that it repeats. -/
theorem ConstDecl.IsRegular.refusal {decl : ConstDecl} (h : decl.IsRegular) {later : List ConstSpec}
    (lines : decl.specs = before ++ line :: later)
    (stop : declareSpecs file [line] ((lastWithValues? before).map ConstSpec.supplied) entries
      = .error e) : Refusal file before line entries e := by
  have here : line ∈ decl.specs := by simp [lines]
  obtain ⟨first, more, names⟩ := List.exists_cons_of_ne_nil (h.named line here)
  have pos : line.pos = first.pos := by simp [ConstSpec.pos, names]
  cases checked : line.checkedValues ((lastWithValues? before).map ConstSpec.supplied) with
  | error problem =>
    simp only [declareSpecs, checked] at stop
    cases stop
    by_cases elided : line.values = []
    · obtain ⟨supplier, repeats⟩ := h.exists_supplier lines elided
      have last : lastWithValues? (before ++ [line]) = some supplier := by
        simpa [lastWithValues?_concat, elided] using repeats
      obtain ⟨fewer, rfl⟩ | ⟨more, rfl⟩ := checkedValues_error last checked
      · exact pos ▸ .tooFew elided names repeats fewer
      · exact pos ▸ .tooMany elided names repeats more
    · -- values of its own are as many as the names
      have last : lastWithValues? (before ++ [line]) = some line := by
        simp [lastWithValues?_concat, elided]
      have count := (h.counted line here).resolve_left elided
      obtain ⟨fewer, -⟩ | ⟨more, -⟩ := checkedValues_error last checked <;> omega
  | ok values =>
    obtain ⟨supplier, last, count, -⟩ := checkedValues_ok_iff.mp checked
    obtain ⟨earlier, ident, after, place, split, named, declared, rfl⟩ :=
      declareLine_stop last count stop
    exact .redeclared split named declared

end Lines

/-- Where a line that the listing comes to is to be refused, the listing fails. -/
theorem ComesTo.exists_error {files : List SourceFile} {file : SourceFile} {before : List ConstSpec}
    {line : ConstSpec} {entries : List ConstEntry} {e : SourceError}
    (h : ComesTo files file before line entries) (refusal : Refusal file.path before line entries e) :
    ∃ e', extractConstants files = .error e' := by
  cases listed : extractConstants files with
  | error e' => exact ⟨e', rfl⟩
  | ok all =>
    exfalso
    obtain ⟨complete, adds⟩ := declareFiles_iff.mp listed
    obtain ⟨supplier, last, count⟩ := h.exists_supplier complete
    rw [lastWithValues?_concat] at last
    cases refusal with
    | tooFew elided names repeats fewer =>
      rw [elided, List.isEmpty_nil, if_pos rfl, repeats] at last
      cases last
      omega
    | tooMany elided names repeats exceeds =>
      rw [elided, List.isEmpty_nil, if_pos rfl, repeats] at last
      cases last
      omega
    | @redeclared _ _ ident _ split named declared =>
      have twice := h.two_le_count split named declared
      have nodup := names_flatMap_declarations complete ▸ adds.distinct
      have once := List.nodup_iff_count_le_one.mp nodup ident.name
      omega

/-- A file with a line that repeats two values for one name. -/
def unevenFile : SourceFile :=
  ⟨"ink/a.go", ⟨"ink", ⟨1, 9⟩⟩,
    [⟨⟨2, 1⟩, [⟨[⟨"Red", ⟨3, 2⟩⟩, ⟨"Green", ⟨3, 7⟩⟩], none, [.integer "1", .integer "2"], 0⟩,
      ⟨[⟨"Blue", ⟨4, 2⟩⟩], none, [], 1⟩]⟩], []⟩

theorem ofText_uneven :
    SourceFile.ofText "ink/a.go" "package ink\nconst (\n\tRed, Green = 1, 2\n\tBlue\n)\n"
      = .ok unevenFile := by
  with_unfolding_all rfl

end EnumCodec
