import EnumCodec.Proofs.FileParts
import EnumCodec.Proofs.NumberText

/-!
# The names in a source file

Whatever a source file calls a package, a constant or a type of its own is an identifier
(`SourceFile.ofText_wellNamed`): each of these names is a token of the file, and the names among the
tokens of a text are identifiers.
-/

set_option autoImplicit false

namespace EnumCodec

/-- The names that a line of constants declares, and the name of its type in the package, are
identifiers. -/
structure ConstSpec.WellNamed (line : ConstSpec) : Prop where
  names : ∀ ident ∈ line.names, IsIdentifier ident.name
  type : ∀ name, line.type = some (.own name) → IsIdentifier name

/-- The names of the package, of its constants and of their types are identifiers. -/
structure SourceFile.WellNamed (file : SourceFile) : Prop where
  package : IsIdentifier file.package.name
  named : file.package.name ≠ blankName
  lines : ∀ decl ∈ file.consts, ∀ line ∈ decl.specs, line.WellNamed

section Names

variable {ts rest : List Token} (scanned : ∀ t ∈ ts, t.kind.IsScanned)

include scanned

/-- The token of a name that was scanned is an identifier. -/
theorem isIdentifier_of_mem {t : Token} {name : String} (ht : t ∈ ts) (kind : t.kind = .name name) :
    IsIdentifier name := by
  have identifier := scanned t ht
  rwa [kind] at identifier

theorem ConstSpec.Written.wellNamed {n : Nat} {line : ConstSpec} {us : List Token}
    (h : line.Written n us) (sub : us ⊆ ts) : line.WellNamed := by
  obtain ⟨names, type, values, -, -⟩ := h
  constructor
  · intro ident hident
    obtain ⟨vs, inside, t, rfl, kind, -⟩ := names.exists_mem hident
    have ht := inside (List.mem_singleton_self t)
    exact isIdentifier_of_mem scanned (sub (by simp [ht])) kind
  · intro name own
    rw [own] at type
    cases type with
    | present tokens =>
      cases tokens with
      | own kind => exact isIdentifier_of_mem scanned (sub (by simp)) kind

theorem PackageClause.isIdentifier {package : Ident} {clause : List Token}
    (h : PackageClause package clause rest) (sub : clause ⊆ ts) :
    IsIdentifier package.name ∧ package.name ≠ blankName := by
  obtain ⟨word, kind, -, named, ended⟩ := h
  refine ⟨isIdentifier_of_mem scanned (sub (by simp)) kind, ?_⟩
  simpa [Ident.isBlank] using named

end Names

/-- **What a source file names is named by identifiers.** -/
theorem SourceFile.ofText_wellNamed {path source : String} {file : SourceFile}
    (h : SourceFile.ofText path source = .ok file) : file.WellNamed := by
  unfold SourceFile.ofText at h
  split at h
  · cases h
  rename_i ts tokens
  have scanned := scan_isScanned tokens
  obtain ⟨clause, segments, rest, eq, clause_written, -⟩ := readFile_ok h
  have sub : clause ⊆ ts := by
    rw [eq]
    exact List.subset_append_left ..
  obtain ⟨identifier, named⟩ := clause_written.isIdentifier scanned sub
  refine ⟨identifier, named, ?_⟩
  intro decl hdecl line hline
  obtain ⟨n, us, inside, written⟩ := readFile_line_written h hdecl hline
  exact written.wellNamed scanned inside

end EnumCodec
