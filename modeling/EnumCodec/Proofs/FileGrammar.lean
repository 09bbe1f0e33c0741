import EnumCodec.Proofs.DeclarationGrammar
import EnumCodec.Syntax.File

/-!
# The grammar of files

The rules of the readers of whole files.

* `PackageClause` — the clause at the start of a file.
* `TopLevelReads`, `TopLevelsReads` — one part of a file, and all parts up to the end of the text.
* `readFile_ok_iff` — a file is read exactly by the rules.
-/

set_option autoImplicit false

namespace EnumCodec

/-! ## The rules -/

/-- The tokens of the package clause, before the rest of the file. -/
inductive PackageClause (package : Ident) : List Token → List Token → Prop
  | clause {word name : Token} {stop rest : List Token} (word_kind : word.kind = .keyword .kwPackage)
      (name_kind : name.kind = .name package.name) (name_pos : name.pos = package.pos)
      (named : package.isBlank = false) (ended : DeclarationEnd stop rest) :
      PackageClause package (word :: name :: stop) rest

/-- The words before what is passed over at the top level. -/
def Keyword.isSkipped : Keyword → Bool
  | .kwImport | .kwVar | .kwFunc => true
  | _ => false

/-- One part of a file. -/
inductive TopLevelReads : List Token → TopLevel → List Token → Prop
  | nothing {t : Token} {ts : List Token} (semicolon : t.kind = .semicolon) :
      TopLevelReads (t :: ts) .nothing ts
  | consts {specs : List ConstSpec} {t : Token} {ts rest : List Token}
      (word : t.kind = .keyword .kwConst) (decl : DeclarationReads ConstSpecReads ts specs rest) :
      TopLevelReads (t :: ts) (.consts ⟨t.pos, specs⟩) rest
  | types {specs : List TypeSpec} {t : Token} {ts rest : List Token}
      (word : t.kind = .keyword .kwType)
      (decl : DeclarationReads (fun _ => TypeSpecReads) ts specs rest) :
      TopLevelReads (t :: ts) (.types specs) rest
  | skipped {k : Keyword} {t : Token} {ts rest : List Token} (word : t.kind = .keyword k)
      (skips : k.isSkipped = true) (passed : skipDeclaration 0 ts = .ok rest) :
      TopLevelReads (t :: ts) .skipped rest

/-- The parts of a file, up to the end of the text. -/
inductive TopLevelsReads : List Token → List TopLevel → List Token → Prop
  | ends {ts : List Token} (last : kindAt ts = .endOfText) : TopLevelsReads ts [] ts
  | cons {part : TopLevel} {parts : List TopLevel} {ts middle rest : List Token}
      (inner : kindAt ts ≠ .endOfText) (first : TopLevelReads ts part middle)
      (more : TopLevelsReads middle parts rest) : TopLevelsReads ts (part :: parts) rest

/-! ## The readers -/

section Readers

variable {ts rest : List Token} {t : Token}

theorem readPackageClause_ok_iff {package : Ident} :
    readPackageClause ts = .ok (package, rest) ↔
      ∃ clause, ts = clause ++ rest ∧ PackageClause package clause rest := by
  constructor
  · intro h
    unfold readPackageClause at h
    split at h
    · cases h
    split at h
    · rename_i word
      split at h
      · cases h
      rename_i t rest _ name read
      split at h
      · cases h
      rename_i named
      split at h <;> cases h
      rename_i clauseEnd readEnd
      obtain ⟨u, eq, kind, pos⟩ := readName_ok read
      obtain ⟨stop, eq', ended⟩ := readDeclarationEnd_gives_iff.mp ⟨clauseEnd, readEnd, rfl, rfl⟩
      refine ⟨t :: u :: stop, ?_, .clause word kind pos (by simpa using named) ended⟩
      exact congrArg (t :: ·) (eq.trans (congrArg (u :: ·) eq'))
    · cases h
  · rintro ⟨-, rfl, word, kind, pos, named, ended⟩
    obtain ⟨p, eq, -, after⟩ := readDeclarationEnd_gives_iff.mpr ⟨_, rfl, ended⟩
    simp [readPackageClause, word, readName_gives kind, pos, named, eq, after]

theorem readTopLevel_gives_iff {part : TopLevel} :
    Gives (readTopLevel t ts) part rest ↔ TopLevelReads (t :: ts) part rest := by
  constructor
  · rintro ⟨p, h, rfl, rfl⟩
    unfold readTopLevel at h
    split at h
    · rename_i semicolon
      cases h
      exact .nothing semicolon
    · rename_i word
      obtain ⟨⟨⟨pos, specs⟩, rest, shorter⟩, read, rfl⟩ := exists_ok_of_map h
      obtain ⟨rfl, decl⟩ := readConstDecl_gives_iff.mp ⟨_, read, rfl, rfl⟩
      exact .consts word decl
    · rename_i word
      obtain ⟨types, read, rfl⟩ := exists_ok_of_map h
      exact .types word (readTypeDecl_gives_iff.mp ⟨_, read, rfl, rfl⟩)
    iterate 3
      · rename_i word
        split at h <;> cases h
        rename_i passed
        exact .skipped word rfl passed
    · cases h
  · intro h
    cases h with
    | nothing semicolon =>
      simp only [readTopLevel, semicolon]
      exact ⟨_, rfl, rfl, rfl⟩
    | @consts specs t ts rest word decl =>
      have given : Gives (readConstDecl t.pos ts) ⟨t.pos, specs⟩ rest :=
        readConstDecl_gives_iff.mpr ⟨rfl, decl⟩
      obtain ⟨p, eq, value, rfl⟩ := given
      simp only [readTopLevel, word, eq]
      exact ⟨_, rfl, congrArg TopLevel.consts value, rfl⟩
    | types word decl =>
      obtain ⟨p, eq, rfl, rfl⟩ := readTypeDecl_gives_iff.mpr decl
      simp only [readTopLevel, word, eq]
      exact ⟨_, rfl, rfl, rfl⟩
    | @skipped k _ _ _ word skips passed =>
      have words : k = .kwImport ∨ k = .kwVar ∨ k = .kwFunc := by
        revert skips
        cases k <;> decide
      unfold readTopLevel
      obtain rfl | rfl | rfl := words
      all_goals
        simp only [word]
        split <;> rename_i again <;> cases again.symm.trans passed
        exact ⟨_, rfl, rfl, rfl⟩

theorem reads_of_readTopLevels {ts : List Token} {parts : List TopLevel}
    (h : readTopLevels ts = .ok parts) : ∃ rest, TopLevelsReads ts parts rest := by
  match ts, h with
  | [], h =>
    rw [readTopLevels] at h
    cases h
    exact ⟨[], .ends rfl⟩
  | t :: rest, h =>
    rw [readTopLevels] at h
    split at h
    · rename_i last
      cases h
      exact ⟨t :: rest, .ends last⟩
    rename_i inner
    split at h
    · cases h
    rename_i part read
    split at h <;> cases h
    rename_i parts readMore
    have shorter := part.shorter
    obtain ⟨left, more⟩ := reads_of_readTopLevels readMore
    exact ⟨left, .cons inner (readTopLevel_gives_iff.mp ⟨part, read, rfl, rfl⟩) more⟩
termination_by ts.length
decreasing_by simp only [List.length_cons]; omega

theorem TopLevelsReads.ok {parts : List TopLevel} (h : TopLevelsReads ts parts rest) :
    readTopLevels ts = .ok parts := by
  induction h with
  | @ends ts last =>
    cases ts with
    | nil => rw [readTopLevels]
    | cons t ts =>
      have last : t.kind = .endOfText := last
      rw [readTopLevels, if_pos last]
  | @cons part parts ts middle rest inner first _ ih =>
    cases ts with
    | nil => exact absurd rfl inner
    | cons t ts =>
      have inner : t.kind ≠ .endOfText := inner
      obtain ⟨p, eq, rfl, rfl⟩ := readTopLevel_gives_iff.mpr first
      rw [readTopLevels, if_neg inner]
      simp only [eq, ih]

/-- A file is read by the rules, and by nothing else. -/
theorem readFile_ok_iff {path : String} {file : SourceFile} :
    readFile path ts = .ok file ↔ ∃ package clause middle parts rest, ts = clause ++ middle ∧
      PackageClause package clause middle ∧ TopLevelsReads middle parts rest ∧
      file = ⟨path, package, parts.filterMap TopLevel.const?, parts.flatMap TopLevel.typeSpecs⟩ := by
  constructor
  · intro h
    unfold readFile at h
    split at h
    · cases h
    rename_i package middle readPackage
    split at h <;> cases h
    rename_i parts readParts
    obtain ⟨clause, eq, written⟩ := readPackageClause_ok_iff.mp readPackage
    obtain ⟨rest, reads⟩ := reads_of_readTopLevels readParts
    exact ⟨package, clause, middle, parts, rest, eq, written, reads, rfl⟩
  · rintro ⟨package, clause, middle, parts, rest, eq, written, reads, rfl⟩
    have readPackage := readPackageClause_ok_iff.mpr ⟨clause, eq, written⟩
    simp only [readFile, readPackage, reads.ok]

end Readers

end EnumCodec
