import EnumCodec.Proofs.GeneratedText

/-!
# Generated files whose names come from a scanner

The names that a scanner can give are the identifiers (`isScannedName_iff`).  A file that is
generated with such names takes part in builds, and is read back as a file of its package that
declares nothing (`Generated.reads_as_bare_file`), so that a package can be read again after files
have been generated for it.
-/

set_option autoImplicit false

namespace EnumCodec

open Text

/-! ## The names of a scanner -/

/-- A scanner gives the name as a token, wherever it stands and whatever it reads afterwards. -/
def IsScannedName (name : String) : Prop :=
  ∃ (s s' : Scanner) (t : Token), s.next = .ok (t, s') ∧ t.kind = .name name

theorem Scanner.next_spells {s s' : Scanner} {t : Token} (h : s.next = .ok (t, s')) :
    Spells t.kind t.lexeme ∨ t.IsImpliedEnd ∨ t.kind = .endOfText := by
  obtain ⟨c, text, l, read, kind, lexeme⟩ | implied | ended := next_read h
  · rw [kind, lexeme]
    exact .inl (Lexeme.read_spells read)
  · exact .inr (.inl implied)
  · exact .inr (.inr ended)

/-- **A scanner gives the identifiers as names**, and nothing else. -/
theorem isScannedName_iff {name : String} : IsScannedName name ↔ IsIdentifier name := by
  constructor
  · rintro ⟨s, s', t, next, kind⟩
    rcases Scanner.next_spells next with spells | ⟨semicolon, -⟩ | ended
    · rw [kind] at spells
      exact spells.isIdentifier
    · rw [kind] at semicolon
      cases semicolon
    · rw [kind] at ended
      cases ended
  · -- the name alone is a text that is read as this one word
    intro identifier
    have reads : Reads false (name.toList ++ '\n' :: []) (.name name :: .semicolon :: [.endOfText]) :=
      Reads.word (Lexeme.readsAs_chunk (c := .name name) identifier rfl (Chunk.before_lineEnd _ []))
        (Reads.lineFeed Reads.endOfText)
    obtain ⟨ts, tokens, kinds⟩ := reads Pos.start
    obtain ⟨t, s', next, rest⟩ := Scanner.tokens_inv tokens
    refine ⟨_, s', t, next, ?_⟩
    obtain ⟨more, rfl⟩ : ∃ more, ts = t :: more := by
      rcases rest with ⟨-, rfl⟩ | ⟨-, more, -, rfl⟩
      · exact ⟨[], rfl⟩
      · exact ⟨more, rfl⟩
    exact (List.cons.inj kinds).1

/-! ## Generated files -/

/-- **A generated file is a source file of its package that declares nothing**: builds do not leave
it out, and it can be read, whatever its path; its constants and types are none.  What it is generated
for are names that a scanner can give, of a package that is not blank, and the command is one line. -/
theorem Generated.reads_as_bare_file {g : Generated} (line : '\n' ∉ g.command.toList)
    (package : IsScannedName g.packageName) (named : g.packageName ≠ blankName)
    (types : ∀ e ∈ g.types, IsScannedName e.typeName ∧ ∀ name ∈ e.names, IsScannedName name) :
    isBuildIgnored g.text = false ∧
      ∀ path, ∃ file, SourceFile.ofText path g.text = .ok file ∧
        file.package.name = g.packageName ∧ file.consts = [] ∧ file.types = [] := by
  have package : IsIdentifier g.packageName := isScannedName_iff.mp package
  have types : ∀ e ∈ g.types, IsIdentifier e.typeName ∧ ∀ name ∈ e.names, IsIdentifier name :=
    fun e he => ⟨isScannedName_iff.mp (types e he).1,
      fun name hname => isScannedName_iff.mp ((types e he).2 name hname)⟩
  refine ⟨Printed.isBuildIgnored_generated line package, fun path => ?_⟩
  obtain ⟨pos, read⟩ := Printed.ofText_generated line package named types path
  exact ⟨_, read, rfl, rfl, rfl⟩

/-- A file for two types, one of them without constants. -/
def Generated.inkAndShade : Generated :=
  ⟨"-type=Ink,Größe \"; package x", "läden",
    [⟨"Ink", ["Red", "_blue", "Σ1"]⟩, ⟨"Größe", []⟩]⟩

theorem Generated.reads_as_bare_file_inkAndShade :
    isBuildIgnored Generated.inkAndShade.text = false ∧
      ∀ path, ∃ file, SourceFile.ofText path Generated.inkAndShade.text = .ok file ∧
        file.package.name = "läden" ∧ file.consts = [] ∧ file.types = [] := by
  have types : ∀ e ∈ Generated.inkAndShade.types,
      IsIdentifier e.typeName ∧ ∀ name ∈ e.names, IsIdentifier name := by
    decide +kernel
  exact Generated.reads_as_bare_file (by decide) (isScannedName_iff.mpr (by decide +kernel))
    (by decide) fun e he => ⟨isScannedName_iff.mpr (types e he).1,
      fun name hname => isScannedName_iff.mpr ((types e he).2 name hname)⟩

end EnumCodec
