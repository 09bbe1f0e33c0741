import EnumCodec.Proofs.DeclarationTokens
import EnumCodec.Proofs.FileGrammar

/-!
# The parts of a file

The tokens of a file are cut, without a gap, into the package clause and the parts of the file, each
with tokens of its own.

* `TopLevel.Written` — the tokens of a part.
* `TopLevelReads.tokens`, `TopLevelsReads.tokens` — one part, and all of them.
* `readFile_ok`, `readFile_line_written` — a file, and the lines of its constants.
* `readFile_parts` — the trees of a file are those of its parts, in order.
-/

set_option autoImplicit false

namespace EnumCodec

/-! ## The grammar -/

/-- The tokens of a top-level part, before the rest of the file: a semicolon on its own; or a word,
enclosed tokens, and a semicolon that only the end of the text can replace. -/
inductive TopLevel.Written : TopLevel → List Token → List Token → Prop
  | nothing {t : Token} {rest : List Token} (semicolon : t.kind = .semicolon) :
      TopLevel.Written .nothing [t] rest
  | consts {t : Token} {specs : List ConstSpec} {body stop rest : List Token}
      (word : t.kind = .keyword .kwConst) (enclosed : IsEnclosed body)
      (lines : Declared ConstSpec.Written specs body) (ended : DeclarationEnd stop rest) :
      TopLevel.Written (.consts ⟨t.pos, specs⟩) (t :: body ++ stop) rest
  | types {t : Token} {specs : List TypeSpec} {body stop rest : List Token}
      (word : t.kind = .keyword .kwType) (enclosed : IsEnclosed body)
      (lines : Declared (fun _ => TypeSpec.Written) specs body) (ended : DeclarationEnd stop rest) :
      TopLevel.Written (.types specs) (t :: body ++ stop) rest
  | skipped {t : Token} {k : Keyword} {body stop rest : List Token} (word : t.kind = .keyword k)
      (skips : k.isSkipped = true) (enclosed : IsEnclosed body) (ended : DeclarationEnd stop rest) :
      TopLevel.Written .skipped (t :: body ++ stop) rest

/-- A top-level part with its tokens. -/
structure Segment where
  part : TopLevel
  tokens : List Token

namespace Segment

/-- The tokens of the segments, one after the other. -/
def allTokens (segments : List Segment) : List Token := segments.flatMap tokens

/-- Each segment is written as it stands before the later ones, which are followed by the rest. -/
def AllWritten : List Segment → List Token → Prop
  | [], _ => True
  | s :: segments, rest =>
    s.part.Written s.tokens (allTokens segments ++ rest) ∧ AllWritten segments rest

end Segment

/-! ## Reading -/

section Reading

variable {ts rest : List Token}

/-- Each part takes its first token at least. -/
theorem TopLevelReads.tokens {part : TopLevel} (h : TopLevelReads ts part rest) :
    ∃ t taken, ts = t :: taken ++ rest ∧ part.Written (t :: taken) rest := by
  cases h with
  | nothing semicolon => exact ⟨_, [], rfl, .nothing semicolon⟩
  | consts word decl =>
    obtain ⟨stop, ⟨body, rfl, lines⟩, ended⟩ := decl.tokens fun _ _ _ _ line => line.tokens
    have enclosed := lines.isEnclosed fun _ _ _ => ConstSpec.Written.isEnclosed
    exact ⟨_, body ++ stop, by simp, .consts word enclosed lines ended⟩
  | types word decl =>
    obtain ⟨stop, ⟨body, rfl, lines⟩, ended⟩ := decl.tokens fun _ _ _ _ line => line.tokens
    have enclosed := lines.isEnclosed fun _ _ _ => TypeSpec.Written.isEnclosed
    exact ⟨_, body ++ stop, by simp, .types word enclosed lines ended⟩
  | skipped word skips passed =>
    obtain ⟨stop, ⟨body, rfl, enclosed⟩, ended⟩ := skipDeclaration_depth passed
    exact ⟨_, body ++ stop, by simp, .skipped word skips enclosed ended⟩

/-- The parts take all tokens up to the end of the text. -/
theorem TopLevelsReads.tokens {parts : List TopLevel} (h : TopLevelsReads ts parts rest) :
    ∃ segments, ts = Segment.allTokens segments ++ rest ∧ kindAt rest = .endOfText ∧
      Segment.AllWritten segments rest ∧ segments.map Segment.part = parts := by
  induction h with
  | ends last => exact ⟨[], rfl, last, trivial, rfl⟩
  | @cons part _ _ _ _ _ first _ ih =>
    obtain ⟨t, taken, rfl, written⟩ := first.tokens
    obtain ⟨segments, rfl, last, all, rfl⟩ := ih
    exact ⟨⟨part, t :: taken⟩ :: segments, by simp [Segment.allTokens], last, ⟨written, all⟩, rfl⟩

end Reading

/-! ## The lines of a file -/

section Lines

variable {ts : List Token}

theorem TopLevel.Written.line_written {part : TopLevel} {rest : List Token} (h : part.Written ts rest)
    {decl : ConstDecl} (hdecl : part.const? = some decl) {line : ConstSpec}
    (hline : line ∈ decl.specs) : ∃ n us, us ⊆ ts ∧ line.Written n us := by
  cases h with
  | consts word enclosed lines ended =>
    cases hdecl
    obtain ⟨n, us, sub, written⟩ := lines.exists_mem hline
    refine ⟨n, us, ?_, written⟩
    exact List.subset_append_of_subset_left _ (List.subset_cons_of_subset _ sub)
  | _ => cases hdecl

theorem Segment.AllWritten.exists_mem {segments : List Segment} {rest : List Token}
    (h : Segment.AllWritten segments rest) {s : Segment} (hs : s ∈ segments) :
    s.tokens ⊆ Segment.allTokens segments ∧ ∃ rest, s.part.Written s.tokens rest := by
  induction segments with
  | nil => cases hs
  | cons first segments ih =>
    obtain rfl | hs := List.mem_cons.mp hs
    · exact ⟨List.subset_append_left .., _, h.1⟩
    · obtain ⟨sub, written⟩ := ih h.2 hs
      exact ⟨List.subset_append_of_subset_right _ sub, written⟩

/-- What is read of a file has been read from its clause and its parts. -/
theorem readFile_ok {path : String} {file : SourceFile} (h : readFile path ts = .ok file) :
    ∃ clause segments rest, ts = clause ++ (Segment.allTokens segments ++ rest) ∧
      PackageClause file.package clause (Segment.allTokens segments ++ rest) ∧
      Segment.AllWritten segments rest ∧ kindAt rest = .endOfText ∧
      file.consts = segments.filterMap (·.part.const?) ∧
      file.types = segments.flatMap (·.part.typeSpecs) := by
  obtain ⟨package, clause, middle, parts, rest, rfl, clause_written, reads, rfl⟩ :=
    readFile_ok_iff.mp h
  obtain ⟨segments, rfl, last, written, rfl⟩ := reads.tokens
  exact ⟨clause, segments, rest, rfl, clause_written, written, last, by rw [List.filterMap_map]; rfl,
    by rw [List.flatMap_map]⟩

/-- A line of constants is written in the tokens of its file. -/
theorem readFile_line_written {path : String} {file : SourceFile} (h : readFile path ts = .ok file)
    {decl : ConstDecl} (hdecl : decl ∈ file.consts) {line : ConstSpec} (hline : line ∈ decl.specs) :
    ∃ n us, us ⊆ ts ∧ line.Written n us := by
  obtain ⟨clause, segments, rest, rfl, -, written, -, consts, -⟩ := readFile_ok h
  rw [consts] at hdecl
  obtain ⟨s, hs, const⟩ := List.mem_filterMap.mp hdecl
  obtain ⟨sub, rest, written⟩ := written.exists_mem hs
  obtain ⟨n, us, sub', written⟩ := written.line_written const hline
  refine ⟨n, us, ?_, written⟩
  exact List.subset_append_of_subset_right _
    (List.subset_append_of_subset_left _ (List.Subset.trans sub' sub))

end Lines

/-! ## The end of the text -/

section EndOfText

variable {ts rest : List Token}

theorem DeclarationEnd.ne_endOfText {stop : List Token} (h : DeclarationEnd stop rest) :
    ∀ t ∈ stop, t.kind ≠ .endOfText := by
  cases h with
  | semicolon kind => simp [kind]
  | endOfText last => simp

/-- A word, enclosed tokens and the end of a declaration. -/
theorem ne_endOfText_of_word {t : Token} {k : Keyword} {body stop : List Token}
    (word : t.kind = .keyword k) (enclosed : IsEnclosed body) (ended : DeclarationEnd stop rest) :
    ∀ u ∈ t :: body ++ stop, u.kind ≠ .endOfText := by
  intro u hu
  obtain rfl | hu | hu : u = t ∨ u ∈ body ∨ u ∈ stop := by simpa using hu
  · simp [word]
  · exact enclosed.ne_endOfText u hu
  · exact ended.ne_endOfText u hu

theorem TopLevel.Written.ne_endOfText {part : TopLevel} (h : part.Written ts rest) :
    ∀ t ∈ ts, t.kind ≠ .endOfText := by
  cases h with
  | nothing semicolon => simp [semicolon]
  | consts word enclosed lines ended => exact ne_endOfText_of_word word enclosed ended
  | types word enclosed lines ended => exact ne_endOfText_of_word word enclosed ended
  | skipped word skips enclosed ended => exact ne_endOfText_of_word word enclosed ended

theorem Segment.AllWritten.ne_endOfText {segments : List Segment}
    (h : Segment.AllWritten segments rest) :
    ∀ t ∈ Segment.allTokens segments, t.kind ≠ .endOfText := by
  induction segments with
  | nil => exact List.forall_mem_nil _
  | cons s segments ih =>
    intro t ht
    obtain ht | ht := List.mem_append.mp ht
    · exact h.1.ne_endOfText t ht
    · exact ih h.2 t ht

theorem PackageClause.ne_endOfText {package : Ident} (h : PackageClause package ts rest) :
    ∀ t ∈ ts, t.kind ≠ .endOfText := by
  obtain ⟨word, name, -, -, ended⟩ := h
  simpa [word, name] using ended.ne_endOfText

/-- When only the last token ends the text, the tokens up to the end of the text are all but that
one. -/
theorem eq_of_ends {body before : List Token} {eof : Token} (only : ∀ t ∈ body, t.kind ≠ .endOfText)
    (eof_kind : eof.kind = .endOfText) (eq : body ++ [eof] = before ++ rest)
    (none : ∀ t ∈ before, t.kind ≠ .endOfText) (last : kindAt rest = .endOfText) :
    body = before ∧ rest = [eof] := by
  obtain ⟨more, rfl, eq'⟩ | ⟨more, rfl, rfl⟩ := List.append_eq_append_iff.mp eq
  · cases more with
    | nil => exact ⟨by simp, by simpa using eq'.symm⟩
    | cons t more =>
      have : t = eof := by
        have := congrArg List.head? eq'
        simpa using this.symm
      exact absurd eof_kind (none eof (by simp [this]))
  · cases more with
    | nil => exact ⟨by simp, rfl⟩
    | cons t more => exact absurd last (only t (by simp))

end EndOfText

/-! ## Files -/

/-- **The trees of a file are those of its parts.**  Each turn at the top level takes a token at
least.  The tokens before the one that ends the text, the only one of its kind, are those of the
package clause and of the parts of the file, one after the other, and each declaration ends with the
first semicolon outside of brackets or, without one, where the text ends.  The constants of the file
are those of the parts that declare constants, the types those of the parts that declare types; what
is passed over, with all that its brackets enclose, adds nothing. -/
theorem readFile_parts (path : String) {body : List Token} {eof : Token}
    (eof_kind : eof.kind = .endOfText) (only : ∀ t ∈ body, t.kind ≠ .endOfText) :
    (∀ t rest part, readTopLevel t rest = .ok part →
      ∃ taken, t :: rest = t :: taken ++ part.rest) ∧
    ∀ file, readFile path (body ++ [eof]) = .ok file →
      ∃ clause segments, body = clause ++ Segment.allTokens segments ∧
        PackageClause file.package clause (Segment.allTokens segments ++ [eof]) ∧
        Segment.AllWritten segments [eof] ∧
        file.consts = segments.filterMap (·.part.const?) ∧
        file.types = segments.flatMap (·.part.typeSpecs) := by
  constructor
  · intro t rest part read
    obtain ⟨u, taken, eq, -⟩ := (readTopLevel_gives_iff.mp ⟨part, read, rfl, rfl⟩).tokens
    obtain rfl := (List.cons.inj eq).1
    exact ⟨taken, eq⟩
  intro file h
  obtain ⟨clause, segments, left, eq, clause_written, written, last, consts, types⟩ := readFile_ok h
  have none : ∀ t ∈ clause ++ Segment.allTokens segments, t.kind ≠ .endOfText := by
    intro t ht
    obtain ht | ht := List.mem_append.mp ht
    · exact clause_written.ne_endOfText t ht
    · exact written.ne_endOfText t ht
  rw [← List.append_assoc] at eq
  obtain ⟨whole, rfl⟩ := eq_of_ends only eof_kind eq none last
  exact ⟨clause, segments, whole, clause_written, written, consts, types⟩

/-- The tokens of a package clause, a constant, a function with a constant of its own, and a type
without a semicolon after it. -/
def inkTokens : List Token :=
  [tokenAt 1 (.keyword .kwPackage), tokenAt 2 (.name "ink"), tokenAt 3 .semicolon,
    tokenAt 4 (.keyword .kwConst), tokenAt 5 (.name "Red"), tokenAt 6 (.symbol .assign),
    tokenAt 7 (.integer "1"), tokenAt 8 .semicolon,
    tokenAt 9 (.keyword .kwFunc), tokenAt 10 (.name "f"), tokenAt 11 (.symbol .leftParen),
    tokenAt 12 (.symbol .rightParen), tokenAt 13 (.symbol .leftBrace),
    tokenAt 14 (.keyword .kwConst), tokenAt 15 (.name "Blue"), tokenAt 16 (.symbol .assign),
    tokenAt 17 (.integer "2"), tokenAt 18 .semicolon, tokenAt 19 (.symbol .rightBrace),
    tokenAt 20 .semicolon,
    tokenAt 21 (.keyword .kwType), tokenAt 22 (.name "Color"), tokenAt 23 (.name "int")]

/-- What is kept of these tokens. -/
def inkFile : SourceFile :=
  ⟨"ink.go", ⟨"ink", ⟨1, 2⟩⟩, [⟨⟨1, 4⟩, [⟨[⟨"Red", ⟨1, 5⟩⟩], none, [.integer "1"], 0⟩]⟩],
    [⟨⟨"Color", ⟨1, 22⟩⟩, false, .named (.own "int")⟩]⟩

theorem readFile_parts_ink :
    readFile "ink.go" (inkTokens ++ [tokenAt 24 .endOfText]) = .ok inkFile ∧
      (∀ t ∈ inkTokens, t.kind ≠ .endOfText) ∧
      ∃ clause segments, inkTokens = clause ++ Segment.allTokens segments ∧
        PackageClause inkFile.package clause
          (Segment.allTokens segments ++ [tokenAt 24 .endOfText]) ∧
        Segment.AllWritten segments [tokenAt 24 .endOfText] ∧
        inkFile.consts = segments.filterMap (·.part.const?) ∧
        inkFile.types = segments.flatMap (·.part.typeSpecs) := by
  have read : readFile "ink.go" (inkTokens ++ [tokenAt 24 .endOfText]) = .ok inkFile := by
    with_unfolding_all rfl
  have only : ∀ t ∈ inkTokens, t.kind ≠ .endOfText := by decide
  exact ⟨read, only, (readFile_parts "ink.go" rfl only).2 inkFile read⟩

end EnumCodec
