import EnumCodec.Proofs.FileParts
import EnumCodec.Proofs.PrintedExpressions

/-!
# Reading printed constants

The value of a constant is printed into a file of its own, and the file is read.

* `ConstSpec.Written.value_written` — the values of a line are written in its tokens.
* `Expr.Written.kinds_scanned` — the words of such a value were read off a text.
* `readFile_constant` — a package clause and one constant.
* `SourceFile.value_reads_back` — the value comes back, but for the places of its names.
-/

set_option autoImplicit false

namespace EnumCodec

/-! ## The values of a file -/

/-- The value of a constant is written in the tokens of its line. -/
theorem ConstSpec.Written.value_written {n : Nat} {line : ConstSpec} {ts : List Token}
    (h : line.Written n ts) {e : Expr} (he : e ∈ line.values) : ∃ us, us ⊆ ts ∧ e.WellWritten us := by
  obtain ⟨names, type, values, -, -⟩ := h
  generalize line.values = es at values he
  cases values with
  | absent => cases he
  | present assign tokens =>
    obtain ⟨us, sub, written⟩ := tokens.exists_mem he
    exact ⟨us, List.subset_append_of_subset_right _ (List.subset_cons_of_subset _ sub), written⟩

/-! ## The words of a value -/

@[simp] theorem TokenKind.isScanned_symbol (s : Symbol) : (TokenKind.symbol s).IsScanned := trivial

mutual

theorem Expr.Written.kinds_scanned {e : Expr} {ts : List Token} (h : e.Written ts)
    (scanned : ∀ t ∈ ts, t.kind.IsScanned) : ∀ k ∈ e.kinds, k.IsScanned := by
  cases h with
  | integer kind | float kind | imaginary kind | rune kind | string kind | name kind =>
    have first := scanned _ (List.mem_singleton_self _)
    rw [kind] at first
    simpa [Expr.kinds] using first
  | @selector base us dot t s base_tokens dot_kind field =>
    have base_scanned := base_tokens.kinds_scanned fun t ht => scanned t (by simp [ht])
    have field_scanned := scanned t (by simp)
    rw [field] at field_scanned
    simpa [Expr.kinds, or_imp, forall_and] using ⟨base_scanned, field_scanned⟩
  | paren left inner right =>
    have inner_scanned := inner.kinds_scanned fun t ht => scanned t (by simp [ht])
    simpa [Expr.kinds, or_imp, forall_and] using inner_scanned
  | unary operator operand =>
    have operand_scanned := operand.kinds_scanned fun t ht => scanned t (by simp [ht])
    simpa [Expr.kinds, or_imp, forall_and] using operand_scanned
  | binary left operator right =>
    have left_scanned := left.kinds_scanned fun t ht => scanned t (by simp [ht])
    have right_scanned := right.kinds_scanned fun t ht => scanned t (by simp [ht])
    simpa [Expr.kinds, or_imp, forall_and] using ⟨left_scanned, right_scanned⟩
  | call callee left args right =>
    have callee_scanned := callee.kinds_scanned fun t ht => scanned t (by simp [ht])
    have args_scanned := args.kinds_scanned fun t ht => scanned t (by simp [ht])
    simpa [Expr.kinds, or_imp, forall_and] using ⟨callee_scanned, args_scanned⟩
  | opaqueForm _ _ => exact List.forall_mem_nil _

theorem ArgumentsWritten.kinds_scanned {es : List Expr} {ts : List Token}
    (h : ArgumentsWritten es ts) (scanned : ∀ t ∈ ts, t.kind.IsScanned) :
    ∀ k ∈ Expr.argumentKinds es, k.IsScanned := by
  cases h with
  | nil => exact List.forall_mem_nil _
  | last tokens dots => exact tokens.kinds_scanned fun t ht => scanned t (by simp [ht])
  | @cons e es us dots vs t tokens isDots comma more =>
    have first := tokens.kinds_scanned fun t ht => scanned t (by simp [ht])
    have later := more.kinds_scanned fun t ht => scanned t (by simp [ht])
    cases es with
    | nil => exact first
    | cons f es => simpa [Expr.argumentKinds, or_imp, forall_and] using ⟨first, later⟩

end

/-! ## Reading a constant -/

section Constant

variable {ts : List Token} {e : Expr}

/-- A package clause and a constant with a value are read. -/
theorem readFile_constant (path : String) {package s : String} (named : package ≠ blankName)
    (kept : e.Everywhere Expr.IsKept) (bound : e.WellBound)
    (h : ts.map Token.kind = .keyword .kwPackage :: .name package :: .semicolon ::
      .keyword .kwConst :: .name s :: .symbol .assign :: (e.kinds ++ [.semicolon, .endOfText])) :
    ∃ pos pos' pos'' e', readFile path ts
        = .ok ⟨path, ⟨package, pos⟩, [⟨pos', [⟨[⟨s, pos''⟩], none, [e'], 0⟩]⟩], []⟩ ∧
      e'.withoutPlaces = e.withoutPlaces := by
  obtain ⟨t, ts, rfl, package_kind, h⟩ := List.map_eq_cons_iff.mp h
  obtain ⟨u, ts, rfl, package_name, h⟩ := List.map_eq_cons_iff.mp h
  obtain ⟨v, ts, rfl, clause_end, h⟩ := List.map_eq_cons_iff.mp h
  obtain ⟨w, ts, rfl, const_kind, h⟩ := List.map_eq_cons_iff.mp h
  obtain ⟨x, ts, rfl, const_name, h⟩ := List.map_eq_cons_iff.mp h
  obtain ⟨y, ts, rfl, assign, h⟩ := List.map_eq_cons_iff.mp h
  obtain ⟨us, ts, rfl, value_kinds, h⟩ := List.map_eq_append_iff.mp h
  obtain ⟨z, ts, rfl, const_end, h⟩ := List.map_eq_cons_iff.mp h
  obtain ⟨eof, rfl, last⟩ := List.map_eq_singleton_iff.mp h
  obtain ⟨e', written, kept', same⟩ := Expr.exists_wellWritten kept bound value_kinds
  have stops : Stops 1 [z, eof] := by
    intro op next
    rw [kindAt, const_end] at next
    cases next
  have value : BinaryReads 1 (us ++ [z, eof]) e' [z, eof] :=
    readBinary_gives_iff.mp
      (readBinary_of_written written kept' e'.bindsFrom_one (by rw [kindAt, const_end]; rfl) stops)
  have line : ConstSpecReads 0 (x :: y :: (us ++ [z, eof])) ⟨[⟨s, x.pos⟩], none, [e'], 0⟩ [z, eof] :=
    .line (.name const_name) (.stops (by rw [kindAt, assign]; decide)) (.absent (.inl assign))
      (.present assign (.one value (by rw [kindAt, const_end]; decide))) rfl
  have decl : DeclarationReads ConstSpecReads (x :: y :: (us ++ [z, eof])) _ [eof] :=
    .one (fun left => nomatch const_name.symm.trans left) line (.semicolon const_end)
  have clause : PackageClause ⟨package, u.pos⟩ [t, u, v] (w :: x :: y :: (us ++ [z, eof])) :=
    .clause package_kind package_name rfl (by simpa [Ident.isBlank] using named) (.semicolon clause_end)
  have parts : TopLevelsReads (w :: x :: y :: (us ++ [z, eof])) _ [eof] :=
    .cons (by rw [kindAt, const_kind]; decide) (.consts const_kind decl) (.ends last)
  exact ⟨u.pos, w.pos, x.pos, e', readFile_ok_iff.mpr ⟨_, _, _, _, _, rfl, clause, parts, rfl⟩, same⟩

end Constant

/-! ## A printed constant -/

/-- A file with a package clause and one constant. -/
def constantText (package : String) (e : Expr) : String :=
  "package " ++ package ++ "\nconst X = " ++ e.text ++ "\n"

theorem Reads.keyword {pending : Bool} {rest : List Char} {ks : List TokenKind} (k : Keyword)
    (more : Reads k.endsStatement (' ' :: rest) ks) :
    Reads pending (k.text.toList ++ ' ' :: rest) (.keyword k :: ks) := by
  have before : (Chunk.keyword k).Before (' ' :: rest) := by
    intro d hd
    cases hd
    decide
  have read : Lexeme.ReadsAs k.text.toList (' ' :: rest) (.keyword k) :=
    Lexeme.readsAs_chunk (c := .keyword k) trivial rfl before
  exact word read more

/-- The line of a package clause. -/
theorem reads_packageLine {package : String} (identifier : IsIdentifier package) {rest : List Char}
    {ks : List TokenKind} (more : Reads false rest ks) :
    Reads false (Keyword.kwPackage.text.toList ++ ' ' :: (package.toList ++ '\n' :: rest))
      (.keyword .kwPackage :: .name package :: .semicolon :: ks) := by
  have before : (Chunk.name package).Before ('\n' :: rest) := Chunk.before_lineEnd (.name package) rest
  have lineEnd : Reads true ('\n' :: rest) (.semicolon :: ks) := Reads.lineFeed more
  exact Reads.keyword .kwPackage (Reads.blank (Reads.name identifier before lineEnd))

/-- The line of a constant. -/
theorem reads_constantLine {e : Expr} (legible : e.Everywhere Expr.IsLegible) (bound : e.WellBound)
    (scanned : ∀ k ∈ e.kinds, k.IsScanned) :
    Reads false (Keyword.kwConst.text.toList ++ ' ' :: ("X".toList ++ ' ' ::
        (Symbol.assign.text.toList ++ ' ' :: (e.text.toList ++ ['\n']))))
      (.keyword .kwConst :: .name "X" :: .symbol .assign :: (e.kinds ++ [.semicolon, .endOfText])) := by
  have lineEnd : Reads true ['\n'] [.semicolon, .endOfText] := Reads.lineFeed Reads.endOfText
  have value := e.reads_text legible bound scanned (e.before_of_endsWord (by decide) []) lineEnd false
  have assign : Reads true (' ' :: (Symbol.assign.text.toList ++ ' ' :: (e.text.toList ++ ['\n'])))
      (.symbol .assign :: (e.kinds ++ [.semicolon, .endOfText])) := by
    refine Reads.blank (Reads.symbol (by decide) (.inr ?_) (Reads.blank value))
    intro d hd
    cases hd
    decide
  refine Reads.keyword .kwConst (Reads.blank (Reads.name (by decide) ?_ assign))
  intro d hd
  cases hd
  decide

theorem constantText_toList (package : String) (e : Expr) :
    (constantText package e).toList = Keyword.kwPackage.text.toList ++ ' ' :: (package.toList ++ '\n' ::
      (Keyword.kwConst.text.toList ++ ' ' :: ("X".toList ++ ' ' :: (Symbol.assign.text.toList ++ ' ' ::
        (e.text.toList ++ ['\n']))))) := by
  simp [constantText, Keyword.text, Symbol.text]

theorem scan_constantText {package : String} {e : Expr} (identifier : IsIdentifier package)
    (legible : e.Everywhere Expr.IsLegible) (bound : e.WellBound)
    (scanned : ∀ k ∈ e.kinds, k.IsScanned) :
    ∃ ts, scan (constantText package e) = .ok ts ∧ ts.map Token.kind =
      .keyword .kwPackage :: .name package :: .semicolon ::
        .keyword .kwConst :: .name "X" :: .symbol .assign :: (e.kinds ++ [.semicolon, .endOfText]) := by
  obtain ⟨ts, tokens, kinds⟩ := reads_packageLine identifier
    (reads_constantLine legible bound scanned) Pos.start
  refine ⟨ts, ?_, kinds⟩
  rw [scan, constantText_toList]
  exact tokens

/-- **A printed constant is read back.**  Where a value of a constant of a file holds no string, no
character and nothing opaque, selects no name from a number, and has no two operators that run
together, the file of a package clause and a constant with the printed value is read, and its value is
the one that was printed, apart from the places of the names. -/
theorem SourceFile.value_reads_back {path source : String} {file : SourceFile}
    (h : SourceFile.ofText path source = .ok file) {decl : ConstDecl} (hdecl : decl ∈ file.consts)
    {spec : ConstSpec} (hspec : spec ∈ decl.specs) {e : Expr} (he : e ∈ spec.values)
    (legible : e.Everywhere Expr.IsLegible) {package : String} (identifier : IsIdentifier package)
    (named : package ≠ blankName) (path' : String) :
    ∃ pos pos' pos'' e', SourceFile.ofText path' (constantText package e)
        = .ok ⟨path', ⟨package, pos⟩, [⟨pos', [⟨[⟨"X", pos''⟩], none, [e'], 0⟩]⟩], []⟩ ∧
      e'.withoutPlaces = e.withoutPlaces := by
  unfold SourceFile.ofText at h
  split at h
  · cases h
  rename_i ts scanned
  obtain ⟨n, vs, inside, line⟩ := readFile_line_written h hdecl hspec
  obtain ⟨us, sub, written, bound⟩ := line.value_written he
  have words := written.kinds_scanned fun t ht => scan_isScanned scanned t (inside (sub ht))
  obtain ⟨ts, tokens, kinds⟩ := scan_constantText identifier legible bound words
  have kept : e.Everywhere Expr.IsKept := legible.imp fun _ h => h.isKept
  obtain ⟨pos, pos', pos'', e', read, same⟩ := readFile_constant path' named kept bound kinds
  refine ⟨pos, pos', pos'', e', ?_, same⟩
  simp only [SourceFile.ofText, tokens, read]

/-- The text of a file with one constant. -/
def maskSource : String := "package ink\nconst Mask = -(a.B+f(1.5,0x1F)) &^ -<-c\n"

/-- The value of the constant. -/
def mask : Expr :=
  .binary .andNot
    (.unary .negate (.paren (.binary .add
      (.selector (.name ⟨"a", ⟨2, 16⟩⟩) ⟨"B", ⟨2, 18⟩⟩)
      (.call (.name ⟨"f", ⟨2, 20⟩⟩) [.float "1.5", .integer "0x1F"]))))
    (.unary .negate (.unary .receive (.name ⟨"c", ⟨2, 39⟩⟩)))

/-- The line of the constant. -/
def maskLine : ConstSpec := ⟨[⟨"Mask", ⟨2, 7⟩⟩], none, [mask], 0⟩

/-- What is read of the file. -/
def maskFile : SourceFile := ⟨"ink.go", ⟨"ink", ⟨1, 9⟩⟩, [⟨⟨2, 1⟩, [maskLine]⟩], []⟩

theorem SourceFile.value_reads_back_mask :
    SourceFile.ofText "ink.go" maskSource = .ok maskFile ∧ mask.Everywhere Expr.IsLegible ∧
      ∃ pos pos' pos'' e', SourceFile.ofText "läden.go" (constantText "läden" mask)
        = .ok ⟨"läden.go", ⟨"läden", pos⟩, [⟨pos', [⟨[⟨"X", pos''⟩], none, [e'], 0⟩]⟩], []⟩ ∧
        e'.withoutPlaces = mask.withoutPlaces := by
  have read : SourceFile.ofText "ink.go" maskSource = .ok maskFile := by with_unfolding_all rfl
  have legible : mask.Everywhere Expr.IsLegible := by
    simp [mask, Expr.Everywhere, Expr.AllEverywhere, Expr.IsLegible, Expr.isNumber, UnaryOp.fuses]
  have identifier : IsIdentifier "läden" := by decide +kernel
  exact ⟨read, legible, SourceFile.value_reads_back read (List.mem_singleton_self _)
    (List.mem_singleton_self maskLine) (List.mem_singleton_self mask) legible identifier (by decide)
    "läden.go"⟩

end EnumCodec
