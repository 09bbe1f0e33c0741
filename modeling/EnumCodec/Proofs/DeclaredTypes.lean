import EnumCodec.Proofs.FileParts

/-!
# The lines of type declarations

Where the types that a file declares stand in its text.  A line has a name, the sign of an alias, and what
the type is declared as; of this nothing at all may be left only before the parenthesis that closes a
group.

* `TypeLine`, `TypeLine.Declares` — a line, and what it declares.
* `readTypeShape_bare` — nothing is read as a type before a closing parenthesis, and only there.
* `TypeSpecReads.exists_line`, `GroupReads.exists_lines`, `DeclarationReads.standsIn` — the lines of a
  declaration.
* `SourceFile.ofText_type_lines` — the lines of a text.
-/

set_option autoImplicit false

namespace EnumCodec

/-- The tokens of a line of a type declaration: the name, the sign of an alias, and what the type is
declared as. -/
structure TypeLine where
  name : Token
  assign : List Token
  type : List Token

namespace TypeLine

/-- The tokens of the line. -/
def tokens (l : TypeLine) : List Token := l.name :: (l.assign ++ l.type)

/-- The line is the one of this type. -/
structure Declares (l : TypeLine) (spec : TypeSpec) : Prop where
  name_kind : l.name.kind = .name spec.name.name
  name_pos : l.name.pos = spec.name.pos
  assign_kinds : l.assign.map Token.kind = if spec.isAlias then [.symbol .assign] else []
  type_written : spec.shape.Written l.type

/-- The line declares a type as something, or comes before a closing parenthesis. -/
structure EndsBefore (l : TypeLine) (after : List Token) : Prop where
  ended : endsTypeSpec (kindAt after) = true
  bare : l.type = [] → kindAt after = .symbol .rightParen

end TypeLine

/-! ## One line -/

section Line

variable {ts rest : List Token} {l : TypeLine} {spec : TypeSpec}

theorem TypeShape.eq_of_written_nil {shape : TypeShape} (h : shape.Written []) :
    shape = .composite Symbol.rightParen.text := by
  generalize none : [] = us at h
  cases h with
  | named tokens => cases tokens <;> cases none
  | composite first enclosed other => cases none
  | missing => rfl

/-- The tokens of a type declaration are those of a line. -/
theorem TypeSpec.Written.exists_line (h : spec.Written ts) :
    ∃ l : TypeLine, ts = l.tokens ∧ l.Declares spec := by
  cases h with
  | @declared name shape us ts name_tokens no_assign tokens =>
    obtain ⟨t, rfl, kind, pos⟩ := name_tokens
    exact ⟨⟨t, [], ts⟩, rfl, kind, pos, rfl, tokens⟩
  | @aliased name shape us ts assign name_tokens assign_kind tokens =>
    obtain ⟨t, rfl, kind, pos⟩ := name_tokens
    exact ⟨⟨t, [assign], ts⟩, rfl, kind, pos, by simp [assign_kind], tokens⟩

theorem TypeLine.Declares.isEnclosed (h : l.Declares spec) : IsEnclosed l.tokens := by
  have assign : IsEnclosed l.assign := by
    have kinds := h.assign_kinds
    split at kinds
    · obtain ⟨t, more, eq, kind, none⟩ := List.map_eq_cons_iff.mp kinds
      rw [eq, List.map_eq_nil_iff.mp none]
      exact .plain (by rw [kind]; rfl)
    · rw [List.map_eq_nil_iff.mp kinds]
      exact .nil
  exact .cons (by rw [h.name_kind]; rfl) (assign.append h.type_written.isEnclosed)

theorem TypeNameReads.ends {type : TypeName} (h : TypeNameReads ts type rest)
    (lone : atLoneTypeName ts = true) : endsTypeSpec (kindAt rest) = true := by
  cases h with
  | own name other =>
    obtain ⟨kind⟩ := name
    have no_dot : atSymbol .dot rest = false := by simpa [atSymbol] using other
    simpa [atLoneTypeName, kindAt_cons, kind, no_dot] using lone
  | foreign name dot second =>
    generalize eq : _ :: _ = middle at name
    obtain ⟨kind⟩ := name
    obtain ⟨kind'⟩ := second
    rw [← eq] at lone
    simpa [atLoneTypeName, kindAt_cons, kind, dot, kind', endsTypeSpec, atSymbol] using lone

/-- What a type is declared as goes up to what ends its declaration. -/
theorem TypeShapeReads.ends {shape : TypeShape} (h : TypeShapeReads ts shape rest) :
    endsTypeSpec (kindAt rest) = true := by
  cases h with
  | named lone name => exact name.ends lone
  | composite _ _ skipped => exact (skipType_depth skipped).2

/-- Where a declaration ends nothing is passed over. -/
theorem skipType_here (ended : endsTypeSpec (kindAt ts) = true) : skipType 0 ts = .ok ts := by
  cases ts with
  | nil => rfl
  | cons t rest => rw [skipType, if_pos ⟨rfl, ended⟩]

/-- **Nothing at all** is read as a type before a closing parenthesis, and only there. -/
theorem readTypeShape_bare (ended : endsTypeSpec (kindAt ts) = true) :
    (∃ p, readTypeShape ts = .ok p) ↔ kindAt ts = .symbol .rightParen := by
  obtain kind | kind | kind := endsTypeSpec_iff.mp ended
  · simp [readTypeShape, atLoneTypeName, kind, leadText?]
  · simp [readTypeShape, atLoneTypeName, kind, leadText?]
  · refine ⟨fun _ => kind, fun _ => ?_⟩
    have no_name : ¬ atLoneTypeName ts = true := by simp [atLoneTypeName, kind]
    have lead : leadText? (kindAt ts) = some Symbol.rightParen.text := by rw [kind]; rfl
    obtain ⟨p, read, -⟩ := readTypeShape_gives_iff.mpr (.composite no_name lead (skipType_here ended))
    exact ⟨p, read⟩

/-- After its name and the sign of an alias a line is read if the rest is read as a type. -/
theorem readTypeSpec_ok_iff {name : Token} {s : String} (kind : name.kind = .name s) :
    (∃ p, readTypeSpec (name :: ts) = .ok p) ↔ ∃ q, readTypeShape (skipSymbol .assign ts) = .ok q := by
  constructor
  · rintro ⟨p, h⟩
    obtain ⟨spec, rest, reads⟩ : ∃ spec rest, TypeSpecReads (name :: ts) spec rest :=
      ⟨_, _, readTypeSpec_gives_iff.mp ⟨p, h, rfl, rfl⟩⟩
    obtain ⟨named, type⟩ := reads
    cases named
    obtain ⟨q, shape, -⟩ := readTypeShape_gives_iff.mpr type
    exact ⟨q, shape⟩
  · rintro ⟨q, shape⟩
    have type := readTypeShape_gives_iff.mp ⟨q, shape, rfl, rfl⟩
    obtain ⟨p, h, -⟩ := readTypeSpec_gives_iff.mpr (.line (.name kind) type)
    exact ⟨p, h⟩

/-- **A line with no type** is read before a closing parenthesis, and only there. -/
theorem readTypeSpec_bare {name : Token} {s : String} {assign : List Token}
    (name_kind : name.kind = .name s)
    (assign_kinds : assign.map Token.kind = [] ∨ assign.map Token.kind = [.symbol .assign])
    (ended : endsTypeSpec (kindAt rest) = true) :
    (∃ p, readTypeSpec (name :: (assign ++ rest)) = .ok p) ↔ kindAt rest = .symbol .rightParen := by
  have skipped : skipSymbol .assign (assign ++ rest) = rest := by
    obtain none | some := assign_kinds
    · rw [List.map_eq_nil_iff.mp none, List.nil_append]
      cases rest with
      | nil => rfl
      | cons t rest =>
        rw [skipSymbol, if_neg]
        intro assign
        rw [kindAt_cons, assign] at ended
        cases ended
    · obtain ⟨t, more, eq, kind, none⟩ := List.map_eq_cons_iff.mp some
      rw [eq, List.map_eq_nil_iff.mp none, List.singleton_append, skipSymbol, if_pos kind]
  rw [readTypeSpec_ok_iff name_kind, skipped]
  exact readTypeShape_bare ended

/-- A line of a type declaration that is read. -/
theorem TypeSpecReads.exists_line (h : TypeSpecReads ts spec rest) :
    ∃ l : TypeLine, ts = l.tokens ++ rest ∧ l.Declares spec ∧ l.EndsBefore rest := by
  obtain ⟨taken, eq, written⟩ := h.tokens
  obtain ⟨l, rfl, declares⟩ := written.exists_line
  have ended : endsTypeSpec (kindAt rest) = true := by
    obtain ⟨-, type⟩ := h
    exact type.ends
  have assign_kinds : l.assign.map Token.kind = [] ∨ l.assign.map Token.kind = [.symbol .assign] := by
    rw [declares.assign_kinds]
    split
    · exact .inr rfl
    · exact .inl rfl
  refine ⟨l, eq, declares, ended, fun bare => ?_⟩
  have eq : ts = l.name :: (l.assign ++ rest) := eq.trans (by simp [TypeLine.tokens, bare])
  rw [eq] at h
  obtain ⟨p, read, -⟩ := readTypeSpec_gives_iff.mpr h
  exact (readTypeSpec_bare declares.name_kind assign_kinds ended).mp ⟨p, read⟩

end Line

/-! ## Declarations -/

section Declarations

variable {ts : List Token}

/-- The lines of a group, each after earlier ones. -/
theorem GroupReads.exists_lines {n : Nat} {specs : List TypeSpec} {rest : List Token}
    (h : GroupReads (fun _ => TypeSpecReads) n ts specs rest) :
    ∀ spec ∈ specs, ∃ (lines : List Token) (l : TypeLine) (after : List Token),
      ts = lines ++ (l.tokens ++ after) ∧ depthAfter? 1 lines = some 1 ∧
        l.Declares spec ∧ l.EndsBefore after := by
  induction h with
  | close _ => exact List.forall_mem_nil _
  | blank semicolon _ ih =>
    intro spec mem
    obtain ⟨lines, l, after, rfl, inside, line⟩ := ih spec mem
    refine ⟨_ :: lines, l, after, rfl, ?_, line⟩
    rw [depthAfter?_cons (depthAfterOne?_semicolon semicolon)]
    exact inside
  | line _ _ one ended more ih =>
    obtain ⟨first, rfl, declares, ends⟩ := one.exists_line
    refine List.forall_mem_cons.mpr ⟨⟨[], first, _, rfl, rfl, declares, ends⟩, ?_⟩
    intro other mem
    cases ended with
    | @semicolon u _ semicolon =>
      obtain ⟨lines, l, after, rfl, inside, line⟩ := ih other mem
      refine ⟨first.tokens ++ u :: lines, l, after, ?_, ?_, line⟩
      · rw [List.append_assoc, List.cons_append]
      · rw [depthAfter?_append (declares.isEnclosed.inside 1),
          depthAfter?_cons (depthAfterOne?_semicolon semicolon)]
        exact inside
    | right right =>
      -- no line comes after a closing parenthesis
      rw [(more.closes right).1] at mem
      cases mem

/-- The parenthesis of a group of types is open after these tokens, and no other one since. -/
def InGroup (before : List Token) : Prop :=
  ∃ front word left lines, before = front ++ word :: left :: lines ∧ word.kind = .keyword .kwType ∧
    left.kind = .symbol .leftParen ∧ depthAfter? 1 lines = some 1

/-- Where a type is declared among the tokens: on a line that says as what, or that is the last one of a
group. -/
def TypeSpec.StandsIn (spec : TypeSpec) (ts : List Token) : Prop :=
  ∃ (before : List Token) (l : TypeLine) (after : List Token), ts = before ++ (l.tokens ++ after) ∧
    l.Declares spec ∧ l.EndsBefore after ∧ (l.type = [] → InGroup before)

theorem TypeSpec.StandsIn.append {spec : TypeSpec} (h : spec.StandsIn ts) (front : List Token) :
    spec.StandsIn (front ++ ts) := by
  obtain ⟨before, l, after, rfl, declares, ends, group⟩ := h
  refine ⟨front ++ before, l, after, by rw [List.append_assoc], declares, ends, fun bare => ?_⟩
  obtain ⟨front', word, left, lines, rfl, word_kind, left_kind, inside⟩ := group bare
  exact ⟨front ++ front', word, left, lines, by rw [List.append_assoc], word_kind, left_kind, inside⟩

theorem DeclarationEnd.kindAt_ne {stop rest : List Token} (h : DeclarationEnd stop rest) :
    kindAt (stop ++ rest) ≠ .symbol .rightParen := by
  cases h with
  | semicolon semicolon =>
    rw [List.singleton_append, kindAt_cons, semicolon]
    decide
  | endOfText last =>
    rw [List.nil_append, last]
    decide

/-- The lines of a declaration, with its first word. -/
theorem DeclarationReads.standsIn {t : Token} {specs : List TypeSpec} {rest : List Token}
    (word : t.kind = .keyword .kwType)
    (h : DeclarationReads (fun _ => TypeSpecReads) ts specs rest) :
    ∀ spec ∈ specs, spec.StandsIn (t :: ts) := by
  cases h with
  | one _ line ended =>
    obtain ⟨l, rfl, declares, ends⟩ := line.exists_line
    refine List.forall_mem_singleton.mpr ⟨[t], l, _, rfl, declares, ends, ?_⟩
    -- a declaration of one line does not end before a parenthesis
    exact fun bare => absurd (ends.bare bare) ended.kindAt_ne
  | group left lines _ =>
    intro spec mem
    obtain ⟨before, l, after, rfl, inside, declares, ends⟩ := lines.exists_lines spec mem
    refine ⟨t :: _ :: before, l, after, rfl, declares, ends, ?_⟩
    exact fun _ => ⟨[], t, _, before, rfl, word, left, inside⟩

end Declarations

/-! ## Files -/

section Files

variable {ts rest : List Token}

theorem TopLevelReads.standsIn {part : TopLevel} (h : TopLevelReads ts part rest) :
    ∀ spec ∈ part.typeSpecs, spec.StandsIn ts := by
  cases h with
  | types word decl => exact decl.standsIn word
  | nothing _ | consts _ _ | skipped _ _ _ => exact List.forall_mem_nil _

theorem TopLevelsReads.standsIn {parts : List TopLevel} (h : TopLevelsReads ts parts rest) :
    ∀ part ∈ parts, ∀ spec ∈ part.typeSpecs, spec.StandsIn ts := by
  induction h with
  | ends _ => exact List.forall_mem_nil _
  | cons _ first _ ih =>
    refine List.forall_mem_cons.mpr ⟨first.standsIn, ?_⟩
    intro part of_file spec mem
    obtain ⟨t, taken, rfl, -⟩ := first.tokens
    exact (ih part of_file spec mem).append (t :: taken)

theorem readFile_types {path : String} {file : SourceFile} (h : readFile path ts = .ok file) :
    ∀ spec ∈ file.types, spec.StandsIn ts := by
  obtain ⟨package, clause, middle, parts, rest, rfl, -, reads, rfl⟩ := readFile_ok_iff.mp h
  intro spec mem
  obtain ⟨part, of_file, mem⟩ := List.mem_flatMap.mp mem
  exact (reads.standsIn part of_file spec mem).append clause

/-- **Where the types of a text are declared.**  Each stands on a line of its own, and a line says what its
type is declared as unless it is the last one of a group, with the closing parenthesis right after it.  A
line that leaves this out is read before a closing parenthesis, and is an error elsewhere. -/
theorem SourceFile.ofText_type_lines (path source : String) :
    (∀ file, SourceFile.ofText path source = .ok file → ∃ ts, scan source = .ok ts ∧
      ∀ spec ∈ file.types, ∃ (before : List Token) (l : TypeLine) (after : List Token),
        ts = before ++ (l.tokens ++ after) ∧ l.Declares spec ∧ endsTypeSpec (kindAt after) = true ∧
        (l.type = [] → spec.shape = .composite Symbol.rightParen.text ∧ InGroup before ∧
          kindAt after = .symbol .rightParen)) ∧
    ∀ (name : Token) (s : String) (assign rest : List Token), name.kind = .name s →
      (assign.map Token.kind = [] ∨ assign.map Token.kind = [.symbol .assign]) →
      endsTypeSpec (kindAt rest) = true →
      ((∃ p, readTypeSpec (name :: (assign ++ rest)) = .ok p) ↔ kindAt rest = .symbol .rightParen) := by
  refine ⟨fun file h => ?_, fun name s assign rest name_kind assign_kinds ended =>
    readTypeSpec_bare name_kind assign_kinds ended⟩
  unfold SourceFile.ofText at h
  split at h
  · cases h
  rename_i ts scanned
  refine ⟨ts, scanned, fun spec mem => ?_⟩
  obtain ⟨before, l, after, eq, declares, ends, group⟩ := readFile_types h spec mem
  refine ⟨before, l, after, eq, declares, ends.ended, fun bare => ⟨?_, group bare, ends.bare bare⟩⟩
  have written := declares.type_written
  rw [bare] at written
  exact TypeShape.eq_of_written_nil written

/-- A text with a group of types, the last one of which is declared as nothing. -/
def bareText : String := "package ink\ntype (\n\tHue = int\n\tTone )\n"

/-- What this text is read as. -/
def bareFile : SourceFile :=
  ⟨"ink.go", ⟨"ink", ⟨1, 9⟩⟩, [], [⟨⟨"Hue", ⟨3, 2⟩⟩, true, .named (.own "int")⟩,
    ⟨⟨"Tone", ⟨4, 2⟩⟩, false, .composite ")"⟩]⟩

theorem ofText_bareText : SourceFile.ofText "ink.go" bareText = .ok bareFile := by
  with_unfolding_all rfl

/-- In this text both types stand on lines; before a semicolon the second line would be an error. -/
theorem SourceFile.ofText_type_lines_bare :
    SourceFile.ofText "ink.go" bareText = .ok bareFile ∧
    (∃ ts, scan bareText = .ok ts ∧ ∀ spec ∈ bareFile.types, spec.StandsIn ts) ∧
    ¬ ∃ p, readTypeSpec [tokenAt 1 (.name "Tone"), tokenAt 2 .semicolon] = .ok p := by
  obtain ⟨lines, bare⟩ := SourceFile.ofText_type_lines "ink.go" bareText
  refine ⟨ofText_bareText, ?_, ?_⟩
  · obtain ⟨ts, scanned, stands⟩ := lines bareFile ofText_bareText
    refine ⟨ts, scanned, fun spec mem => ?_⟩
    obtain ⟨before, l, after, eq, declares, ended, group⟩ := stands spec mem
    exact ⟨before, l, after, eq, declares, ⟨ended, fun none => (group none).2.2⟩,
      fun none => (group none).2.1⟩
  · intro read
    have right := (bare (tokenAt 1 (.name "Tone")) "Tone" [] [tokenAt 2 .semicolon] rfl (.inl rfl) rfl).mp
      read
    cases right

/-- The words of this text. -/
def bareWords : List Token :=
  [⟨.keyword .kwPackage, ⟨1, 1⟩, "package".toList⟩, ⟨.name "ink", ⟨1, 9⟩, "ink".toList⟩,
    ⟨.semicolon, ⟨1, 12⟩, []⟩, ⟨.keyword .kwType, ⟨2, 1⟩, "type".toList⟩,
    ⟨.symbol .leftParen, ⟨2, 6⟩, ['(']⟩, ⟨.name "Hue", ⟨3, 2⟩, "Hue".toList⟩,
    ⟨.symbol .assign, ⟨3, 6⟩, ['=']⟩, ⟨.name "int", ⟨3, 8⟩, "int".toList⟩, ⟨.semicolon, ⟨3, 11⟩, []⟩,
    ⟨.name "Tone", ⟨4, 2⟩, "Tone".toList⟩, ⟨.symbol .rightParen, ⟨4, 7⟩, [')']⟩,
    ⟨.semicolon, ⟨4, 8⟩, []⟩, ⟨.endOfText, ⟨5, 1⟩, []⟩]

theorem scan_bareText : scan bareText = .ok bareWords := by
  with_unfolding_all rfl

/-- So not every type of a text is declared as something. -/
theorem not_forall_type_ne_nil : ¬ ∀ path source file, SourceFile.ofText path source = .ok file →
    ∃ ts, scan source = .ok ts ∧ ∀ spec ∈ file.types, ∃ (before : List Token) (l : TypeLine)
      (after : List Token), ts = before ++ (l.tokens ++ after) ∧ l.Declares spec ∧ l.type ≠ [] := by
  intro typed
  obtain ⟨ts, scanned, stands⟩ := typed _ _ _ ofText_bareText
  rw [scan_bareText] at scanned
  cases scanned
  obtain ⟨before, l, after, eq, declares, some⟩ := stands ⟨⟨"Tone", ⟨4, 2⟩⟩, false, .composite ")"⟩
    (by decide)
  -- no word of the text can start a type with this description
  have none : ∀ t ∈ bareWords, leadText? t.kind = Option.some ")" → depthAfterOne? 0 t = Option.none := by
    decide
  have written : (TypeShape.composite ")").Written l.type := declares.type_written
  generalize type : l.type = us at written some
  cases written with
  | @composite t us lead first enclosed other =>
    have mem : t ∈ bareWords := by
      rw [eq]
      simp [TypeLine.tokens, type]
    have closed := none t mem first
    have enclosed : depthAfter? 0 (t :: us) = Option.some 0 := enclosed
    unfold depthAfter? at enclosed
    rw [List.foldlM_cons, closed] at enclosed
    cases enclosed
  | missing => exact some rfl

end Files

end EnumCodec
