import EnumCodec.Proofs.BracketDepth
import EnumCodec.Proofs.ExpressionGrammar
import EnumCodec.Syntax.Declaration

/-!
# The grammar of declarations

The rules of the readers of declarations, as relations between the tokens, the tree that is read from
them and the tokens that are left.

* `ConstSpecReads`, `TypeSpecReads` — one line.
* `GroupReads`, `DeclarationReads` — the lines of a group, and a declaration in both of its forms, for
  any lines.
* `readConstDecl_gives_iff`, `readTypeDecl_gives_iff` — a declaration is read exactly by the rules.
-/

set_option autoImplicit false

namespace EnumCodec

/-! ## The rules -/

/-- A name. -/
inductive NameReads : List Token → Ident → List Token → Prop
  | name {s : String} {t : Token} {ts : List Token} (kind : t.kind = .name s) :
      NameReads (t :: ts) ⟨s, t.pos⟩ ts

/-- The name of a type. -/
inductive TypeNameReads : List Token → TypeName → List Token → Prop
  | own {ident : Ident} {ts rest : List Token} (name : NameReads ts ident rest)
      (other : kindAt rest ≠ .symbol .dot) : TypeNameReads ts (.own ident.name) rest
  | foreign {first second : Ident} {dot : Token} {ts middle rest : List Token}
      (first_name : NameReads ts first (dot :: middle)) (dot_kind : dot.kind = .symbol .dot)
      (second_name : NameReads middle second rest) :
      TypeNameReads ts (.foreign first.name second.name) rest

/-- More names, each after a comma. -/
inductive MoreNamesReads : List Token → List Ident → List Token → Prop
  | stops {ts : List Token} (other : kindAt ts ≠ .symbol .comma) : MoreNamesReads ts [] ts
  | cons {ident : Ident} {names : List Ident} {t : Token} {ts middle rest : List Token}
      (comma : t.kind = .symbol .comma) (name : NameReads ts ident middle)
      (more : MoreNamesReads middle names rest) : MoreNamesReads (t :: ts) (ident :: names) rest

/-- The type of a line of constants, if there is one. -/
inductive ConstTypeReads : List Token → Option TypeName → List Token → Prop
  | absent {ts : List Token} (ends : kindAt ts = .symbol .assign ∨ endsTypeSpec (kindAt ts) = true) :
      ConstTypeReads ts none ts
  | present {type : TypeName} {ts rest : List Token} (name : TypeNameReads ts type rest) :
      ConstTypeReads ts (some type) rest

/-- The values of a line of constants, if there are any. -/
inductive ConstValuesReads : List Token → List Expr → List Token → Prop
  | absent {ts : List Token} (other : kindAt ts ≠ .symbol .assign) : ConstValuesReads ts [] ts
  | present {es : List Expr} {t : Token} {ts rest : List Token} (assign : t.kind = .symbol .assign)
      (values : ExprsReads ts es rest) : ConstValuesReads (t :: ts) es rest

/-- A line of constants, the one with some number in its group. -/
inductive ConstSpecReads (n : Nat) : List Token → ConstSpec → List Token → Prop
  | line {first : Ident} {names : List Ident} {type : Option TypeName} {values : List Expr}
      {ts us vs ws rest : List Token} (first_name : NameReads ts first us)
      (more_names : MoreNamesReads us names vs) (type_name : ConstTypeReads vs type ws)
      (expressions : ConstValuesReads ws values rest)
      (count : valueCountProblem? ⟨first :: names, type, values, n⟩ = none) :
      ConstSpecReads n ts ⟨first :: names, type, values, n⟩ rest

/-- What a type is declared as. -/
inductive TypeShapeReads : List Token → TypeShape → List Token → Prop
  | named {type : TypeName} {ts rest : List Token} (lone : atLoneTypeName ts = true)
      (name : TypeNameReads ts type rest) : TypeShapeReads ts (.named type) rest
  | composite {lead : String} {ts rest : List Token} (other : ¬ atLoneTypeName ts = true)
      (first : leadText? (kindAt ts) = some lead) (skipped : skipType 0 ts = .ok rest) :
      TypeShapeReads ts (.composite lead) rest

/-- The declaration of one type. -/
inductive TypeSpecReads : List Token → TypeSpec → List Token → Prop
  | line {ident : Ident} {shape : TypeShape} {ts middle rest : List Token}
      (name : NameReads ts ident middle)
      (type : TypeShapeReads (skipSymbol .assign middle) shape rest) :
      TypeSpecReads ts ⟨ident, atSymbol .assign middle, shape⟩ rest

/-- The end of a line in a group: a semicolon, which is taken, or the closing parenthesis, which
stays. -/
inductive LineEnds : List Token → List Token → Prop
  | semicolon {t : Token} {ts : List Token} (kind : t.kind = .semicolon) : LineEnds (t :: ts) ts
  | right {ts : List Token} (kind : kindAt ts = .symbol .rightParen) : LineEnds ts ts

section Lines

variable {α : Type}

/-- The lines of a group, from the line with some number on, and the closing parenthesis. -/
inductive GroupReads (Line : Nat → List Token → α → List Token → Prop) :
    Nat → List Token → List α → List Token → Prop
  | close {n : Nat} {t : Token} {ts : List Token} (right : t.kind = .symbol .rightParen) :
      GroupReads Line n (t :: ts) [] ts
  | blank {n : Nat} {as : List α} {t : Token} {ts rest : List Token} (semicolon : t.kind = .semicolon)
      (lines : GroupReads Line n ts as rest) : GroupReads Line n (t :: ts) as rest
  | line {n : Nat} {a : α} {as : List α} {ts middle after rest : List Token}
      (inner : kindAt ts ≠ .symbol .rightParen) (starts : kindAt ts ≠ .semicolon)
      (one : Line n ts a middle) (ended : LineEnds middle after)
      (lines : GroupReads Line (n + 1) after as rest) : GroupReads Line n ts (a :: as) rest

/-- A declaration after its first word, up to its end: one line, or a group of lines in parentheses. -/
inductive DeclarationReads (Line : Nat → List Token → α → List Token → Prop) :
    List Token → List α → List Token → Prop
  | one {a : α} {ts stop rest : List Token} (starts : kindAt ts ≠ .symbol .leftParen)
      (line : Line 0 ts a (stop ++ rest)) (ended : DeclarationEnd stop rest) :
      DeclarationReads Line ts [a] rest
  | group {as : List α} {t : Token} {ts stop rest : List Token} (left : t.kind = .symbol .leftParen)
      (lines : GroupReads Line 0 ts as (stop ++ rest)) (ended : DeclarationEnd stop rest) :
      DeclarationReads Line (t :: ts) as rest

end Lines

/-! ## Names and types -/

theorem exists_ok_of_map {α β : Type} {x : Except SyntaxError α} {f : α → β} {b : β}
    (h : x.map f = .ok b) : ∃ a, x = .ok a ∧ f a = b := by
  cases x with
  | error e => cases h
  | ok a => exact ⟨a, rfl, Except.ok.inj h⟩

section Names

variable {ts rest : List Token}

theorem readName_gives_iff (place : Place) {ident : Ident} :
    Gives (readName place ts) ident rest ↔ NameReads ts ident rest := by
  constructor
  · rintro ⟨p, h, rfl, rfl⟩
    unfold readName at h
    split at h
    · cases h
    split at h <;> cases h
    exact .name ‹_›
  · rintro ⟨kind⟩
    exact ⟨_, readName_gives kind, rfl, rfl⟩

theorem reads_of_readName {place : Place} {p : Parsed ts.length Ident}
    (h : readName place ts = .ok p) : NameReads ts p.value p.rest :=
  (readName_gives_iff place).mp ⟨p, h, rfl, rfl⟩

theorem NameReads.exists_kindAt {ident : Ident} (h : NameReads ts ident rest) :
    ∃ s, kindAt ts = .name s := by
  cases h with
  | name kind => exact ⟨_, kind⟩

theorem reads_of_readTypeNameEnd {ident : Ident} {middle : List Token}
    (name : NameReads ts ident middle) {p : Parsed (middle.length + 1) TypeName}
    (h : readTypeNameEnd ident.name middle = .ok p) : TypeNameReads ts p.value p.rest := by
  unfold readTypeNameEnd at h
  split at h
  · cases h
    exact .own name fun dot => by cases dot
  split at h
  · rename_i dot
    obtain ⟨second, read, rfl⟩ := exists_ok_of_map h
    exact .foreign name dot (reads_of_readName read)
  · rename_i other
    cases h
    exact .own name other

theorem readTypeName_gives_iff {type : TypeName} :
    Gives (readTypeName ts) type rest ↔ TypeNameReads ts type rest := by
  constructor
  · rintro ⟨p, h, rfl, rfl⟩
    unfold readTypeName at h
    split at h
    · cases h
    rename_i first read
    obtain ⟨whole, read', rfl⟩ := exists_ok_of_map h
    exact reads_of_readTypeNameEnd (reads_of_readName read) read'
  · intro h
    cases h with
    | own name other =>
      obtain ⟨p, eq, rfl, rfl⟩ := (readName_gives_iff .typeName).mpr name
      have ends : Gives (readTypeNameEnd p.value.name p.rest) (.own p.value.name) p.rest := by
        cases after : p.rest with
        | nil => exact ⟨_, rfl, rfl, rfl⟩
        | cons u rest =>
          rw [after] at other
          exact ⟨_, if_neg other, rfl, rfl⟩
      obtain ⟨q, eq', value, after⟩ := ends
      simp only [readTypeName, eq, eq']
      exact ⟨_, rfl, value, after⟩
    | foreign first_name dot second_name =>
      obtain ⟨p, eq, rfl, after⟩ := (readName_gives_iff .typeName).mpr first_name
      obtain ⟨q, eq', rfl, rfl⟩ := (readName_gives_iff .foreignTypeName).mpr second_name
      have ends : Gives (readTypeNameEnd p.value.name p.rest)
          (.foreign p.value.name q.value.name) q.rest := by
        rw [after, readTypeNameEnd, if_pos dot]
        simp only [eq']
        exact ⟨_, rfl, rfl, rfl⟩
      obtain ⟨r, eq'', value, after⟩ := ends
      simp only [readTypeName, eq, eq'']
      exact ⟨_, rfl, value, after⟩

theorem reads_of_readTypeName {p : Parsed ts.length TypeName} (h : readTypeName ts = .ok p) :
    TypeNameReads ts p.value p.rest :=
  readTypeName_gives_iff.mp ⟨p, h, rfl, rfl⟩

theorem TypeNameReads.exists_kindAt {type : TypeName} (h : TypeNameReads ts type rest) :
    ∃ s, kindAt ts = .name s := by
  cases h with
  | own name _ => exact name.exists_kindAt
  | foreign name _ _ => exact name.exists_kindAt

theorem reads_of_readMoreNames {ts : List Token} {p : Parsed (ts.length + 1) (List Ident)}
    (h : readMoreNames ts = .ok p) : MoreNamesReads ts p.value p.rest := by
  match ts, p, h with
  | [], p, h =>
    rw [readMoreNames] at h
    cases h
    exact .stops (by decide)
  | t :: rest, p, h =>
    rw [readMoreNames] at h
    split at h
    · rename_i comma
      split at h
      · cases h
      rename_i name read
      split at h <;> cases h
      rename_i more readMore
      have shorter := name.shorter
      exact .cons comma (reads_of_readName read) (reads_of_readMoreNames readMore)
    · rename_i other
      cases h
      exact .stops other
termination_by ts.length
decreasing_by simp only [List.length_cons]; omega

theorem MoreNamesReads.gives {names : List Ident} (h : MoreNamesReads ts names rest) :
    Gives (readMoreNames ts) names rest := by
  induction h with
  | @stops ts other =>
    cases ts with
    | nil => exact ⟨.here [] [], by rw [readMoreNames], rfl, rfl⟩
    | cons t ts =>
      have other : t.kind ≠ .symbol .comma := other
      exact ⟨.here [] (t :: ts), by rw [readMoreNames, if_neg other], rfl, rfl⟩
  | cons comma name _ ih =>
    obtain ⟨p, eq, rfl, rfl⟩ := (readName_gives_iff .constName).mpr name
    obtain ⟨q, eq', rfl, rfl⟩ := ih
    rw [readMoreNames, if_pos comma]
    simp only [eq, eq']
    exact ⟨_, rfl, rfl, rfl⟩

end Names

/-! ## Constants -/

section Constants

variable {ts rest : List Token}

theorem endsTypeSpec_iff {k : TokenKind} : endsTypeSpec k = true ↔
    k = .semicolon ∨ k = .endOfText ∨ k = .symbol .rightParen := by
  constructor
  · intro h
    unfold endsTypeSpec at h
    split at h <;> simp_all
  · rintro (rfl | rfl | rfl) <;> rfl

theorem readConstType_gives_iff {type : Option TypeName} :
    Gives (readConstType ts) type rest ↔ ConstTypeReads ts type rest := by
  constructor
  · rintro ⟨p, h, rfl, rfl⟩
    unfold readConstType at h
    split at h
    · obtain ⟨name, read, rfl⟩ := exists_ok_of_map h
      exact .present (reads_of_readTypeName read)
    · rename_i kind
      cases h
      exact .absent (.inl kind)
    iterate 3
      · rename_i kind
        cases h
        exact .absent (.inr (by rw [kind]; rfl))
    · cases h
  · intro h
    cases h with
    | absent ends =>
      obtain kind | kind | kind | kind : _ ∨ _ := ends.imp_right endsTypeSpec_iff.mp
      all_goals
        simp only [readConstType, kind]
        exact ⟨_, rfl, rfl, rfl⟩
    | present name =>
      obtain ⟨s, kind⟩ := name.exists_kindAt
      obtain ⟨p, eq, rfl, rfl⟩ := readTypeName_gives_iff.mpr name
      simp only [readConstType, kind, eq]
      exact ⟨_, rfl, rfl, rfl⟩

theorem readConstValues_gives_iff {values : List Expr} :
    Gives (readConstValues ts) values rest ↔ ConstValuesReads ts values rest := by
  constructor
  · rintro ⟨p, h, rfl, rfl⟩
    unfold readConstValues at h
    split at h
    · cases h
      exact .absent (by decide)
    split at h
    · rename_i assign
      obtain ⟨values, read, rfl⟩ := exists_ok_of_map h
      exact .present assign (reads_of_readExprs read)
    · rename_i other
      cases h
      exact .absent other
  · intro h
    cases h with
    | absent other =>
      cases ts with
      | nil => exact ⟨_, rfl, rfl, rfl⟩
      | cons t ts => exact ⟨_, if_neg other, rfl, rfl⟩
    | present assign values =>
      obtain ⟨p, eq, rfl, rfl⟩ := values.gives
      simp only [readConstValues, if_pos assign, eq]
      exact ⟨_, rfl, rfl, rfl⟩

theorem readConstSpec_gives_iff {n : Nat} {spec : ConstSpec} :
    Gives (readConstSpec n ts) spec rest ↔ ConstSpecReads n ts spec rest := by
  constructor
  · rintro ⟨p, h, rfl, rfl⟩
    unfold readConstSpec at h
    split at h
    · cases h
    rename_i first readFirst
    split at h
    · cases h
    rename_i more readMore
    split at h
    · cases h
    rename_i type readType
    split at h
    · cases h
    rename_i values readValues
    dsimp only at h
    split at h <;> cases h
    rename_i count
    exact .line (reads_of_readName readFirst) (reads_of_readMoreNames readMore)
      (readConstType_gives_iff.mp ⟨type, readType, rfl, rfl⟩)
      (readConstValues_gives_iff.mp ⟨values, readValues, rfl, rfl⟩) count
  · rintro ⟨first, names, type, values, count⟩
    obtain ⟨p, eq, rfl, rfl⟩ := (readName_gives_iff .constName).mpr first
    obtain ⟨q, eq', rfl, rfl⟩ := names.gives
    obtain ⟨r, eq'', rfl, rfl⟩ := readConstType_gives_iff.mpr type
    obtain ⟨s, eq₃, rfl, rfl⟩ := readConstValues_gives_iff.mpr values
    simp only [readConstSpec, eq, eq', eq'', eq₃, count]
    exact ⟨_, rfl, rfl, rfl⟩

end Constants

/-! ## Types -/

section Types

variable {ts rest : List Token}

theorem readTypeShape_gives_iff {shape : TypeShape} :
    Gives (readTypeShape ts) shape rest ↔ TypeShapeReads ts shape rest := by
  constructor
  · rintro ⟨p, h, rfl, rfl⟩
    unfold readTypeShape at h
    split at h
    · rename_i lone
      obtain ⟨name, read, rfl⟩ := exists_ok_of_map h
      exact .named lone (reads_of_readTypeName read)
    rename_i other
    split at h
    · cases h
    rename_i lead first
    split at h <;> cases h
    rename_i rest skipped
    exact .composite other first skipped
  · intro h
    unfold readTypeShape
    cases h with
    | named lone name =>
      obtain ⟨p, eq, rfl, rfl⟩ := readTypeName_gives_iff.mpr name
      rw [if_pos lone, eq]
      exact ⟨_, rfl, rfl, rfl⟩
    | composite other first skipped =>
      rw [if_neg other]
      simp only [first]
      split <;> rename_i again <;> cases again.symm.trans skipped
      exact ⟨_, rfl, rfl, rfl⟩

theorem readTypeSpec_gives_iff {spec : TypeSpec} :
    Gives (readTypeSpec ts) spec rest ↔ TypeSpecReads ts spec rest := by
  constructor
  · rintro ⟨p, h, rfl, rfl⟩
    unfold readTypeSpec at h
    split at h
    · cases h
    rename_i name readName
    dsimp only at h
    split at h <;> cases h
    rename_i shape readShape
    exact .line (reads_of_readName readName) (readTypeShape_gives_iff.mp ⟨shape, readShape, rfl, rfl⟩)
  · rintro ⟨name, type⟩
    obtain ⟨p, eq, rfl, rfl⟩ := (readName_gives_iff .typeSpecName).mpr name
    obtain ⟨q, eq', rfl, rfl⟩ := readTypeShape_gives_iff.mpr type
    simp only [readTypeSpec, eq, eq']
    exact ⟨_, rfl, rfl, rfl⟩

end Types

/-! ## Declarations -/

section Declarations

variable {ts rest : List Token}

theorem readLineEnd_gives_iff (place : Place) :
    Gives (readLineEnd place ts) () rest ↔ LineEnds ts rest := by
  constructor
  · rintro ⟨p, h, -, rfl⟩
    unfold readLineEnd at h
    split at h
    · cases h
    split at h <;> rename_i kind <;> cases h
    · exact .semicolon kind
    · exact .right kind
  · intro h
    cases h with
    | semicolon kind =>
      simp only [readLineEnd, kind]
      exact ⟨_, rfl, rfl, rfl⟩
    | right kind =>
      cases ts with
      | nil => cases kind
      | cons t ts =>
        have kind : t.kind = .symbol .rightParen := kind
        simp only [readLineEnd, kind]
        exact ⟨_, rfl, rfl, rfl⟩

theorem readDeclarationEnd_gives_iff :
    Gives (readDeclarationEnd ts) () rest ↔
      ∃ stop, ts = stop ++ rest ∧ DeclarationEnd stop rest := by
  constructor
  · rintro ⟨p, h, -, rfl⟩
    unfold readDeclarationEnd at h
    split at h
    · cases h
      exact ⟨[], rfl, .endOfText rfl⟩
    rename_i t rest
    split at h <;> rename_i kind <;> cases h
    · exact ⟨[t], rfl, .semicolon kind⟩
    · exact ⟨[], rfl, .endOfText kind⟩
  · rintro ⟨stop, rfl, ended⟩
    cases ended with
    | semicolon kind =>
      simp only [List.singleton_append, readDeclarationEnd, kind]
      exact ⟨_, rfl, rfl, rfl⟩
    | endOfText last =>
      cases rest with
      | nil => exact ⟨_, rfl, rfl, rfl⟩
      | cons t rest =>
        have last : t.kind = .endOfText := last
        simp only [List.nil_append, readDeclarationEnd, last]
        exact ⟨_, rfl, rfl, rfl⟩

theorem reads_of_readConstGroup {n : Nat} {ts : List Token} {p : Parsed ts.length (List ConstSpec)}
    (h : readConstGroup n ts = .ok p) : GroupReads ConstSpecReads n ts p.value p.rest := by
  match ts, p, h with
  | [], p, h =>
    rw [readConstGroup] at h
    cases h
  | t :: rest, p, h =>
    rw [readConstGroup] at h
    split at h
    · rename_i right
      cases h
      exact .close right
    rename_i inner
    split at h
    · rename_i semicolon
      split at h <;> cases h
      rename_i specs readSpecs
      exact .blank semicolon (reads_of_readConstGroup readSpecs)
    rename_i starts
    split at h
    · cases h
    rename_i spec readSpec
    split at h
    · cases h
    rename_i lineEnd readEnd
    split at h <;> cases h
    rename_i specs readSpecs
    have shorter := spec.shorter
    have shorter' := lineEnd.shorter
    exact .line inner starts (readConstSpec_gives_iff.mp ⟨spec, readSpec, rfl, rfl⟩)
      ((readLineEnd_gives_iff _).mp ⟨lineEnd, readEnd, rfl, rfl⟩) (reads_of_readConstGroup readSpecs)
termination_by ts.length
decreasing_by all_goals simp only [List.length_cons] at *; omega

theorem readConstGroup_gives_iff {n : Nat} {specs : List ConstSpec} :
    Gives (readConstGroup n ts) specs rest ↔ GroupReads ConstSpecReads n ts specs rest := by
  constructor
  · rintro ⟨p, h, rfl, rfl⟩
    exact reads_of_readConstGroup h
  · intro h
    induction h with
    | close right => exact ⟨_, by rw [readConstGroup, if_pos right], rfl, rfl⟩
    | blank semicolon _ ih =>
      obtain ⟨p, eq, rfl, rfl⟩ := ih
      rw [readConstGroup, if_neg (by simp [semicolon]), if_pos semicolon]
      simp only [eq]
      exact ⟨_, rfl, rfl, rfl⟩
    | @line n a as ts middle after rest inner starts one ended _ ih =>
      obtain ⟨p, eq, rfl, rfl⟩ := readConstSpec_gives_iff.mpr one
      obtain ⟨q, eq', -, rfl⟩ := (readLineEnd_gives_iff .constGroup).mpr ended
      obtain ⟨r, eq'', rfl, rfl⟩ := ih
      cases ts with
      | nil => exact absurd p.shorter (Nat.not_lt_zero _)
      | cons t ts =>
        have inner : t.kind ≠ .symbol .rightParen := inner
        have starts : t.kind ≠ .semicolon := starts
        rw [readConstGroup, if_neg inner, if_neg starts]
        simp only [eq, eq', eq'']
        exact ⟨_, rfl, rfl, rfl⟩

theorem reads_of_readTypeGroup (n : Nat) {ts : List Token} {p : Parsed ts.length (List TypeSpec)}
    (h : readTypeGroup ts = .ok p) : GroupReads (fun _ => TypeSpecReads) n ts p.value p.rest := by
  match ts, p, h with
  | [], p, h =>
    rw [readTypeGroup] at h
    cases h
  | t :: rest, p, h =>
    rw [readTypeGroup] at h
    split at h
    · rename_i right
      cases h
      exact .close right
    rename_i inner
    split at h
    · rename_i semicolon
      split at h <;> cases h
      rename_i specs readSpecs
      exact .blank semicolon (reads_of_readTypeGroup _ readSpecs)
    rename_i starts
    split at h
    · cases h
    rename_i spec readSpec
    split at h
    · cases h
    rename_i lineEnd readEnd
    split at h <;> cases h
    rename_i specs readSpecs
    have shorter := spec.shorter
    have shorter' := lineEnd.shorter
    exact .line inner starts (readTypeSpec_gives_iff.mp ⟨spec, readSpec, rfl, rfl⟩)
      ((readLineEnd_gives_iff _).mp ⟨lineEnd, readEnd, rfl, rfl⟩) (reads_of_readTypeGroup _ readSpecs)
termination_by ts.length
decreasing_by all_goals simp only [List.length_cons] at *; omega

theorem readTypeGroup_gives_iff (n : Nat) {specs : List TypeSpec} :
    Gives (readTypeGroup ts) specs rest ↔ GroupReads (fun _ => TypeSpecReads) n ts specs rest := by
  constructor
  · rintro ⟨p, h, rfl, rfl⟩
    exact reads_of_readTypeGroup n h
  · intro h
    induction h with
    | close right => exact ⟨_, by rw [readTypeGroup, if_pos right], rfl, rfl⟩
    | blank semicolon _ ih =>
      obtain ⟨p, eq, rfl, rfl⟩ := ih
      rw [readTypeGroup, if_neg (by simp [semicolon]), if_pos semicolon]
      simp only [eq]
      exact ⟨_, rfl, rfl, rfl⟩
    | @line n a as ts middle after rest inner starts one ended _ ih =>
      obtain ⟨p, eq, rfl, rfl⟩ := readTypeSpec_gives_iff.mpr one
      obtain ⟨q, eq', -, rfl⟩ := (readLineEnd_gives_iff .typeGroup).mpr ended
      obtain ⟨r, eq'', rfl, rfl⟩ := ih
      cases ts with
      | nil => exact absurd p.shorter (Nat.not_lt_zero _)
      | cons t ts =>
        have inner : t.kind ≠ .symbol .rightParen := inner
        have starts : t.kind ≠ .semicolon := starts
        rw [readTypeGroup, if_neg inner, if_neg starts]
        simp only [eq, eq', eq'']
        exact ⟨_, rfl, rfl, rfl⟩

/-- A constant declaration is read by the rules, and by nothing else. -/
theorem readConstDecl_gives_iff {pos : Pos} {decl : ConstDecl} :
    Gives (readConstDecl pos ts) decl rest ↔
      decl.pos = pos ∧ DeclarationReads ConstSpecReads ts decl.specs rest := by
  constructor
  · rintro ⟨p, h, rfl, rfl⟩
    unfold readConstDecl at h
    dsimp only at h
    split at h
    · cases h
    rename_i specs readSpecs
    split at h <;> cases h
    rename_i declEnd readEnd
    refine ⟨rfl, ?_⟩
    obtain ⟨stop, after, ended⟩ := readDeclarationEnd_gives_iff.mp ⟨declEnd, readEnd, rfl, rfl⟩
    split at readSpecs
    · obtain ⟨spec, read, rfl⟩ := exists_ok_of_map readSpecs
      cases read
    split at readSpecs
    · rename_i left
      obtain ⟨group, read, rfl⟩ := exists_ok_of_map readSpecs
      exact .group left (readConstGroup_gives_iff.mp ⟨group, read, rfl, after⟩) ended
    · rename_i starts
      obtain ⟨spec, read, rfl⟩ := exists_ok_of_map readSpecs
      exact .one starts (readConstSpec_gives_iff.mp ⟨spec, read, rfl, after⟩) ended
  · rintro ⟨rfl, h⟩
    obtain ⟨pos, specs⟩ := decl
    cases h with
    | @one spec ts stop rest starts line ended =>
      obtain ⟨p, eq, rfl, after⟩ := readConstSpec_gives_iff.mpr line
      obtain ⟨q, eq', -, rfl⟩ := readDeclarationEnd_gives_iff.mpr ⟨stop, after, ended⟩
      cases ts with
      | nil => exact absurd p.shorter (Nat.not_lt_zero _)
      | cons t ts =>
        have starts : t.kind ≠ .symbol .leftParen := starts
        simp only [readConstDecl, if_neg starts, eq, Except.map, Parsed.map_rest, eq']
        exact ⟨_, rfl, rfl, rfl⟩
    | @group specs t ts stop rest left lines ended =>
      obtain ⟨p, eq, rfl, after⟩ := readConstGroup_gives_iff.mpr lines
      obtain ⟨q, eq', -, rfl⟩ := readDeclarationEnd_gives_iff.mpr ⟨stop, after, ended⟩
      simp only [readConstDecl, if_pos left, eq, Except.map, Parsed.past_rest, eq']
      exact ⟨_, rfl, rfl, rfl⟩

/-- A type declaration is read by the rules, and by nothing else. -/
theorem readTypeDecl_gives_iff {specs : List TypeSpec} :
    Gives (readTypeDecl ts) specs rest ↔
      DeclarationReads (fun _ => TypeSpecReads) ts specs rest := by
  constructor
  · rintro ⟨p, h, rfl, rfl⟩
    unfold readTypeDecl at h
    dsimp only at h
    split at h
    · cases h
    rename_i specs readSpecs
    split at h <;> cases h
    rename_i declEnd readEnd
    obtain ⟨stop, after, ended⟩ := readDeclarationEnd_gives_iff.mp ⟨declEnd, readEnd, rfl, rfl⟩
    split at readSpecs
    · obtain ⟨spec, read, rfl⟩ := exists_ok_of_map readSpecs
      cases read
    split at readSpecs
    · rename_i left
      obtain ⟨group, read, rfl⟩ := exists_ok_of_map readSpecs
      exact .group left ((readTypeGroup_gives_iff 0).mp ⟨group, read, rfl, after⟩) ended
    · rename_i starts
      obtain ⟨spec, read, rfl⟩ := exists_ok_of_map readSpecs
      exact .one starts (readTypeSpec_gives_iff.mp ⟨spec, read, rfl, after⟩) ended
  · intro h
    cases h with
    | @one spec ts stop rest starts line ended =>
      obtain ⟨p, eq, rfl, after⟩ := readTypeSpec_gives_iff.mpr line
      obtain ⟨q, eq', -, rfl⟩ := readDeclarationEnd_gives_iff.mpr ⟨stop, after, ended⟩
      cases ts with
      | nil => exact absurd p.shorter (Nat.not_lt_zero _)
      | cons t ts =>
        have starts : t.kind ≠ .symbol .leftParen := starts
        simp only [readTypeDecl, if_neg starts, eq, Except.map, Parsed.map_rest, eq']
        exact ⟨_, rfl, rfl, rfl⟩
    | @group specs t ts stop rest left lines ended =>
      obtain ⟨p, eq, rfl, after⟩ := (readTypeGroup_gives_iff 0).mpr lines
      obtain ⟨q, eq', -, rfl⟩ := readDeclarationEnd_gives_iff.mpr ⟨stop, after, ended⟩
      simp only [readTypeDecl, if_pos left, eq, Except.map, Parsed.past_rest, eq']
      exact ⟨_, rfl, rfl, rfl⟩

end Declarations

end EnumCodec
