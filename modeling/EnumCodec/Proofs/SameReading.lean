import EnumCodec.Proofs.CarriageReturns
import EnumCodec.Proofs.FileGrammar

/-!
# Where statement ends stand

No reader of the grammar asks where a statement end stands.  Tokens of the same kinds, in the same
places but for the statement ends, are read as the same tree.

* `ReadAlike` — lists of such tokens.
* `BinaryReads.alike`, `DeclarationReads.alike` — the rules of the readers take such tokens as the same
  tree, and leave such tokens.
* `readFile_alike` — a file.
* `SourceFile.ofText_returnedSource` — so carriage returns before line feeds change no file.
-/

set_option autoImplicit false

namespace EnumCodec

/-! ## Tokens that are read alike -/

/-- A token of the same kind, in the same place unless it is a statement end. -/
structure Token.IsLike (t t' : Token) : Prop where
  kind : t'.kind = t.kind
  pos : t.kind ≠ .semicolon → t'.pos = t.pos

theorem Token.IsLike.refl (t : Token) : t.IsLike t := ⟨rfl, fun _ => rfl⟩

theorem Token.IsLike.symm {t t' : Token} (h : t.IsLike t') : t'.IsLike t :=
  ⟨h.kind.symm, fun other => (h.pos (h.kind ▸ other)).symm⟩

/-- Lists of tokens that no reader tells apart. -/
def ReadAlike (ts ts' : List Token) : Prop := List.Forall₂ Token.IsLike ts ts'

namespace ReadAlike

variable {ts ts' : List Token}

theorem nil : ReadAlike [] [] := List.Forall₂.nil

theorem cons {t t' : Token} (head : t.IsLike t') (tail : ReadAlike ts ts') :
    ReadAlike (t :: ts) (t' :: ts') :=
  List.Forall₂.cons head tail

theorem exists_cons {t : Token} (h : ReadAlike (t :: ts) ts') :
    ∃ t' rest, t.IsLike t' ∧ ReadAlike ts rest ∧ ts' = t' :: rest :=
  List.forall₂_cons_left_iff.mp h

theorem symm (h : ReadAlike ts ts') : ReadAlike ts' ts :=
  List.Forall₂.flip (h.imp fun _ _ like => like.symm)

theorem kindAt (h : ReadAlike ts ts') : kindAt ts' = kindAt ts := by
  cases h with
  | nil => rfl
  | cons head tail => exact head.kind

theorem atSymbol (h : ReadAlike ts ts') (s : Symbol) : atSymbol s ts' = atSymbol s ts := by
  rw [EnumCodec.atSymbol, EnumCodec.atSymbol, h.kindAt]

theorem drop (h : ReadAlike ts ts') (n : Nat) : ReadAlike (ts.drop n) (ts'.drop n) :=
  List.forall₂_drop n h

theorem skipSymbol (h : ReadAlike ts ts') (s : Symbol) :
    ReadAlike (skipSymbol s ts) (skipSymbol s ts') := by
  cases h with
  | nil => exact .nil
  | cons head tail =>
    rw [EnumCodec.skipSymbol, EnumCodec.skipSymbol, head.kind]
    split
    · exact tail
    · exact .cons head tail

theorem stops {least : Nat} (h : ReadAlike ts ts') (stop : Stops least ts) : Stops least ts' := by
  intro op
  rw [h.kindAt]
  exact stop op

end ReadAlike

/-- Tokens that differ in the columns of implied statement ends are read alike. -/
theorem SameTokens.readAlike {ts ts' : List Token} (h : SameTokens ts ts') : ReadAlike ts ts' := by
  induction h with
  | nil => exact .nil
  | same t _ ih => exact .cons (.refl t) ih
  | lineEnd _ _ ih => exact .cons ⟨rfl, fun other => absurd rfl other⟩ ih

/-! ## Passing over tokens -/

/-- What passes over tokens comes as far as over other ones. -/
def Skips (skip : Except SyntaxError (List Token)) (rest : List Token) : Prop :=
  ∃ rest', skip = .ok rest' ∧ ReadAlike rest rest'

section Skipped

variable {ts ts' rest : List Token} {depth : Nat}

theorem skipDeclaration_alike (same : ReadAlike ts ts') (h : skipDeclaration depth ts = .ok rest) :
    Skips (skipDeclaration depth ts') rest := by
  induction same generalizing depth with
  | nil =>
    rw [skipDeclaration] at h ⊢
    split_ifs at h ⊢
    cases h
    exact ⟨[], rfl, .nil⟩
  | cons head tail ih =>
    rw [skipDeclaration] at h ⊢
    rw [head.kind]
    split_ifs at h ⊢ <;> first | exact ih h | cases h
    · exact ⟨_, rfl, .cons head tail⟩
    · exact ⟨_, rfl, tail⟩

theorem skipType_alike (same : ReadAlike ts ts') (h : skipType depth ts = .ok rest) :
    Skips (skipType depth ts') rest := by
  induction same generalizing depth with
  | nil =>
    rw [skipType] at h ⊢
    split_ifs at h ⊢
    cases h
    exact ⟨[], rfl, .nil⟩
  | cons head tail ih =>
    rw [skipType] at h ⊢
    rw [head.kind]
    split_ifs at h ⊢ <;> first | exact ih h | cases h
    exact ⟨_, rfl, .cons head tail⟩

theorem skipBracket_alike (same : ReadAlike ts ts') (h : skipBracket depth ts = .ok rest) :
    Skips (skipBracket depth ts') rest := by
  induction same generalizing depth with
  | nil => cases h
  | cons head tail ih =>
    rw [skipBracket] at h ⊢
    rw [head.kind]
    split_ifs at h ⊢ <;> first | exact ih h | cases h
    exact ⟨_, rfl, tail⟩

theorem skipBracketAt_alike {s : Symbol} (same : ReadAlike ts ts')
    (h : skipBracketAt s ts = .ok rest) : Skips (skipBracketAt s ts') rest := by
  cases same with
  | nil =>
    cases h
    exact ⟨[], rfl, .nil⟩
  | cons head tail =>
    rw [skipBracketAt] at h ⊢
    rw [head.kind]
    split_ifs at h ⊢
    · exact skipBracket_alike tail h
    · cases h
      exact ⟨_, rfl, .cons head tail⟩

theorem skipTypeOperand_alike (same : ReadAlike ts ts') (h : skipTypeOperand depth ts = .ok rest) :
    Skips (skipTypeOperand depth ts') rest := by
  induction same generalizing depth with
  | nil => cases h
  | cons head tail ih =>
    rw [skipTypeOperand] at h ⊢
    rw [head.kind]
    split_ifs at h ⊢ <;> first | exact ih h | cases h
    exact ⟨_, rfl, .cons head tail⟩

theorem skipSignature_alike (same : ReadAlike ts ts') (h : skipSignature ts = .ok rest) :
    Skips (skipSignature ts') rest := by
  unfold skipSignature at h ⊢
  cases parameters : skipBracketAt .leftParen ts with
  | error e => simp [parameters, bind, Except.bind] at h
  | ok middle =>
    obtain ⟨middle', parameters', more⟩ := skipBracketAt_alike same parameters
    simp only [parameters, parameters', bind, Except.bind, more.atSymbol] at h ⊢
    split at h
    · rename_i left
      rw [if_pos left]
      exact skipBracketAt_alike more h
    · rename_i left
      rw [if_neg left]
      exact skipTypeOperand_alike more h

/-- What was passed over, and how far. -/
def Passes (skip : Except SyntaxError (Construct × List Token)) (c : Construct)
    (rest : List Token) : Prop :=
  ∃ rest', skip = .ok (c, rest') ∧ ReadAlike rest rest'

theorem Skips.passes {skip skip' : Except SyntaxError (List Token)} {c c' : Construct}
    (h : skip.map (fun left => (c, left)) = .ok (c', rest))
    (follows : skip = .ok rest → Skips skip' rest) :
    Passes (skip'.map fun left => (c, left)) c' rest := by
  obtain ⟨rest', eq, same⟩ := follows (eq_ok_of_map_eq_ok h)
  obtain ⟨left, -, value⟩ := exists_ok_of_map h
  cases value
  exact ⟨rest', by rw [eq]; rfl, same⟩

theorem skipFunction_alike {c : Construct} (same : ReadAlike ts ts')
    (h : skipFunction ts = .ok (c, rest)) : Passes (skipFunction ts') c rest := by
  unfold skipFunction at h ⊢
  split at h
  · cases h
  rename_i middle signature
  obtain ⟨middle', signature', more⟩ := skipSignature_alike same signature
  simp only [signature', more.atSymbol]
  split at h
  · rename_i left
    rw [if_pos left]
    exact Skips.passes h (skipBracketAt_alike more)
  · rename_i left
    rw [if_neg left]
    cases h
    exact ⟨middle', rfl, more⟩

theorem skipOperand?_alike {first : TokenKind} {c : Construct} (same : ReadAlike ts ts')
    (h : skipOperand? first ts = some (.ok (c, rest))) :
    ∃ skip, skipOperand? first ts' = some skip ∧ Passes skip c rest := by
  unfold skipOperand? at h
  split at h
  · exact ⟨_, rfl, skipFunction_alike same (Option.some.inj h)⟩
  · exact ⟨_, rfl, Skips.passes (Option.some.inj h) (skipBracketAt_alike same)⟩
  · exact ⟨_, rfl, Skips.passes (Option.some.inj h) (skipBracketAt_alike same)⟩
  · exact ⟨_, rfl, Skips.passes (Option.some.inj h) (skipTypeOperand_alike same)⟩
  · exact ⟨_, rfl, Skips.passes (Option.some.inj h) (skipTypeOperand_alike same)⟩
  · exact ⟨_, rfl, Skips.passes (Option.some.inj h) (skipTypeOperand_alike same)⟩
  · cases h

end Skipped

/-! ## Expressions -/

theorem readBracket_alike {ts ts' rest : List Token} (same : ReadAlike ts ts')
    (h : Gives (readBracket ts) () rest) :
    ∃ rest', Gives (readBracket ts') () rest' ∧ ReadAlike rest rest' := by
  obtain ⟨p, h, -, rfl⟩ := h
  unfold readBracket at h ⊢
  split at h <;> cases h
  rename_i rest skipped
  obtain ⟨rest', skipped', more⟩ := skipBracket_alike same skipped
  split <;> rename_i again <;> rw [skipped'] at again <;> cases again
  exact ⟨rest', ⟨_, rfl, rfl, rfl⟩, more⟩

theorem Token.IsLike.atom? {t t' : Token} (h : t.IsLike t') : atom? t' = atom? t := by
  unfold EnumCodec.atom?
  rw [h.kind]
  split <;> try rfl
  rename_i name
  rw [h.pos (by simp [name])]

mutual

theorem BinaryReads.alike {least : Nat} {e : Expr} {ts ts' rest : List Token}
    (h : BinaryReads least ts e rest) (same : ReadAlike ts ts') :
    ∃ rest', BinaryReads least ts' e rest' ∧ ReadAlike rest rest' := by
  match h with
  | .operation operand climbs =>
    obtain ⟨middle, operand, more⟩ := operand.alike same
    obtain ⟨rest', climbs, last⟩ := climbs.alike more
    exact ⟨rest', .operation operand climbs, last⟩

theorem ClimbReads.alike {least : Nat} {left e : Expr} {ts ts' rest : List Token}
    (h : ClimbReads least left ts e rest) (same : ReadAlike ts ts') :
    ∃ rest', ClimbReads least left ts' e rest' ∧ ReadAlike rest rest' := by
  match h with
  | .stops stop => exact ⟨ts', .stops (same.stops stop), same⟩
  | .goesOn operator enough operand climbs =>
    obtain ⟨t', us, head, tail, rfl⟩ := same.exists_cons
    obtain ⟨middle, operand, more⟩ := operand.alike tail
    obtain ⟨rest', climbs, last⟩ := climbs.alike more
    exact ⟨rest', .goesOn (head.kind.trans operator) enough operand climbs, last⟩

theorem UnaryReads.alike {e : Expr} {ts ts' rest : List Token} (h : UnaryReads ts e rest)
    (same : ReadAlike ts ts') : ∃ rest', UnaryReads ts' e rest' ∧ ReadAlike rest rest' := by
  match h with
  | .primary first operand =>
    obtain ⟨rest', operand, last⟩ := operand.alike same
    exact ⟨rest', .primary (by rw [same.kindAt]; exact first) operand, last⟩
  | .operator operator operand =>
    obtain ⟨t', us, head, tail, rfl⟩ := same.exists_cons
    obtain ⟨rest', operand, last⟩ := operand.alike tail
    exact ⟨rest', .operator (head.kind.trans operator) operand, last⟩

theorem PrimaryReads.alike {e : Expr} {ts ts' rest : List Token} (h : PrimaryReads ts e rest)
    (same : ReadAlike ts ts') : ∃ rest', PrimaryReads ts' e rest' ∧ ReadAlike rest rest' := by
  match h with
  | .operand operand goesOn =>
    obtain ⟨middle, operand, more⟩ := operand.alike same
    obtain ⟨rest', goesOn, last⟩ := goesOn.alike more
    exact ⟨rest', .operand operand goesOn, last⟩

theorem PostfixReads.alike {base e : Expr} {ts ts' rest : List Token}
    (h : PostfixReads base ts e rest) (same : ReadAlike ts ts') :
    ∃ rest', PostfixReads base ts' e rest' ∧ ReadAlike rest rest' := by
  match h with
  | .stops stop => exact ⟨ts', .stops (by rw [same.kindAt]; exact stop), same⟩
  | .selector dot field goesOn =>
    obtain ⟨t', us, head, tail, rfl⟩ := same.exists_cons
    obtain ⟨u', vs, second, after, rfl⟩ := tail.exists_cons
    obtain ⟨rest', goesOn, last⟩ := goesOn.alike after
    rw [← second.pos (by simp [field])] at goesOn
    exact ⟨rest', .selector (head.kind.trans dot) (second.kind.trans field) goesOn, last⟩
  | .call left arguments goesOn =>
    obtain ⟨t', us, head, tail, rfl⟩ := same.exists_cons
    obtain ⟨middle, arguments, more⟩ := arguments.alike tail
    obtain ⟨rest', goesOn, last⟩ := goesOn.alike more
    exact ⟨rest', .call (head.kind.trans left) arguments goesOn, last⟩
  | .assertion dot left bracket goesOn =>
    obtain ⟨t', us, head, tail, rfl⟩ := same.exists_cons
    obtain ⟨u', vs, second, after, rfl⟩ := tail.exists_cons
    obtain ⟨middle, bracket, more⟩ := readBracket_alike after bracket
    obtain ⟨rest', goesOn, last⟩ := goesOn.alike more
    exact ⟨rest', .assertion (head.kind.trans dot) (second.kind.trans left) bracket goesOn, last⟩
  | .index left bracket goesOn =>
    obtain ⟨t', us, head, tail, rfl⟩ := same.exists_cons
    obtain ⟨middle, bracket, more⟩ := readBracket_alike tail bracket
    obtain ⟨rest', goesOn, last⟩ := goesOn.alike more
    exact ⟨rest', .index (head.kind.trans left) bracket goesOn, last⟩
  | .literal left bracket goesOn =>
    obtain ⟨t', us, head, tail, rfl⟩ := same.exists_cons
    obtain ⟨middle, bracket, more⟩ := readBracket_alike tail bracket
    obtain ⟨rest', goesOn, last⟩ := goesOn.alike more
    exact ⟨rest', .literal (head.kind.trans left) bracket goesOn, last⟩

theorem ArgumentsReads.alike {es : List Expr} {ts ts' rest : List Token}
    (h : ArgumentsReads ts es rest) (same : ReadAlike ts ts') :
    ∃ rest', ArgumentsReads ts' es rest' ∧ ReadAlike rest rest' := by
  match h with
  | .none right =>
    obtain ⟨t', us, head, tail, rfl⟩ := same.exists_cons
    exact ⟨us, .none (head.kind.trans right), tail⟩
  | .last first argument dots right =>
    obtain ⟨middle, argument, more⟩ := argument.alike same
    have after := more.skipSymbol .ellipsis
    rw [dots] at after
    obtain ⟨t', us, head, tail, dots⟩ := after.exists_cons
    exact ⟨us, .last (by rw [same.kindAt]; exact first) argument dots (head.kind.trans right), tail⟩
  | .cons first argument dots comma arguments =>
    obtain ⟨middle, argument, more⟩ := argument.alike same
    have after := more.skipSymbol .ellipsis
    rw [dots] at after
    obtain ⟨t', us, head, tail, dots⟩ := after.exists_cons
    obtain ⟨rest', arguments, last⟩ := arguments.alike tail
    exact ⟨rest', .cons (by rw [same.kindAt]; exact first) argument dots (head.kind.trans comma)
      arguments, last⟩

theorem OperandReads.alike {e : Expr} {ts ts' rest : List Token} (h : OperandReads ts e rest)
    (same : ReadAlike ts ts') : ∃ rest', OperandReads ts' e rest' ∧ ReadAlike rest rest' := by
  match h with
  | .atom atom =>
    obtain ⟨t', us, head, tail, rfl⟩ := same.exists_cons
    exact ⟨us, .atom (head.atom?.trans atom), tail⟩
  | .paren left inner right =>
    obtain ⟨t', us, head, tail, rfl⟩ := same.exists_cons
    obtain ⟨middle, inner, more⟩ := inner.alike tail
    obtain ⟨u', vs, second, tail, rfl⟩ := more.exists_cons
    exact ⟨vs, .paren (head.kind.trans left) inner (second.kind.trans right), tail⟩
  | .type compound other skipped =>
    obtain ⟨t', us, head, tail, rfl⟩ := same.exists_cons
    obtain ⟨skip, skipped', rest', eq, last⟩ := skipOperand?_alike tail skipped
    rw [eq] at skipped'
    exact ⟨rest', .type (head.atom?.trans compound) (by rw [head.kind]; exact other)
      (by rw [head.kind]; exact skipped'), last⟩

end

theorem ExprsReads.alike {es : List Expr} {ts ts' rest : List Token} (h : ExprsReads ts es rest)
    (same : ReadAlike ts ts') : ∃ rest', ExprsReads ts' es rest' ∧ ReadAlike rest rest' := by
  induction h generalizing ts' with
  | one value ends =>
    obtain ⟨rest', value, last⟩ := value.alike same
    exact ⟨rest', .one value (by rw [last.kindAt]; exact ends), last⟩
  | cons value comma _ ih =>
    obtain ⟨middle, value, more⟩ := value.alike same
    obtain ⟨t', us, head, tail, rfl⟩ := more.exists_cons
    obtain ⟨rest', values, last⟩ := ih tail
    exact ⟨rest', .cons value (head.kind.trans comma) values, last⟩

/-! ## Declarations -/

section Declared

variable {ts ts' rest : List Token}

theorem NameReads.alike {ident : Ident} (h : NameReads ts ident rest) (same : ReadAlike ts ts') :
    ∃ rest', NameReads ts' ident rest' ∧ ReadAlike rest rest' := by
  obtain ⟨kind⟩ := h
  obtain ⟨t', us, head, tail, rfl⟩ := same.exists_cons
  rw [← head.pos (by simp [kind])]
  exact ⟨us, .name (head.kind.trans kind), tail⟩

theorem TypeNameReads.alike {type : TypeName} (h : TypeNameReads ts type rest)
    (same : ReadAlike ts ts') : ∃ rest', TypeNameReads ts' type rest' ∧ ReadAlike rest rest' := by
  cases h with
  | own name other =>
    obtain ⟨rest', name, last⟩ := name.alike same
    exact ⟨rest', .own name (by rw [last.kindAt]; exact other), last⟩
  | foreign first dot second =>
    obtain ⟨middle, first, more⟩ := first.alike same
    obtain ⟨t', us, head, tail, rfl⟩ := more.exists_cons
    obtain ⟨rest', second, last⟩ := second.alike tail
    exact ⟨rest', .foreign first (head.kind.trans dot) second, last⟩

theorem MoreNamesReads.alike {names : List Ident} (h : MoreNamesReads ts names rest)
    (same : ReadAlike ts ts') : ∃ rest', MoreNamesReads ts' names rest' ∧ ReadAlike rest rest' := by
  induction h generalizing ts' with
  | stops other => exact ⟨ts', .stops (by rw [same.kindAt]; exact other), same⟩
  | cons comma name _ ih =>
    obtain ⟨t', us, head, tail, rfl⟩ := same.exists_cons
    obtain ⟨middle, name, more⟩ := name.alike tail
    obtain ⟨rest', names, last⟩ := ih more
    exact ⟨rest', .cons (head.kind.trans comma) name names, last⟩

theorem ConstTypeReads.alike {type : Option TypeName} (h : ConstTypeReads ts type rest)
    (same : ReadAlike ts ts') : ∃ rest', ConstTypeReads ts' type rest' ∧ ReadAlike rest rest' := by
  cases h with
  | absent ends => exact ⟨ts', .absent (by rw [same.kindAt]; exact ends), same⟩
  | present name =>
    obtain ⟨rest', name, last⟩ := name.alike same
    exact ⟨rest', .present name, last⟩

theorem ConstValuesReads.alike {values : List Expr} (h : ConstValuesReads ts values rest)
    (same : ReadAlike ts ts') : ∃ rest', ConstValuesReads ts' values rest' ∧ ReadAlike rest rest' := by
  cases h with
  | absent other => exact ⟨ts', .absent (by rw [same.kindAt]; exact other), same⟩
  | present assign values =>
    obtain ⟨t', us, head, tail, rfl⟩ := same.exists_cons
    obtain ⟨rest', values, last⟩ := values.alike tail
    exact ⟨rest', .present (head.kind.trans assign) values, last⟩

theorem ConstSpecReads.alike {n : Nat} {spec : ConstSpec} (h : ConstSpecReads n ts spec rest)
    (same : ReadAlike ts ts') : ∃ rest', ConstSpecReads n ts' spec rest' ∧ ReadAlike rest rest' := by
  obtain ⟨first, names, type, values, count⟩ := h
  obtain ⟨us, first, same⟩ := first.alike same
  obtain ⟨vs, names, same⟩ := names.alike same
  obtain ⟨ws, type, same⟩ := type.alike same
  obtain ⟨rest', values, same⟩ := values.alike same
  exact ⟨rest', .line first names type values count, same⟩

theorem ReadAlike.atLoneTypeName (same : ReadAlike ts ts') :
    atLoneTypeName ts' = atLoneTypeName ts := by
  unfold EnumCodec.atLoneTypeName
  rw [same.kindAt, (same.drop 1).kindAt, (same.drop 1).atSymbol, (same.drop 2).kindAt,
    (same.drop 3).kindAt]

theorem TypeShapeReads.alike {shape : TypeShape} (h : TypeShapeReads ts shape rest)
    (same : ReadAlike ts ts') : ∃ rest', TypeShapeReads ts' shape rest' ∧ ReadAlike rest rest' := by
  cases h with
  | named lone name =>
    obtain ⟨rest', name, last⟩ := name.alike same
    exact ⟨rest', .named (same.atLoneTypeName.trans lone) name, last⟩
  | composite other first skipped =>
    obtain ⟨rest', skipped, last⟩ := skipType_alike same skipped
    exact ⟨rest', .composite (by rw [same.atLoneTypeName]; exact other)
      (by rw [same.kindAt]; exact first) skipped, last⟩

theorem TypeSpecReads.alike {spec : TypeSpec} (h : TypeSpecReads ts spec rest)
    (same : ReadAlike ts ts') : ∃ rest', TypeSpecReads ts' spec rest' ∧ ReadAlike rest rest' := by
  obtain ⟨name, type⟩ := h
  obtain ⟨middle, name, more⟩ := name.alike same
  obtain ⟨rest', type, last⟩ := type.alike (more.skipSymbol .assign)
  rw [← more.atSymbol]
  exact ⟨rest', .line name type, last⟩

theorem LineEnds.alike (h : LineEnds ts rest) (same : ReadAlike ts ts') :
    ∃ rest', LineEnds ts' rest' ∧ ReadAlike rest rest' := by
  cases h with
  | semicolon kind =>
    obtain ⟨t', us, head, tail, rfl⟩ := same.exists_cons
    exact ⟨us, .semicolon (head.kind.trans kind), tail⟩
  | right kind => exact ⟨ts', .right (same.kindAt.trans kind), same⟩

theorem DeclarationEnd.alike {stop : List Token} (h : DeclarationEnd stop rest)
    (same : ReadAlike (stop ++ rest) ts') :
    ∃ stop' rest', ts' = stop' ++ rest' ∧ DeclarationEnd stop' rest' ∧ ReadAlike rest rest' := by
  cases h with
  | semicolon kind =>
    obtain ⟨t', us, head, tail, rfl⟩ := same.exists_cons
    exact ⟨[t'], us, rfl, .semicolon (head.kind.trans kind), tail⟩
  | endOfText last => exact ⟨[], ts', rfl, .endOfText (same.kindAt.trans last), same⟩

section Lines

variable {α : Type} {Line : Nat → List Token → α → List Token → Prop} {as : List α}
  (line : ∀ n ts a rest, Line n ts a rest → ∀ {ts' : List Token}, ReadAlike ts ts' →
    ∃ rest', Line n ts' a rest' ∧ ReadAlike rest rest')
include line

theorem GroupReads.alike {n : Nat} (h : GroupReads Line n ts as rest) (same : ReadAlike ts ts') :
    ∃ rest', GroupReads Line n ts' as rest' ∧ ReadAlike rest rest' := by
  induction h generalizing ts' with
  | close right =>
    obtain ⟨t', us, head, tail, rfl⟩ := same.exists_cons
    exact ⟨us, .close (head.kind.trans right), tail⟩
  | blank semicolon _ ih =>
    obtain ⟨t', us, head, tail, rfl⟩ := same.exists_cons
    obtain ⟨rest', lines, last⟩ := ih tail
    exact ⟨rest', .blank (head.kind.trans semicolon) lines, last⟩
  | line inner starts one ended _ ih =>
    obtain ⟨middle, one, more⟩ := line _ _ _ _ one same
    obtain ⟨after, ended, more⟩ := ended.alike more
    obtain ⟨rest', lines, last⟩ := ih more
    exact ⟨rest', .line (by rw [same.kindAt]; exact inner) (by rw [same.kindAt]; exact starts) one
      ended lines, last⟩

theorem DeclarationReads.alike (h : DeclarationReads Line ts as rest) (same : ReadAlike ts ts') :
    ∃ rest', DeclarationReads Line ts' as rest' ∧ ReadAlike rest rest' := by
  cases h with
  | one starts one ended =>
    obtain ⟨middle, one, more⟩ := line _ _ _ _ one same
    obtain ⟨stop, rest', rfl, ended, last⟩ := ended.alike more
    exact ⟨rest', .one (by rw [same.kindAt]; exact starts) one ended, last⟩
  | group left lines ended =>
    obtain ⟨t', us, head, tail, rfl⟩ := same.exists_cons
    obtain ⟨middle, lines, more⟩ := lines.alike line tail
    obtain ⟨stop, rest', rfl, ended, last⟩ := ended.alike more
    exact ⟨rest', .group (head.kind.trans left) lines ended, last⟩

end Lines

end Declared

/-! ## Files -/

section Files

variable {ts ts' rest : List Token}

theorem TopLevelReads.alike {part : TopLevel} (h : TopLevelReads ts part rest)
    (same : ReadAlike ts ts') : ∃ rest', TopLevelReads ts' part rest' ∧ ReadAlike rest rest' := by
  cases h with
  | nothing semicolon =>
    obtain ⟨t', us, head, tail, rfl⟩ := same.exists_cons
    exact ⟨us, .nothing (head.kind.trans semicolon), tail⟩
  | consts word decl =>
    obtain ⟨t', us, head, tail, rfl⟩ := same.exists_cons
    obtain ⟨rest', decl, last⟩ := decl.alike (fun _ _ _ _ line => line.alike) tail
    rw [← head.pos (by simp [word])]
    exact ⟨rest', .consts (head.kind.trans word) decl, last⟩
  | types word decl =>
    obtain ⟨t', us, head, tail, rfl⟩ := same.exists_cons
    obtain ⟨rest', decl, last⟩ := decl.alike (fun _ _ _ _ line => line.alike) tail
    exact ⟨rest', .types (head.kind.trans word) decl, last⟩
  | skipped word skips passed =>
    obtain ⟨t', us, head, tail, rfl⟩ := same.exists_cons
    obtain ⟨rest', passed, last⟩ := skipDeclaration_alike tail passed
    exact ⟨rest', .skipped (head.kind.trans word) skips passed, last⟩

theorem TopLevelsReads.alike {parts : List TopLevel} (h : TopLevelsReads ts parts rest)
    (same : ReadAlike ts ts') : ∃ rest', TopLevelsReads ts' parts rest' := by
  induction h generalizing ts' with
  | ends last => exact ⟨ts', .ends (same.kindAt.trans last)⟩
  | cons inner first _ ih =>
    obtain ⟨middle, first, more⟩ := first.alike same
    obtain ⟨rest', parts⟩ := ih more
    exact ⟨rest', .cons (by rw [same.kindAt]; exact inner) first parts⟩

theorem PackageClause.alike {package : Ident} {clause : List Token}
    (h : PackageClause package clause rest) (same : ReadAlike (clause ++ rest) ts') :
    ∃ clause' rest', ts' = clause' ++ rest' ∧ PackageClause package clause' rest' ∧
      ReadAlike rest rest' := by
  obtain ⟨word, kind, pos, named, ended⟩ := h
  obtain ⟨t', us, first, tail, rfl⟩ := same.exists_cons
  obtain ⟨u', vs, second, after, rfl⟩ := tail.exists_cons
  obtain ⟨stop, rest', rfl, ended, last⟩ := ended.alike after
  have place := (second.pos (by simp [kind])).trans pos
  exact ⟨t' :: u' :: stop, rest', rfl,
    .clause (first.kind.trans word) (second.kind.trans kind) place named ended, last⟩

/-- **Files**: tokens that are read alike are those of the same file. -/
theorem readFile_alike {path : String} {file : SourceFile} (same : ReadAlike ts ts')
    (h : readFile path ts = .ok file) : readFile path ts' = .ok file := by
  obtain ⟨package, clause, middle, parts, rest, rfl, written, reads, rfl⟩ := readFile_ok_iff.mp h
  obtain ⟨clause', middle', rfl, written, more⟩ := written.alike same
  obtain ⟨rest', reads⟩ := reads.alike more
  exact readFile_ok_iff.mpr ⟨package, clause', middle', parts, rest', rfl, written, reads, rfl⟩

theorem readFile_toOption (path : String) (same : ReadAlike ts ts') :
    (readFile path ts').toOption = (readFile path ts).toOption := by
  cases read : readFile path ts with
  | ok file => rw [readFile_alike same read]
  | error e =>
    cases read' : readFile path ts' with
    | error e' => rfl
    | ok file => cases read.symm.trans (readFile_alike same.symm read')

end Files

/-- **Carriage returns**: where no raw string is and no backslash takes a line feed, a text can be cut
into words exactly if it can be with a carriage return before each line feed.  The words are the same,
in the same places but for the columns of the statement ends that line breaks stand for, and the file
that is read from them is the same. -/
theorem SourceFile.ofText_returnedSource (source : String) (h : KeepsFeeds source.toList) :
    ((∃ ts, scan source = .ok ts) ↔ ∃ ts, scan (returnedSource source) = .ok ts) ∧
      (∀ ts ts', scan source = .ok ts → scan (returnedSource source) = .ok ts' → SameTokens ts ts') ∧
      ∀ path, (SourceFile.ofText path (returnedSource source)).toOption
        = (SourceFile.ofText path source).toOption := by
  obtain ⟨e, e', fails, fails'⟩ | ⟨ts, ts', reads, reads', same⟩ := scan_returnedSource h
  · refine ⟨by simp [fails, fails'], ?_, ?_⟩
    · intro ts ts' reads
      cases fails.symm.trans reads
    · intro path
      simp only [SourceFile.ofText, fails, fails']
      rfl
  · refine ⟨by simp [reads, reads'], ?_, ?_⟩
    · intro us us' again again'
      cases reads.symm.trans again
      cases reads'.symm.trans again'
      exact same
    · intro path
      simp only [SourceFile.ofText, reads, reads']
      exact readFile_toOption path same.readAlike

/-- Line feeds after a comment, inside of one, and after the lines of a group. -/
def groupText : String := "package p // ink\n\nconst (\n\tA = 1 /* and\n */\n\tB\n)\n"

/-- What `groupText` says. -/
def groupFile : SourceFile :=
  ⟨"p.go", ⟨"p", ⟨1, 9⟩⟩,
    [⟨⟨3, 1⟩, [⟨[⟨"A", ⟨4, 2⟩⟩], none, [.integer "1"], 0⟩, ⟨[⟨"B", ⟨6, 2⟩⟩], none, [], 1⟩]⟩], []⟩

theorem SourceFile.ofText_returnedSource_group :
    KeepsFeeds groupText.toList ∧
      (∃ ts ts', scan groupText = .ok ts ∧ scan (returnedSource groupText) = .ok ts' ∧
        SameTokens ts ts') ∧
      (SourceFile.ofText "p.go" (returnedSource groupText)).toOption = some groupFile := by
  have keeps : KeepsFeeds groupText.toList := ⟨by decide, by decide⟩
  have file : SourceFile.ofText "p.go" groupText = .ok groupFile := by with_unfolding_all rfl
  obtain ⟨scanned, same, read⟩ := SourceFile.ofText_returnedSource groupText keeps
  obtain ⟨ts, first⟩ : ∃ ts, scan groupText = .ok ts := ⟨_, by with_unfolding_all rfl⟩
  obtain ⟨ts', second⟩ := scanned.mp ⟨ts, first⟩
  refine ⟨keeps, ⟨ts, ts', first, second, same ts ts' first second⟩, ?_⟩
  rw [read "p.go", file]
  rfl

end EnumCodec
