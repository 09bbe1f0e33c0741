import EnumCodec.Syntax.Expression

/-!
# The grammar of expressions

What the readers of expressions take, as relations between the tokens, the tree that is read from them
and the tokens that are left: one rule for each way of a reader.  A proof about what is read goes by
induction over the rules.

* `Gives` — a reader gives a tree and leaves some tokens.
* `BinaryReads`, `ClimbReads`, `UnaryReads`, `PrimaryReads`, `PostfixReads`, `ArgumentsReads`,
  `OperandReads` — the rules of the readers.
* `readBinary_gives_iff` — an expression is read exactly by the rules.
-/

set_option autoImplicit false

namespace EnumCodec

/-! ## Operators -/

/-- The symbol of an operator with one operand. -/
def UnaryOp.symbol : UnaryOp → Symbol
  | plus => .plus
  | negate => .minus
  | not => .bang
  | complement => .caret
  | dereference => .star
  | addressOf => .ampersand
  | receive => .arrow

/-- The symbol of an operator with two operands. -/
def BinaryOp.symbol : BinaryOp → Symbol
  | add => .plus
  | sub => .minus
  | mul => .star
  | quotient => .slash
  | remainder => .percent
  | and => .ampersand
  | or => .bar
  | xor => .caret
  | shiftLeft => .shiftLeft
  | shiftRight => .shiftRight
  | andNot => .andNot
  | andAnd => .andAnd
  | orOr => .orOr
  | equal => .equal
  | notEqual => .notEqual
  | less => .less
  | lessEqual => .lessEqual
  | greater => .greater
  | greaterEqual => .greaterEqual

theorem UnaryOp.symbol_text (op : UnaryOp) : op.symbol.text = op.text := by
  cases op <;> rfl

theorem BinaryOp.symbol_text (op : BinaryOp) : op.symbol.text = op.text := by
  cases op <;> rfl

theorem unaryOp?_eq_some_iff {k : TokenKind} {op : UnaryOp} :
    unaryOp? k = some op ↔ k = .symbol op.symbol := by
  constructor
  · intro h
    unfold unaryOp? at h
    split at h <;> cases h <;> rfl
  · rintro rfl
    cases op <;> rfl

theorem binaryOp?_eq_some_iff {k : TokenKind} {op : BinaryOp} :
    binaryOp? k = some op ↔ k = .symbol op.symbol := by
  constructor
  · intro h
    unfold binaryOp? at h
    split at h <;> cases h <;> rfl
  · rintro rfl
    cases op <;> rfl

/-! ## Single tokens -/

theorem readName_ok {place : Place} {ts : List Token} {p : Parsed ts.length Ident}
    (h : readName place ts = .ok p) :
    ∃ t, ts = t :: p.rest ∧ t.kind = .name p.value.name ∧ t.pos = p.value.pos := by
  unfold readName at h
  split at h
  · cases h
  rename_i t rest
  split at h <;> cases h
  exact ⟨t, rfl, ‹_›, rfl⟩

theorem readSymbol_ok {s : Symbol} {place : Place} {ts : List Token} {p : Parsed ts.length Unit}
    (h : readSymbol s place ts = .ok p) : ∃ t, ts = t :: p.rest ∧ t.kind = .symbol s := by
  unfold readSymbol at h
  split at h
  · cases h
  rename_i t rest
  split at h <;> cases h
  exact ⟨t, rfl, ‹_›⟩

/-- The reader gives the tree and leaves the rest. -/
def Gives {α : Type} {n : Nat} (read : Except SyntaxError (Parsed n α)) (a : α)
    (rest : List Token) : Prop :=
  ∃ p, read = .ok p ∧ p.value = a ∧ p.rest = rest

theorem gives_iff {α : Type} {n : Nat} {read : Except SyntaxError (Parsed n α)} {p : Parsed n α} :
    Gives read p.value p.rest ↔ read = .ok p := by
  constructor
  · rintro ⟨⟨value, rest, shorter⟩, eq, rfl, rfl⟩
    exact eq
  · intro eq
    exact ⟨p, eq, rfl, rfl⟩

/-- The kinds of tokens that go on with an operand. -/
def TokenKind.isPostfix : TokenKind → Bool
  | .symbol .dot | .symbol .leftParen | .symbol .leftBracket | .symbol .leftBrace => true
  | _ => false

/-- No operator that binds at least as tightly comes next. -/
def Stops (least : Nat) (ts : List Token) : Prop :=
  ∀ op, binaryOp? (kindAt ts) = some op → op.precedence < least

/-! ## The rules -/

mutual

/-- An operand, and the operators after it that bind at least as tightly. -/
inductive BinaryReads : Nat → List Token → Expr → List Token → Prop
  | operation {least : Nat} {left e : Expr} {ts middle rest : List Token}
      (operand : UnaryReads ts left middle) (climbs : ClimbReads least left middle e rest) :
      BinaryReads least ts e rest

/-- The operators after a left operand, each with its right operand. -/
inductive ClimbReads : Nat → Expr → List Token → Expr → List Token → Prop
  | stops {least : Nat} {left : Expr} {ts : List Token} (stop : Stops least ts) :
      ClimbReads least left ts left ts
  | goesOn {least : Nat} {op : BinaryOp} {left right e : Expr} {t : Token}
      {ts middle rest : List Token} (operator : t.kind = .symbol op.symbol)
      (enough : least ≤ op.precedence) (operand : BinaryReads (op.precedence + 1) ts right middle)
      (climbs : ClimbReads least (.binary op left right) middle e rest) :
      ClimbReads least left (t :: ts) e rest

/-- Operators with one operand, and the operand. -/
inductive UnaryReads : List Token → Expr → List Token → Prop
  | primary {e : Expr} {ts rest : List Token} (first : unaryOp? (kindAt ts) = none)
      (operand : PrimaryReads ts e rest) : UnaryReads ts e rest
  | operator {op : UnaryOp} {e : Expr} {t : Token} {ts rest : List Token}
      (operator : t.kind = .symbol op.symbol) (operand : UnaryReads ts e rest) :
      UnaryReads (t :: ts) (.unary op e) rest

/-- An operand, and what is selected from it, applied to it or indexed in it. -/
inductive PrimaryReads : List Token → Expr → List Token → Prop
  | operand {base e : Expr} {ts middle rest : List Token} (operand : OperandReads ts base middle)
      (goesOn : PostfixReads base middle e rest) : PrimaryReads ts e rest

/-- What follows an operand.  An operand before a type assertion, an index or the body of a literal is
dropped. -/
inductive PostfixReads : Expr → List Token → Expr → List Token → Prop
  | stops {base : Expr} {ts : List Token} (stop : (kindAt ts).isPostfix = false) :
      PostfixReads base ts base ts
  | selector {base e : Expr} {s : String} {t u : Token} {ts rest : List Token}
      (dot : t.kind = .symbol .dot) (field : u.kind = .name s)
      (goesOn : PostfixReads (.selector base ⟨s, u.pos⟩) ts e rest) :
      PostfixReads base (t :: u :: ts) e rest
  | call {base e : Expr} {args : List Expr} {t : Token} {ts middle rest : List Token}
      (left : t.kind = .symbol .leftParen) (arguments : ArgumentsReads ts args middle)
      (goesOn : PostfixReads (.call base args) middle e rest) : PostfixReads base (t :: ts) e rest
  | assertion {base e : Expr} {t u : Token} {ts middle rest : List Token}
      (dot : t.kind = .symbol .dot) (left : u.kind = .symbol .leftParen)
      (bracket : Gives (readBracket ts) () middle)
      (goesOn : PostfixReads (.opaqueForm .typeAssertion) middle e rest) :
      PostfixReads base (t :: u :: ts) e rest
  | index {base e : Expr} {t : Token} {ts middle rest : List Token}
      (left : t.kind = .symbol .leftBracket) (bracket : Gives (readBracket ts) () middle)
      (goesOn : PostfixReads (.opaqueForm .indexExpression) middle e rest) :
      PostfixReads base (t :: ts) e rest
  | literal {base e : Expr} {t : Token} {ts middle rest : List Token}
      (left : t.kind = .symbol .leftBrace) (bracket : Gives (readBracket ts) () middle)
      (goesOn : PostfixReads (.opaqueForm .compositeLiteral) middle e rest) :
      PostfixReads base (t :: ts) e rest

/-- Arguments up to the closing parenthesis, which is taken. -/
inductive ArgumentsReads : List Token → List Expr → List Token → Prop
  | none {t : Token} {ts : List Token} (right : t.kind = .symbol .rightParen) :
      ArgumentsReads (t :: ts) [] ts
  | last {e : Expr} {t : Token} {ts middle rest : List Token}
      (first : kindAt ts ≠ .symbol .rightParen) (argument : BinaryReads 1 ts e middle)
      (dots : skipSymbol .ellipsis middle = t :: rest) (right : t.kind = .symbol .rightParen) :
      ArgumentsReads ts [e] rest
  | cons {e : Expr} {es : List Expr} {t : Token} {ts middle more rest : List Token}
      (first : kindAt ts ≠ .symbol .rightParen) (argument : BinaryReads 1 ts e middle)
      (dots : skipSymbol .ellipsis middle = t :: more) (comma : t.kind = .symbol .comma)
      (arguments : ArgumentsReads more es rest) : ArgumentsReads ts (e :: es) rest

/-- A single token, an expression in parentheses, or a type. -/
inductive OperandReads : List Token → Expr → List Token → Prop
  | atom {e : Expr} {t : Token} {ts : List Token} (atom : atom? t = some e) :
      OperandReads (t :: ts) e ts
  | paren {e : Expr} {t u : Token} {ts rest : List Token} (left : t.kind = .symbol .leftParen)
      (inner : BinaryReads 1 ts e (u :: rest)) (right : u.kind = .symbol .rightParen) :
      OperandReads (t :: ts) (.paren e) rest
  | type {c : Construct} {t : Token} {ts rest : List Token} (compound : atom? t = none)
      (other : t.kind ≠ .symbol .leftParen)
      (skipped : skipOperand? t.kind ts = some (.ok (c, rest))) :
      OperandReads (t :: ts) (.opaqueForm c) rest

end

/-- Expressions with commas between them. -/
inductive ExprsReads : List Token → List Expr → List Token → Prop
  | one {e : Expr} {ts rest : List Token} (value : BinaryReads 1 ts e rest)
      (ends : kindAt rest ≠ .symbol .comma) : ExprsReads ts [e] rest
  | cons {e : Expr} {es : List Expr} {t : Token} {ts more rest : List Token}
      (value : BinaryReads 1 ts e (t :: more)) (comma : t.kind = .symbol .comma)
      (values : ExprsReads more es rest) : ExprsReads ts (e :: es) rest

/-! ## What the readers do -/

mutual

theorem reads_of_readBinary {least : Nat} {ts : List Token} {p : Parsed ts.length Expr}
    (h : readBinary least ts = .ok p) : BinaryReads least ts p.value p.rest := by
  rw [readBinary] at h
  split at h
  · cases h
  rename_i left unary
  split at h <;> cases h
  rename_i whole climbed
  have shorter := left.shorter
  exact .operation (reads_of_readUnary unary) (reads_of_climb climbed)
termination_by 5 * ts.length + 3
decreasing_by all_goals omega

theorem reads_of_climb {least : Nat} {left : Expr} {ts : List Token}
    {p : Parsed (ts.length + 1) Expr} (h : climb least left ts = .ok p) :
    ClimbReads least left ts p.value p.rest := by
  match ts, p, h with
  | [], p, h =>
    rw [climb] at h
    cases h
    exact .stops fun op next => by cases next
  | t :: rest, p, h =>
    rw [climb.eq_def] at h
    dsimp only at h
    split at h
    · rename_i none
      cases h
      refine .stops fun op next => ?_
      cases none.symm.trans next
    rename_i op operator
    split at h
    · rename_i less
      cases h
      refine .stops fun op' next => ?_
      obtain rfl : op = op' := Option.some.inj (operator.symm.trans next)
      exact less
    rename_i enough
    split at h
    · cases h
    rename_i right binary
    split at h <;> cases h
    rename_i whole climbed
    have shorter := right.shorter
    exact .goesOn (binaryOp?_eq_some_iff.mp operator) (Nat.not_lt.mp enough)
      (reads_of_readBinary binary) (reads_of_climb climbed)
termination_by 5 * ts.length + 4
decreasing_by all_goals simp only [List.length_cons]; omega

theorem reads_of_readUnary {ts : List Token} {p : Parsed ts.length Expr}
    (h : readUnary ts = .ok p) : UnaryReads ts p.value p.rest := by
  match ts, p, h with
  | [], p, h =>
    rw [readUnary] at h
    exact .primary rfl (reads_of_readPrimary h)
  | t :: rest, p, h =>
    rw [readUnary] at h
    split at h
    · rename_i first
      exact .primary first (reads_of_readPrimary h)
    rename_i op operator
    split at h <;> cases h
    rename_i operand unary
    exact .operator (unaryOp?_eq_some_iff.mp operator) (reads_of_readUnary unary)
termination_by 5 * ts.length + 2
decreasing_by all_goals first | omega | (simp only [List.length_cons]; omega)

theorem reads_of_readPrimary {ts : List Token} {p : Parsed ts.length Expr}
    (h : readPrimary ts = .ok p) : PrimaryReads ts p.value p.rest := by
  rw [readPrimary] at h
  split at h
  · cases h
  rename_i operand operandRead
  split at h <;> cases h
  rename_i whole postfixed
  have shorter := operand.shorter
  exact .operand (reads_of_readOperand operandRead) (reads_of_readPostfix postfixed)
termination_by 5 * ts.length + 1
decreasing_by all_goals omega

theorem reads_of_readPostfix {base : Expr} {ts : List Token} {p : Parsed (ts.length + 1) Expr}
    (h : readPostfix base ts = .ok p) : PostfixReads base ts p.value p.rest := by
  match ts, p, h with
  | [], p, h =>
    rw [readPostfix] at h
    cases h
    exact .stops rfl
  | t :: rest, p, h =>
    rw [readPostfix.eq_def] at h
    dsimp only at h
    split at h
    · -- a selected name, or a type assertion
      rename_i dot
      match eq : rest, p, h with
      | [], p, h => cases h
      | u :: inner, p, h =>
        have size : rest.length = inner.length + 1 := by rw [eq, List.length_cons]
        dsimp only at h
        split at h
        · rename_i left
          split at h
          · cases h
          rename_i bracket bracketRead
          split at h <;> cases h
          rename_i whole postfixed
          have shorter := bracket.shorter
          exact .assertion dot left ⟨bracket, bracketRead, rfl, rfl⟩ (reads_of_readPostfix postfixed)
        · split at h
          · cases h
          rename_i field fieldRead
          split at h <;> cases h
          rename_i whole postfixed
          have shorter := field.shorter
          obtain ⟨⟨s, pos⟩, after, bound⟩ := field
          obtain ⟨v, split, name, rfl⟩ := readName_ok fieldRead
          obtain ⟨rfl, rfl⟩ := List.cons.inj split
          exact .selector dot name (reads_of_readPostfix postfixed)
    · -- arguments
      rename_i left
      split at h
      · cases h
      rename_i args argsRead
      split at h <;> cases h
      rename_i whole postfixed
      have shorter := args.shorter
      exact .call left (reads_of_readArguments argsRead) (reads_of_readPostfix postfixed)
    · -- an index
      rename_i left
      split at h
      · cases h
      rename_i bracket bracketRead
      split at h <;> cases h
      rename_i whole postfixed
      have shorter := bracket.shorter
      exact .index left ⟨bracket, bracketRead, rfl, rfl⟩ (reads_of_readPostfix postfixed)
    · -- the body of a literal
      rename_i left
      split at h
      · cases h
      rename_i bracket bracketRead
      split at h <;> cases h
      rename_i whole postfixed
      have shorter := bracket.shorter
      exact .literal left ⟨bracket, bracketRead, rfl, rfl⟩ (reads_of_readPostfix postfixed)
    · rename_i dot left index body
      cases h
      apply PostfixReads.stops
      show t.kind.isPostfix = false
      unfold TokenKind.isPostfix
      split <;> first | contradiction | rfl
termination_by 5 * ts.length + 4
decreasing_by all_goals simp only [List.length_cons] at *; omega

theorem reads_of_readArguments {ts : List Token} {p : Parsed ts.length (List Expr)}
    (h : readArguments ts = .ok p) : ArgumentsReads ts p.value p.rest := by
  match ts, p, h with
  | [], p, h =>
    rw [readArguments] at h
    cases h
  | t :: rest, p, h =>
    rw [readArguments.eq_def] at h
    dsimp only at h
    split at h
    · rename_i right
      cases h
      exact .none right
    rename_i first
    split at h
    · cases h
    rename_i arg argRead
    have argument := reads_of_readBinary argRead
    split at h
    · cases h
    rename_i u rest' dots
    have shorter : rest'.length < (t :: rest).length := by
      have suffix := skipSymbol_suffix .ellipsis arg.rest
      rw [dots] at suffix
      exact Nat.lt_trans suffix.length_le arg.shorter
    split at h
    · rename_i comma
      split at h <;> cases h
      rename_i args argsRead
      exact .cons first argument dots comma (reads_of_readArguments argsRead)
    · split at h <;> cases h
      rename_i right
      exact .last first argument dots right
termination_by 5 * ts.length + 4
decreasing_by all_goals omega

theorem reads_of_readOperand {ts : List Token} {p : Parsed ts.length Expr}
    (h : readOperand ts = .ok p) : OperandReads ts p.value p.rest := by
  match ts, p, h with
  | [], p, h =>
    rw [readOperand] at h
    cases h
  | t :: rest, p, h =>
    rw [readOperand] at h
    split at h
    · rename_i e atom
      cases h
      exact .atom atom
    rename_i compound
    split at h
    · rename_i left
      split at h
      · cases h
      rename_i inner innerRead
      split at h <;> cases h
      rename_i close closeRead
      have inside := reads_of_readBinary innerRead
      obtain ⟨u, after, right⟩ := readSymbol_ok closeRead
      rw [after] at inside
      exact .paren left inside right
    · rename_i other
      split at h
      · cases h
      · cases h
      rename_i construct rest' skipped
      cases h
      exact .type compound other skipped
termination_by 5 * ts.length
decreasing_by simp only [List.length_cons]; omega

end

theorem reads_of_readExprs {ts : List Token} {p : Parsed ts.length (List Expr)}
    (h : readExprs ts = .ok p) : ExprsReads ts p.value p.rest := by
  rw [readExprs.eq_def] at h
  split at h
  · cases h
  rename_i first firstRead
  have value := reads_of_readBinary firstRead
  split at h
  · rename_i last
    cases h
    rw [last] at value
    exact .one value fun comma => by cases comma
  rename_i t rest left
  have shorter : rest.length < ts.length := by
    have := first.shorter
    rw [left, List.length_cons] at this
    omega
  rw [left] at value
  split at h
  · rename_i comma
    split at h <;> cases h
    rename_i values valuesRead
    exact .cons value comma (reads_of_readExprs valuesRead)
  · rename_i other
    cases h
    exact .one value other
termination_by ts.length

/-! ## What the readers give -/

section Steps

variable {least : Nat} {ts middle rest : List Token} {t u : Token} {e v : Expr}

theorem readBinary_gives (operand : Gives (readUnary ts) e middle)
    (climbs : Gives (climb least e middle) v rest) : Gives (readBinary least ts) v rest := by
  obtain ⟨p, eq, rfl, rfl⟩ := operand
  obtain ⟨q, eq', rfl, rfl⟩ := climbs
  refine ⟨p.followedBy q, ?_, rfl, rfl⟩
  rw [readBinary]
  simp only [eq, eq']

theorem climb_stops (stops : Stops least ts) : Gives (climb least e ts) e ts := by
  cases ts with
  | nil => exact ⟨.here e [], by rw [climb], rfl, rfl⟩
  | cons t ts =>
    refine ⟨.here e (t :: ts), ?_, rfl, rfl⟩
    rw [climb.eq_def]
    dsimp only
    split
    · rfl
    · rename_i op operator
      rw [if_pos (stops op operator)]

theorem climb_goesOn {op : BinaryOp} {right : Expr} (operator : t.kind = .symbol op.symbol)
    (enough : least ≤ op.precedence) (operand : Gives (readBinary (op.precedence + 1) ts) right middle)
    (climbs : Gives (climb least (.binary op e right) middle) v rest) :
    Gives (climb least e (t :: ts)) v rest := by
  obtain ⟨p, eq, rfl, rfl⟩ := operand
  obtain ⟨q, eq', rfl, rfl⟩ := climbs
  refine ⟨((p.followedBy q).past t).loosen, ?_, rfl, rfl⟩
  rw [climb.eq_def]
  simp only [binaryOp?_eq_some_iff.mpr operator, if_neg (Nat.not_lt.mpr enough), eq, eq']

theorem readUnary_operator {op : UnaryOp} (operator : t.kind = .symbol op.symbol)
    (operand : Gives (readUnary ts) e rest) : Gives (readUnary (t :: ts)) (.unary op e) rest := by
  obtain ⟨p, eq, rfl, rfl⟩ := operand
  refine ⟨(p.map (.unary op)).past t, ?_, rfl, rfl⟩
  rw [readUnary]
  simp only [unaryOp?_eq_some_iff.mpr operator, eq]

theorem readUnary_primary (first : unaryOp? (kindAt ts) = none)
    (primary : Gives (readPrimary ts) e rest) : Gives (readUnary ts) e rest := by
  cases ts with
  | nil =>
    rw [readUnary]
    exact primary
  | cons t ts =>
    have first : unaryOp? t.kind = none := first
    rw [readUnary]
    simp only [first]
    exact primary

theorem readPrimary_gives (operand : Gives (readOperand ts) e middle)
    (goesOn : Gives (readPostfix e middle) v rest) : Gives (readPrimary ts) v rest := by
  obtain ⟨p, eq, rfl, rfl⟩ := operand
  obtain ⟨q, eq', rfl, rfl⟩ := goesOn
  refine ⟨p.followedBy q, ?_, rfl, rfl⟩
  rw [readPrimary]
  simp only [eq, eq']

theorem readPostfix_stops (stops : (kindAt ts).isPostfix = false) :
    Gives (readPostfix e ts) e ts := by
  cases ts with
  | nil => exact ⟨.here e [], by rw [readPostfix], rfl, rfl⟩
  | cons t ts =>
    have stops : t.kind.isPostfix = false := stops
    refine ⟨.here e (t :: ts), ?_, rfl, rfl⟩
    rw [readPostfix.eq_def]
    dsimp only
    split
    · rename_i kind
      rw [kind] at stops
      cases stops
    · rename_i kind
      rw [kind] at stops
      cases stops
    · rename_i kind
      rw [kind] at stops
      cases stops
    · rename_i kind
      rw [kind] at stops
      cases stops
    · rfl

theorem readName_gives {s : String} {place : Place} (kind : t.kind = .name s) :
    readName place (t :: ts) = .ok (.one ⟨s, t.pos⟩ t ts) := by
  simp only [readName, kind]

theorem readPostfix_selector {s : String} (dot : t.kind = .symbol .dot) (field : u.kind = .name s)
    (goesOn : Gives (readPostfix (.selector e ⟨s, u.pos⟩) ts) v rest) :
    Gives (readPostfix e (t :: u :: ts)) v rest := by
  obtain ⟨q, eq, rfl, rfl⟩ := goesOn
  refine ⟨(((Parsed.one (⟨s, u.pos⟩ : Ident) u ts).followedBy q).past t).loosen, ?_, rfl, rfl⟩
  have no_bracket : u.kind ≠ .symbol .leftParen := by
    rw [field]
    intro kind
    cases kind
  rw [readPostfix.eq_def]
  simp only [dot, if_neg no_bracket, readName_gives field, Parsed.one_value, Parsed.one_rest, eq]

theorem readPostfix_call {args : List Expr} (left : t.kind = .symbol .leftParen)
    (arguments : Gives (readArguments ts) args middle)
    (goesOn : Gives (readPostfix (.call e args) middle) v rest) :
    Gives (readPostfix e (t :: ts)) v rest := by
  obtain ⟨p, eq, rfl, rfl⟩ := arguments
  obtain ⟨q, eq', rfl, rfl⟩ := goesOn
  refine ⟨((p.followedBy q).past t).loosen, ?_, rfl, rfl⟩
  rw [readPostfix.eq_def]
  simp only [left, eq, eq']

theorem readPostfix_assertion (dot : t.kind = .symbol .dot) (left : u.kind = .symbol .leftParen)
    (bracket : Gives (readBracket ts) () middle)
    (goesOn : Gives (readPostfix (.opaqueForm .typeAssertion) middle) v rest) :
    Gives (readPostfix e (t :: u :: ts)) v rest := by
  obtain ⟨p, eq, -, rfl⟩ := bracket
  obtain ⟨q, eq', rfl, rfl⟩ := goesOn
  refine ⟨(((p.followedBy q).past u).past t).loosen, ?_, rfl, rfl⟩
  rw [readPostfix.eq_def]
  simp only [dot, if_pos left, eq, eq']

theorem readPostfix_index (left : t.kind = .symbol .leftBracket)
    (bracket : Gives (readBracket ts) () middle)
    (goesOn : Gives (readPostfix (.opaqueForm .indexExpression) middle) v rest) :
    Gives (readPostfix e (t :: ts)) v rest := by
  obtain ⟨p, eq, -, rfl⟩ := bracket
  obtain ⟨q, eq', rfl, rfl⟩ := goesOn
  refine ⟨((p.followedBy q).past t).loosen, ?_, rfl, rfl⟩
  rw [readPostfix.eq_def]
  simp only [left, eq, eq']

theorem readPostfix_literal (left : t.kind = .symbol .leftBrace)
    (bracket : Gives (readBracket ts) () middle)
    (goesOn : Gives (readPostfix (.opaqueForm .compositeLiteral) middle) v rest) :
    Gives (readPostfix e (t :: ts)) v rest := by
  obtain ⟨p, eq, -, rfl⟩ := bracket
  obtain ⟨q, eq', rfl, rfl⟩ := goesOn
  refine ⟨((p.followedBy q).past t).loosen, ?_, rfl, rfl⟩
  rw [readPostfix.eq_def]
  simp only [left, eq, eq']

theorem readArguments_none (right : t.kind = .symbol .rightParen) :
    Gives (readArguments (t :: ts)) [] ts := by
  refine ⟨.one [] t ts, ?_, rfl, rfl⟩
  rw [readArguments.eq_def]
  simp only [if_pos right]

theorem readArguments_last (first : kindAt ts ≠ .symbol .rightParen)
    (argument : Gives (readBinary 1 ts) e middle) (dots : skipSymbol .ellipsis middle = t :: rest)
    (right : t.kind = .symbol .rightParen) : Gives (readArguments ts) [e] rest := by
  obtain ⟨p, eq, rfl, rfl⟩ := argument
  cases ts with
  | nil => exact absurd p.shorter (Nat.not_lt_zero _)
  | cons u ts =>
    have first : u.kind ≠ .symbol .rightParen := first
    rw [readArguments.eq_def]
    simp only [if_neg first, eq]
    split
    · rename_i none
      cases dots.symm.trans none
    rename_i u' rest' split
    cases dots.symm.trans split
    rw [if_neg (by rw [right]; decide), if_pos right]
    exact ⟨_, rfl, rfl, rfl⟩

theorem readArguments_cons {more : List Token} {es : List Expr}
    (first : kindAt ts ≠ .symbol .rightParen) (argument : Gives (readBinary 1 ts) e middle)
    (dots : skipSymbol .ellipsis middle = t :: more) (comma : t.kind = .symbol .comma)
    (arguments : Gives (readArguments more) es rest) : Gives (readArguments ts) (e :: es) rest := by
  obtain ⟨p, eq, rfl, rfl⟩ := argument
  obtain ⟨q, eq', rfl, rfl⟩ := arguments
  cases ts with
  | nil => exact absurd p.shorter (Nat.not_lt_zero _)
  | cons u ts =>
    have first : u.kind ≠ .symbol .rightParen := first
    rw [readArguments.eq_def]
    simp only [if_neg first, eq]
    split
    · rename_i none
      cases dots.symm.trans none
    rename_i u' rest' split
    cases dots.symm.trans split
    rw [if_pos comma]
    simp only [eq']
    exact ⟨_, rfl, rfl, rfl⟩

theorem readOperand_atom (atom : atom? t = some e) : Gives (readOperand (t :: ts)) e ts := by
  refine ⟨.one e t ts, ?_, rfl, rfl⟩
  rw [readOperand.eq_def]
  simp only [atom]

theorem readSymbol_gives {s : Symbol} {place : Place} (kind : t.kind = .symbol s) :
    readSymbol s place (t :: ts) = .ok (.one () t ts) := by
  simp only [readSymbol, if_pos kind]

theorem readOperand_paren (left : t.kind = .symbol .leftParen)
    (inner : Gives (readBinary 1 ts) e (u :: rest)) (right : u.kind = .symbol .rightParen) :
    Gives (readOperand (t :: ts)) (.paren e) rest := by
  obtain ⟨p, eq, rfl, after⟩ := inner
  have no_atom : atom? t = none := by simp only [atom?, left]
  have closed : Gives (readSymbol .rightParen .parentheses p.rest) () rest := by
    rw [after]
    exact ⟨_, readSymbol_gives right, rfl, rfl⟩
  obtain ⟨q, eq', -, rfl⟩ := closed
  rw [readOperand.eq_def]
  simp only [no_atom, if_pos left, eq, eq']
  exact ⟨_, rfl, rfl, rfl⟩

theorem readOperand_type {c : Construct} (compound : atom? t = none)
    (other : t.kind ≠ .symbol .leftParen) (skipped : skipOperand? t.kind ts = some (.ok (c, rest))) :
    Gives (readOperand (t :: ts)) (.opaqueForm c) rest := by
  rw [readOperand.eq_def]
  simp only [compound, if_neg other]
  split <;> rename_i again <;> rw [skipped] at again <;> cases again
  exact ⟨_, rfl, rfl, rfl⟩

theorem readExprs_one (value : Gives (readBinary 1 ts) e rest)
    (ends : kindAt rest ≠ .symbol .comma) : Gives (readExprs ts) [e] rest := by
  obtain ⟨p, eq, rfl, rfl⟩ := value
  have eq : readExpr ts = .ok p := eq
  rw [readExprs.eq_def]
  simp only [eq]
  split
  · rename_i none
    exact ⟨_, rfl, rfl, none.symm⟩
  · rename_i t rest left
    have other : t.kind ≠ .symbol .comma := by
      rw [left] at ends
      exact ends
    rw [if_neg other]
    exact ⟨_, rfl, rfl, left.symm⟩

theorem readExprs_cons {es : List Expr} (value : Gives (readBinary 1 ts) e (t :: middle))
    (comma : t.kind = .symbol .comma) (more : Gives (readExprs middle) es rest) :
    Gives (readExprs ts) (e :: es) rest := by
  obtain ⟨p, eq, rfl, left⟩ := value
  have eq : readExpr ts = .ok p := eq
  obtain ⟨q, eq', rfl, rfl⟩ := more
  rw [readExprs.eq_def]
  simp only [eq]
  split
  · rename_i none
    cases none.symm.trans left
  · rename_i t rest first
    cases first.symm.trans left
    simp only [if_pos comma, eq']
    exact ⟨_, rfl, rfl, rfl⟩

end Steps

/-! ## The rules are those of the readers -/

mutual

theorem BinaryReads.gives {least : Nat} {e : Expr} {ts rest : List Token}
    (h : BinaryReads least ts e rest) : Gives (readBinary least ts) e rest :=
  match h with
  | .operation operand climbs => readBinary_gives operand.gives climbs.gives

theorem ClimbReads.gives {least : Nat} {left e : Expr} {ts rest : List Token}
    (h : ClimbReads least left ts e rest) : Gives (climb least left ts) e rest :=
  match h with
  | .stops stop => climb_stops stop
  | .goesOn operator enough operand climbs =>
    climb_goesOn operator enough operand.gives climbs.gives

theorem UnaryReads.gives {e : Expr} {ts rest : List Token} (h : UnaryReads ts e rest) :
    Gives (readUnary ts) e rest :=
  match h with
  | .primary first operand => readUnary_primary first operand.gives
  | .operator operator operand => readUnary_operator operator operand.gives

theorem PrimaryReads.gives {e : Expr} {ts rest : List Token} (h : PrimaryReads ts e rest) :
    Gives (readPrimary ts) e rest :=
  match h with
  | .operand operand goesOn => readPrimary_gives operand.gives goesOn.gives

theorem PostfixReads.gives {base e : Expr} {ts rest : List Token}
    (h : PostfixReads base ts e rest) : Gives (readPostfix base ts) e rest :=
  match h with
  | .stops stop => readPostfix_stops stop
  | .selector dot field goesOn => readPostfix_selector dot field goesOn.gives
  | .call left arguments goesOn => readPostfix_call left arguments.gives goesOn.gives
  | .assertion dot left bracket goesOn => readPostfix_assertion dot left bracket goesOn.gives
  | .index left bracket goesOn => readPostfix_index left bracket goesOn.gives
  | .literal left bracket goesOn => readPostfix_literal left bracket goesOn.gives

theorem ArgumentsReads.gives {es : List Expr} {ts rest : List Token}
    (h : ArgumentsReads ts es rest) : Gives (readArguments ts) es rest :=
  match h with
  | .none right => readArguments_none right
  | .last first argument dots right => readArguments_last first argument.gives dots right
  | .cons first argument dots comma arguments =>
    readArguments_cons first argument.gives dots comma arguments.gives

theorem OperandReads.gives {e : Expr} {ts rest : List Token} (h : OperandReads ts e rest) :
    Gives (readOperand ts) e rest :=
  match h with
  | .atom atom => readOperand_atom atom
  | .paren left inner right => readOperand_paren left inner.gives right
  | .type compound other skipped => readOperand_type compound other skipped

end

theorem ExprsReads.gives {es : List Expr} {ts rest : List Token} (h : ExprsReads ts es rest) :
    Gives (readExprs ts) es rest := by
  induction h with
  | one value ends => exact readExprs_one value.gives ends
  | cons value comma values ih => exact readExprs_cons value.gives comma ih

/-- An expression is read by the rules, and by nothing else. -/
theorem readBinary_gives_iff {least : Nat} {e : Expr} {ts rest : List Token} :
    Gives (readBinary least ts) e rest ↔ BinaryReads least ts e rest := by
  refine ⟨?_, BinaryReads.gives⟩
  rintro ⟨p, eq, rfl, rfl⟩
  exact reads_of_readBinary eq

end EnumCodec
