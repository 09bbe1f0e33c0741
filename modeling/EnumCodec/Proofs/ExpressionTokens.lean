import EnumCodec.Proofs.BracketDepth
import EnumCodec.Proofs.ExpressionGrammar

/-!
# The tokens of an expression

`Expr.Written e ts` says that the tokens are those of the expression, from left to right; it is what a
reader of expressions is measured by.  `Expr.WellBound` says that the operators of the tree bind as
their precedences tell, with no parentheses but those that the tree has.

* `Expr.Written.isEnclosed` — an expression closes its brackets.
* `ReadAs` — an expression has been read up to some place; one rule for each way to go on.
* `readBinary_written` — what is read is written in the tokens that are used up, is well bound, and
  ends where no operator goes on with it.
-/

set_option autoImplicit false

namespace EnumCodec

/-! ## Operators -/

theorem UnaryOp.isPlain (op : UnaryOp) : (TokenKind.symbol op.symbol).isPlain = true := by
  cases op <;> rfl

theorem BinaryOp.isPlain (op : BinaryOp) : (TokenKind.symbol op.symbol).isPlain = true := by
  cases op <;> rfl

/-! ## The tokens of a tree -/

/-- The dots after an argument, which leave no trace in the tree. -/
inductive Dots : List Token → Prop
  | absent : Dots []
  | present {t : Token} (h : t.kind = .symbol .ellipsis) : Dots [t]

theorem exists_dots {ts rest : List Token} (h : skipSymbol .ellipsis ts = rest) :
    ∃ dots, ts = dots ++ rest ∧ Dots dots := by
  unfold skipSymbol at h
  split at h
  · exact ⟨[], h, .absent⟩
  rename_i t after
  split at h
  · rename_i kind
    exact ⟨[t], congrArg (t :: ·) h, .present kind⟩
  · exact ⟨[], h, .absent⟩

/-- Dots are passed over. -/
theorem skipSymbol_of_dots {t : Token} {ts dots : List Token} (h : Dots dots)
    (other : t.kind ≠ .symbol .ellipsis) : skipSymbol .ellipsis (dots ++ t :: ts) = t :: ts := by
  cases h with
  | absent => exact if_neg other
  | present kind => exact if_pos kind

mutual

/-- The tokens are those of the expression, from left to right.  What is kept of an expression as an
opaque form stands for some enclosed tokens; all else stands for its own tokens. -/
inductive Expr.Written : Expr → List Token → Prop
  | integer {t : Token} {s : String} (h : t.kind = .integer s) : Expr.Written (.integer s) [t]
  | float {t : Token} {s : String} (h : t.kind = .float s) : Expr.Written (.float s) [t]
  | imaginary {t : Token} {s : String} (h : t.kind = .imaginary s) :
      Expr.Written (.imaginary s) [t]
  | rune {t : Token} {code : Text.CharNumber} (h : t.kind = .rune code) :
      Expr.Written (.rune code) [t]
  | string {t : Token} {s : String} (h : t.kind = .string s) : Expr.Written (.string s) [t]
  | name {t : Token} {s : String} (h : t.kind = .name s) : Expr.Written (.name ⟨s, t.pos⟩) [t]
  | selector {base : Expr} {ts : List Token} {dot t : Token} {s : String}
      (base_tokens : Expr.Written base ts) (dot_kind : dot.kind = .symbol .dot)
      (field : t.kind = .name s) : Expr.Written (.selector base ⟨s, t.pos⟩) (ts ++ [dot, t])
  | paren {inner : Expr} {ts : List Token} {left right : Token}
      (left_kind : left.kind = .symbol .leftParen) (inner_tokens : Expr.Written inner ts)
      (right_kind : right.kind = .symbol .rightParen) :
      Expr.Written (.paren inner) (left :: ts ++ [right])
  | unary {op : UnaryOp} {operand : Expr} {t : Token} {ts : List Token}
      (operator : t.kind = .symbol op.symbol) (operand_tokens : Expr.Written operand ts) :
      Expr.Written (.unary op operand) (t :: ts)
  | binary {op : BinaryOp} {left right : Expr} {t : Token} {ts us : List Token}
      (left_tokens : Expr.Written left ts) (operator : t.kind = .symbol op.symbol)
      (right_tokens : Expr.Written right us) : Expr.Written (.binary op left right) (ts ++ t :: us)
  | call {callee : Expr} {args : List Expr} {ts us : List Token} {left right : Token}
      (callee_tokens : Expr.Written callee ts) (left_kind : left.kind = .symbol .leftParen)
      (args_tokens : ArgumentsWritten args us) (right_kind : right.kind = .symbol .rightParen) :
      Expr.Written (.call callee args) (ts ++ left :: us ++ [right])
  | opaqueForm {c : Construct} {ts : List Token} (some_tokens : ts ≠ [])
      (enclosed : IsEnclosed ts) : Expr.Written (.opaqueForm c) ts

/-- The tokens are those of the arguments, with commas between them.  Dots after an argument and a
comma after the last one leave no trace. -/
inductive ArgumentsWritten : List Expr → List Token → Prop
  | nil : ArgumentsWritten [] []
  | last {e : Expr} {ts dots : List Token} (tokens : Expr.Written e ts) (dots_tokens : Dots dots) :
      ArgumentsWritten [e] (ts ++ dots)
  | cons {e : Expr} {es : List Expr} {ts dots us : List Token} {comma : Token}
      (tokens : Expr.Written e ts) (dots_tokens : Dots dots)
      (comma_kind : comma.kind = .symbol .comma) (more : ArgumentsWritten es us) :
      ArgumentsWritten (e :: es) (ts ++ dots ++ comma :: us)

end

theorem Dots.isEnclosed {ts : List Token} (h : Dots ts) : IsEnclosed ts := by
  cases h with
  | absent => exact .nil
  | present kind => exact .plain (by rw [kind]; rfl)

theorem isEnclosed_parens {left right : Token} {ts : List Token} (opens : left.kind = .symbol .leftParen)
    (inner : IsEnclosed ts) (closes : right.kind = .symbol .rightParen) :
    IsEnclosed (left :: ts ++ [right]) :=
  .bracket (by rw [opens]; rfl) (inner.inside 1) (by rw [closes]; rfl)

mutual

/-- An expression closes its brackets. -/
theorem Expr.Written.isEnclosed {e : Expr} {ts : List Token} (h : e.Written ts) :
    IsEnclosed ts := by
  cases h with
  | integer kind | float kind | imaginary kind | rune kind | string kind | name kind =>
    exact .plain (by rw [kind]; rfl)
  | selector base dot field =>
    exact base.isEnclosed.append
      (.cons (by rw [dot]; rfl) (.plain (by rw [field]; rfl)))
  | paren left inner right => exact isEnclosed_parens left inner.isEnclosed right
  | unary operator operand => exact .cons (by rw [operator]; exact UnaryOp.isPlain _) operand.isEnclosed
  | binary left operator right =>
    exact left.isEnclosed.append (.cons (by rw [operator]; exact BinaryOp.isPlain _) right.isEnclosed)
  | call callee left args right =>
    rw [List.append_assoc]
    exact callee.isEnclosed.append (isEnclosed_parens left args.isEnclosed right)
  | opaqueForm some enclosed => exact enclosed

theorem ArgumentsWritten.isEnclosed {es : List Expr} {ts : List Token}
    (h : ArgumentsWritten es ts) : IsEnclosed ts := by
  cases h with
  | nil => exact .nil
  | last tokens dots => exact tokens.isEnclosed.append dots.isEnclosed
  | cons tokens dots comma more =>
    exact (tokens.isEnclosed.append dots.isEnclosed).append
      (.cons (by rw [comma]; rfl) more.isEnclosed)

end

theorem Expr.Written.ne_nil {e : Expr} {ts : List Token} (h : e.Written ts) : ts ≠ [] := by
  cases h with
  | opaqueForm some enclosed => exact some
  | _ => simp

/-! ## How tightly the parts are bound -/

namespace Expr

/-- The precedence of the operator with two operands that stands outermost, outside of
parentheses. -/
def precedence? : Expr → Option Nat
  | binary op _ _ => some op.precedence
  | _ => none

/-- The outermost operator with two operands, if there is one, binds at least as tightly. -/
def BindsFrom (least : Nat) (e : Expr) : Prop := ∀ q ∈ e.precedence?, least ≤ q

/-- No operator stands outermost. -/
def IsPrimary : Expr → Prop
  | unary .. | binary .. => False
  | _ => True

mutual

/-- The left operand of an operator binds at least as tightly as the operator, and its right operand
more tightly; the operand of an operator with one operand, and what is selected from or called, is
no operation with two operands, unless it stands in parentheses. -/
def WellBound : Expr → Prop
  | binary op left right =>
    left.BindsFrom op.precedence ∧ right.BindsFrom (op.precedence + 1) ∧
      left.WellBound ∧ right.WellBound
  | unary _ operand => operand.precedence? = none ∧ operand.WellBound
  | paren inner => inner.WellBound
  | selector base _ => base.IsPrimary ∧ base.WellBound
  | call callee args => callee.IsPrimary ∧ callee.WellBound ∧ AllWellBound args
  | integer _ | float _ | imaginary _ | rune _ | string _ | name _ | opaqueForm _ => True

/-- All of the expressions are well bound. -/
def AllWellBound : List Expr → Prop
  | [] => True
  | e :: es => e.WellBound ∧ AllWellBound es

end

theorem IsPrimary.precedence? {e : Expr} (h : e.IsPrimary) : e.precedence? = none := by
  cases e <;> first | rfl | cases h

end Expr

/-- The tokens are those of the expression, and it is well bound. -/
structure Expr.WellWritten (e : Expr) (ts : List Token) : Prop where
  written : e.Written ts
  bound : e.WellBound

/-! ## Reading on -/

/-- The tokens up to the rest are those of the expression, and it is well bound. -/
structure ReadAs (ts rest : List Token) (e : Expr) : Prop where
  tokens : ∃ taken, ts = taken ++ rest ∧ e.Written taken
  bound : e.WellBound

/-- The tokens up to the rest, a closing parenthesis at the end, are those of arguments, and these are
well bound. -/
structure ArgumentsReadAs (ts rest : List Token) (args : List Expr) : Prop where
  tokens : ∃ taken close, ts = taken ++ close :: rest ∧ close.kind = .symbol .rightParen ∧
    ArgumentsWritten args taken
  bound : Expr.AllWellBound args

namespace ReadAs

variable {ts rest rest' : List Token} {t u : Token} {e : Expr}

theorem one (written : e.Written [t]) (bound : e.WellBound) : ReadAs (t :: rest) rest e :=
  ⟨⟨[t], rfl, written⟩, bound⟩

theorem selector {s : String} (h : ReadAs ts (t :: u :: rest) e) (primary : e.IsPrimary)
    (dot : t.kind = .symbol .dot) (field : u.kind = .name s) :
    ReadAs ts rest (.selector e ⟨s, u.pos⟩) := by
  obtain ⟨⟨taken, rfl, written⟩, bound⟩ := h
  exact ⟨⟨taken ++ [t, u], by simp, .selector written dot field⟩, ⟨primary, bound⟩⟩

theorem call {args : List Expr} (h : ReadAs ts (t :: rest) e) (primary : e.IsPrimary)
    (left : t.kind = .symbol .leftParen) (more : ArgumentsReadAs rest rest' args) :
    ReadAs ts rest' (.call e args) := by
  obtain ⟨⟨taken, rfl, written⟩, bound⟩ := h
  obtain ⟨⟨taken', close, rfl, right, written'⟩, bound'⟩ := more
  exact ⟨⟨taken ++ t :: taken' ++ [close], by simp, .call written left written' right⟩,
    ⟨primary, bound, bound'⟩⟩

/-- What was read so far is kept by name only, with the tokens that are passed over after it. -/
theorem opaqueForm {c : Construct} (h : ReadAs ts rest e) (closed : ClosesBefore 0 rest rest') :
    ReadAs ts rest' (.opaqueForm c) := by
  obtain ⟨⟨taken, rfl, written⟩, -⟩ := h
  obtain ⟨taken', rfl, enclosed⟩ := closed
  refine ⟨⟨taken ++ taken', by simp, .opaqueForm ?_ (written.isEnclosed.append enclosed)⟩, trivial⟩
  simp [written.ne_nil]

theorem unary {op : UnaryOp} (operator : t.kind = .symbol op.symbol) (h : ReadAs ts rest e)
    (unbound : e.precedence? = none) : ReadAs (t :: ts) rest (.unary op e) := by
  obtain ⟨⟨taken, rfl, written⟩, bound⟩ := h
  exact ⟨⟨t :: taken, rfl, .unary operator written⟩, ⟨unbound, bound⟩⟩

theorem binary {op : BinaryOp} {right : Expr} (h : ReadAs ts (t :: rest) e)
    (left_binds : e.BindsFrom op.precedence) (operator : t.kind = .symbol op.symbol)
    (h' : ReadAs rest rest' right) (right_binds : right.BindsFrom (op.precedence + 1)) :
    ReadAs ts rest' (.binary op e right) := by
  obtain ⟨⟨taken, rfl, written⟩, bound⟩ := h
  obtain ⟨⟨taken', rfl, written'⟩, bound'⟩ := h'
  exact ⟨⟨taken ++ t :: taken', by simp, .binary written operator written'⟩,
    ⟨left_binds, right_binds, bound, bound'⟩⟩

theorem paren (left : t.kind = .symbol .leftParen) (h : ReadAs ts (u :: rest) e)
    (right : u.kind = .symbol .rightParen) : ReadAs (t :: ts) rest (.paren e) := by
  obtain ⟨⟨taken, rfl, written⟩, bound⟩ := h
  exact ⟨⟨t :: taken ++ [u], by simp, .paren left written right⟩, bound⟩

end ReadAs

/-! ## What is read -/

/-- A leaf is a token of its own. -/
theorem atom?_written {t : Token} {e : Expr} (h : atom? t = some e) :
    e.Written [t] ∧ e.WellBound ∧ e.IsPrimary := by
  unfold atom? at h
  split at h <;> cases h
  · exact ⟨.integer ‹_›, trivial, trivial⟩
  · exact ⟨.float ‹_›, trivial, trivial⟩
  · exact ⟨.imaginary ‹_›, trivial, trivial⟩
  · exact ⟨.rune ‹_›, trivial, trivial⟩
  · exact ⟨.string ‹_›, trivial, trivial⟩
  · exact ⟨.name ‹_›, trivial, trivial⟩

/-- A bracket and what is passed over up to the one that closes it. -/
theorem closesBefore_of_readBracket {t : Token} {ts rest : List Token} (opens : t.kind.opens = true)
    (bracket : Gives (readBracket ts) () rest) : ClosesBefore 0 (t :: ts) rest := by
  obtain ⟨p, read, -, rfl⟩ := bracket
  exact (readBracket_depth read).after (depthAfterOne?_opens opens)

mutual

theorem BinaryReads.spec {least : Nat} {e : Expr} {ts rest : List Token}
    (h : BinaryReads least ts e rest) :
    ReadAs ts rest e ∧ e.BindsFrom least ∧ Stops least rest := by
  match h with
  | .operation operand climbs =>
    obtain ⟨read, unbound⟩ := operand.spec
    refine climbs.spec read ?_ ?_
    · intro q hq
      rw [unbound] at hq
      cases hq
    · intro q hq
      rw [unbound] at hq
      cases hq

/-- What was read before stops where its outermost operator does, so that the operator that comes
next does not bind more tightly. -/
theorem ClimbReads.spec {least : Nat} {left e : Expr} {ts rest : List Token}
    (h : ClimbReads least left ts e rest) {all : List Token} (read : ReadAs all ts left)
    (binds : left.BindsFrom least) (stops : ∀ q ∈ left.precedence?, Stops (q + 1) ts) :
    ReadAs all rest e ∧ e.BindsFrom least ∧ Stops least rest := by
  match h with
  | .stops stop => exact ⟨read, binds, stop⟩
  | .goesOn operator enough operand climbs =>
    obtain ⟨read', binds', stops'⟩ := operand.spec
    refine climbs.spec (read.binary ?_ operator read' binds') ?_ ?_
    · intro q hq
      exact Nat.le_of_lt_succ (stops q hq _ (binaryOp?_eq_some_iff.mpr operator))
    · intro q hq
      cases hq
      exact enough
    · intro q hq
      cases hq
      exact stops'

theorem UnaryReads.spec {e : Expr} {ts rest : List Token} (h : UnaryReads ts e rest) :
    ReadAs ts rest e ∧ e.precedence? = none := by
  match h with
  | .primary _ operand =>
    obtain ⟨read, primary⟩ := operand.spec
    exact ⟨read, primary.precedence?⟩
  | .operator operator operand =>
    obtain ⟨read, unbound⟩ := operand.spec
    exact ⟨read.unary operator unbound, rfl⟩

theorem PrimaryReads.spec {e : Expr} {ts rest : List Token} (h : PrimaryReads ts e rest) :
    ReadAs ts rest e ∧ e.IsPrimary := by
  match h with
  | .operand operand goesOn =>
    obtain ⟨read, primary⟩ := operand.spec
    exact goesOn.spec read primary

theorem PostfixReads.spec {base e : Expr} {ts rest : List Token}
    (h : PostfixReads base ts e rest) {all : List Token} (read : ReadAs all ts base)
    (primary : base.IsPrimary) : ReadAs all rest e ∧ e.IsPrimary := by
  match h with
  | .stops _ => exact ⟨read, primary⟩
  | .selector dot field goesOn => exact goesOn.spec (read.selector primary dot field) trivial
  | .call left arguments goesOn =>
    exact goesOn.spec (read.call primary left arguments.spec) trivial
  | .assertion dot left bracket goesOn =>
    have closed := closesBefore_of_readBracket (by rw [left]; rfl) bracket
    have closed := closed.after (depthAfterOne?_plain (by rw [dot]; rfl))
    exact goesOn.spec (read.opaqueForm closed) trivial
  | .index left bracket goesOn =>
    have closed := closesBefore_of_readBracket (by rw [left]; rfl) bracket
    exact goesOn.spec (read.opaqueForm closed) trivial
  | .literal left bracket goesOn =>
    have closed := closesBefore_of_readBracket (by rw [left]; rfl) bracket
    exact goesOn.spec (read.opaqueForm closed) trivial

theorem ArgumentsReads.spec {es : List Expr} {ts rest : List Token}
    (h : ArgumentsReads ts es rest) : ArgumentsReadAs ts rest es := by
  match h with
  | .none right => exact ⟨⟨[], _, rfl, right, .nil⟩, trivial⟩
  | .last _ argument after right =>
    obtain ⟨⟨⟨taken, rfl, written⟩, bound⟩, -, -⟩ := argument.spec
    obtain ⟨dots, rfl, isDots⟩ := exists_dots after
    exact ⟨⟨taken ++ dots, _, by simp, right, .last written isDots⟩, ⟨bound, trivial⟩⟩
  | .cons _ argument after comma arguments =>
    obtain ⟨⟨⟨taken, rfl, written⟩, bound⟩, -, -⟩ := argument.spec
    obtain ⟨dots, rfl, isDots⟩ := exists_dots after
    obtain ⟨⟨more, close, rfl, right, writtenMore⟩, boundMore⟩ := arguments.spec
    exact ⟨⟨taken ++ dots ++ _ :: more, close, by simp, right,
      .cons written isDots comma writtenMore⟩, ⟨bound, boundMore⟩⟩

theorem OperandReads.spec {e : Expr} {ts rest : List Token} (h : OperandReads ts e rest) :
    ReadAs ts rest e ∧ e.IsPrimary := by
  match h with
  | .atom atom =>
    obtain ⟨written, bound, primary⟩ := atom?_written atom
    exact ⟨.one written bound, primary⟩
  | .paren left inner right =>
    obtain ⟨read, -, -⟩ := inner.spec
    exact ⟨read.paren left right, trivial⟩
  | .type _ _ skipped =>
    obtain ⟨taken, eq, enclosed⟩ := skipOperand?_depth skipped
    refine ⟨⟨⟨taken, eq, .opaqueForm ?_ enclosed⟩, trivial⟩, trivial⟩
    rintro rfl
    have fewer := (skipOperand?_suffix skipped).length_le
    have same := congrArg List.length eq
    simp only [List.nil_append, List.length_cons] at same
    omega

end

/-- What is read from a list of tokens is written in the tokens that are used up, leaf by leaf and
operator by operator: of the tokens of an expression only dots after an argument and a comma after the
last argument leave no trace, and what is kept as an opaque form.  Each operator binds as its
precedence tells, the outermost one at least as tightly as asked, and what comes next is no operator
that binds as tightly. -/
theorem readBinary_written {least : Nat} {ts : List Token} {p : Parsed ts.length Expr}
    (h : readBinary least ts = .ok p) :
    (∃ taken, ts = taken ++ p.rest ∧ p.value.Written taken) ∧ p.value.WellBound ∧
      p.value.BindsFrom least ∧ Stops least p.rest := by
  obtain ⟨read, binds, stops⟩ := (reads_of_readBinary h).spec
  exact ⟨read.tokens, read.bound, binds, stops⟩

/-- A token of the first line. -/
def tokenAt (column : Nat) (kind : TokenKind) : Token := ⟨kind, ⟨1, column⟩, []⟩

/-- The end of the text `a-b*f(x...,)-c)`, from its last parenthesis on. -/
def chainEnd : List Token :=
  [tokenAt 15 (.symbol .rightParen), tokenAt 16 .semicolon, tokenAt 16 .endOfText]

/-- The tokens of `a-b*f(x...,)-c)`. -/
def chainTokens : List Token :=
  [tokenAt 1 (.name "a"), tokenAt 2 (.symbol .minus), tokenAt 3 (.name "b"),
    tokenAt 4 (.symbol .star), tokenAt 5 (.name "f"), tokenAt 6 (.symbol .leftParen),
    tokenAt 7 (.name "x"), tokenAt 8 (.symbol .ellipsis), tokenAt 11 (.symbol .comma),
    tokenAt 12 (.symbol .rightParen), tokenAt 13 (.symbol .minus), tokenAt 14 (.name "c")] ++ chainEnd

/-- The first subtraction is the left operand of the second one. -/
def chain : Expr :=
  .binary .sub
    (.binary .sub (.name ⟨"a", ⟨1, 1⟩⟩)
      (.binary .mul (.name ⟨"b", ⟨1, 3⟩⟩)
        (.call (.name ⟨"f", ⟨1, 5⟩⟩) [.name ⟨"x", ⟨1, 7⟩⟩])))
    (.name ⟨"c", ⟨1, 14⟩⟩)

theorem readBinary_written_chain :
    readBinary 4 chainTokens = .ok ⟨chain, chainEnd, by decide⟩ ∧
      (∃ taken, chainTokens = taken ++ chainEnd ∧ chain.Written taken) ∧ chain.WellBound ∧
      chain.BindsFrom 4 ∧ Stops 4 chainEnd := by
  have read : readBinary 4 chainTokens = .ok ⟨chain, chainEnd, by decide⟩ := by
    with_unfolding_all rfl
  exact ⟨read, readBinary_written read⟩

end EnumCodec
