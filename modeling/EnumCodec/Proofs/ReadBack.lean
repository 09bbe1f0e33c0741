import EnumCodec.Proofs.ExpressionTokens

/-!
# Reading an expression back from its tokens

The converse of reading: the tokens of a well bound expression with no opaque form in it are read as
this expression.

* `ReadsBack` — what each of the readers gives for the tokens of an expression.
* `readBinary_of_written` — an expression is read back where it ends.
-/

set_option autoImplicit false

namespace EnumCodec

/-! ## Expressions without opaque forms -/

namespace Expr

mutual

/-- The property holds of the expression and of every part of it. -/
def Everywhere (P : Expr → Prop) : Expr → Prop
  | selector base field => P (selector base field) ∧ base.Everywhere P
  | paren inner => P (paren inner) ∧ inner.Everywhere P
  | unary op operand => P (unary op operand) ∧ operand.Everywhere P
  | binary op left right => P (binary op left right) ∧ left.Everywhere P ∧ right.Everywhere P
  | call callee args => P (call callee args) ∧ callee.Everywhere P ∧ AllEverywhere P args
  | integer s => P (integer s)
  | float s => P (float s)
  | imaginary s => P (imaginary s)
  | rune code => P (rune code)
  | string body => P (string body)
  | name ident => P (name ident)
  | opaqueForm c => P (opaqueForm c)

/-- The property holds of all of the expressions and of every part of them. -/
def AllEverywhere (P : Expr → Prop) : List Expr → Prop
  | [] => True
  | e :: es => e.Everywhere P ∧ AllEverywhere P es

end

mutual

theorem Everywhere.imp {P Q : Expr → Prop} (h : ∀ e, P e → Q e) {e : Expr} (all : e.Everywhere P) :
    e.Everywhere Q := by
  cases e with
  | selector base field => exact ⟨h _ all.1, all.2.imp h⟩
  | paren inner => exact ⟨h _ all.1, all.2.imp h⟩
  | unary op operand => exact ⟨h _ all.1, all.2.imp h⟩
  | binary op left right => exact ⟨h _ all.1, all.2.1.imp h, all.2.2.imp h⟩
  | call callee args => exact ⟨h _ all.1, all.2.1.imp h, all.2.2.imp h⟩
  | _ => exact h _ all

theorem AllEverywhere.imp {P Q : Expr → Prop} (h : ∀ e, P e → Q e) {es : List Expr}
    (all : AllEverywhere P es) : AllEverywhere Q es := by
  cases es with
  | nil => trivial
  | cons e es => exact ⟨all.1.imp h, all.2.imp h⟩

end

theorem Everywhere.here {P : Expr → Prop} {e : Expr} (all : e.Everywhere P) : P e := by
  cases e <;> first | exact all | exact all.1

/-- The expression is kept as a tree. -/
def IsKept : Expr → Prop
  | opaqueForm _ => False
  | _ => True

end Expr

/-! ## All of an expression -/

/-- The first token of enclosed tokens closes nothing. -/
theorem IsEnclosed.first_closes {t : Token} {ts : List Token} (h : IsEnclosed (t :: ts)) :
    t.kind.closes = false := by
  rw [Bool.eq_false_iff]
  intro closes
  have opens : t.kind.opens = false := by
    rw [Bool.eq_false_iff]
    intro opens
    rw [TokenKind.closes_of_opens opens] at closes
    cases closes
  have none : depthAfterOne? 0 t = none := by simp [depthAfterOne?, opens, closes]
  unfold IsEnclosed depthAfter? at h
  simp [none] at h

theorem kindAt_append {ts : List Token} (h : ts ≠ []) (rest : List Token) :
    kindAt (ts ++ rest) = kindAt ts := by
  cases ts with
  | nil => exact absurd rfl h
  | cons t ts => rfl

/-- What the readers of the levels of the grammar give for the tokens of an expression. -/
structure ReadsBack (e : Expr) (ts : List Token) : Prop where
  /-- What is selected from an operand or applied to it is read on from the operand. -/
  primary : e.IsPrimary → unaryOp? (kindAt ts) = none ∧ ∀ rest v rest',
    Gives (readPostfix e rest) v rest' → Gives (readPrimary (ts ++ rest)) v rest'
  unary : e.precedence? = none → ∀ rest, (kindAt rest).isPostfix = false →
    Gives (readUnary (ts ++ rest)) e rest
  /-- Operators that bind less tightly are read on from the expression. -/
  binary : ∀ least rest v rest', e.BindsFrom least → (kindAt rest).isPostfix = false →
    (∀ q ∈ e.precedence?, Stops (q + 1) rest) → Gives (climb least e rest) v rest' →
    Gives (readBinary least (ts ++ rest)) v rest'

theorem BinaryOp.one_le_precedence (op : BinaryOp) : 1 ≤ op.precedence := by
  cases op <;> decide

theorem BinaryOp.isPostfix (op : BinaryOp) : (TokenKind.symbol op.symbol).isPostfix = false := by
  cases op <;> rfl

theorem BinaryOp.binaryOp?_symbol (op : BinaryOp) : binaryOp? (.symbol op.symbol) = some op :=
  binaryOp?_eq_some_iff.mpr rfl

theorem Expr.bindsFrom_one (e : Expr) : e.BindsFrom 1 := by
  intro q hq
  cases e with
  | binary op left right =>
    cases hq
    exact op.one_le_precedence
  | _ => cases hq

namespace ReadsBack

variable {e : Expr} {ts : List Token}

/-- An expression with no operator outside of it is the left operand of what follows. -/
theorem of_unary (other : ¬ e.IsPrimary)
    (unary : ∀ rest, (kindAt rest).isPostfix = false → Gives (readUnary (ts ++ rest)) e rest) :
    ReadsBack e ts where
  primary primary := absurd primary other
  unary _ := unary
  binary _ rest _ _ _ ends _ climbs := readBinary_gives (unary rest ends) climbs

theorem of_primary (some_tokens : ts ≠ []) (first : unaryOp? (kindAt ts) = none)
    (reads : ∀ rest v rest', Gives (readPostfix e rest) v rest' →
      Gives (readPrimary (ts ++ rest)) v rest') : ReadsBack e ts := by
  have unary : ∀ rest, (kindAt rest).isPostfix = false → Gives (readUnary (ts ++ rest)) e rest := by
    intro rest ends
    apply readUnary_primary
    · rw [kindAt_append some_tokens]
      exact first
    · exact reads rest e rest (readPostfix_stops ends)
  exact {
    primary := fun _ => ⟨first, reads⟩
    unary := fun _ => unary
    binary := fun _ rest _ _ _ ends _ climbs => readBinary_gives (unary rest ends) climbs }

/-- A single token. -/
theorem of_atom {t : Token} (atom : atom? t = some e) (first : unaryOp? t.kind = none) :
    ReadsBack e [t] := by
  apply of_primary (by simp)
  · exact first
  · intro rest v rest' goesOn
    exact readPrimary_gives (readOperand_atom atom) goesOn

/-- An expression is read up to where it ends. -/
theorem whole (h : ReadsBack e ts) {least : Nat} {rest : List Token} (binds : e.BindsFrom least)
    (ends : (kindAt rest).isPostfix = false) (stops : Stops least rest) :
    Gives (readBinary least (ts ++ rest)) e rest := by
  apply h.binary least rest e rest binds ends
  · intro q hq op next
    have := stops op next
    have := binds q hq
    omega
  · exact climb_stops stops

/-- An expression is read up to a token that neither goes on with an operand nor is an operator. -/
theorem closed (h : ReadsBack e ts) {rest : List Token} (ends : (kindAt rest).isPostfix = false)
    (stops : binaryOp? (kindAt rest) = none) : Gives (readBinary 1 (ts ++ rest)) e rest := by
  apply h.whole e.bindsFrom_one ends
  intro op next
  rw [stops] at next
  cases next

/-- An argument is read up to the token after its dots. -/
theorem argument (h : ReadsBack e ts) {dots : List Token} (isDots : Dots dots) {t : Token}
    (rest : List Token) (ends : t.kind.isPostfix = false) (stops : binaryOp? t.kind = none) :
    Gives (readBinary 1 (ts ++ (dots ++ t :: rest))) e (dots ++ t :: rest) := by
  cases isDots with
  | absent => exact h.closed ends stops
  | present kind =>
    apply h.closed
    · rw [List.cons_append, kindAt, kind]
      rfl
    · rw [List.cons_append, kindAt, kind]
      rfl

end ReadsBack

/-- An expression does not start like a closing parenthesis. -/
theorem Expr.Written.first_ne {e : Expr} {ts : List Token} (h : e.Written ts) (rest : List Token) :
    kindAt (ts ++ rest) ≠ .symbol .rightParen := by
  rw [kindAt_append h.ne_nil]
  have enclosed := h.isEnclosed
  cases ts with
  | nil => exact absurd rfl h.ne_nil
  | cons t ts =>
    intro right
    have closes := enclosed.first_closes
    rw [show t.kind = .symbol .rightParen from right] at closes
    cases closes

mutual

theorem Expr.Written.readsBack {e : Expr} {ts : List Token} (h : e.Written ts)
    (bound : e.WellBound) (kept : e.Everywhere Expr.IsKept) : ReadsBack e ts := by
  cases h with
  | integer kind | float kind | imaginary kind | rune kind | string kind | name kind =>
    exact .of_atom (by simp only [atom?, kind]) (by rw [kind]; rfl)
  | selector base dot field =>
    obtain ⟨first, reads⟩ := (base.readsBack bound.2 kept.2).primary bound.1
    apply ReadsBack.of_primary (by simp)
    · rw [kindAt_append base.ne_nil]
      exact first
    · intro rest v rest' goesOn
      rw [List.append_assoc]
      exact reads _ v rest' (readPostfix_selector dot field goesOn)
  | paren left inner right =>
    apply ReadsBack.of_primary (by simp)
    · rw [List.cons_append, kindAt, left]
      rfl
    · intro rest v rest' goesOn
      rw [List.append_assoc]
      refine readPrimary_gives (readOperand_paren left ?_ right) goesOn
      exact (inner.readsBack bound kept.2).argument .absent rest (by rw [right]; rfl)
        (by rw [right]; rfl)
  | unary operator operand =>
    apply ReadsBack.of_unary id
    intro rest ends
    exact readUnary_operator operator ((operand.readsBack bound.2 kept.2).unary bound.1 rest ends)
  | @binary op left right t us vs left_tokens operator right_tokens =>
    obtain ⟨left_binds, right_binds, left_bound, right_bound⟩ := bound
    have left_reads := left_tokens.readsBack left_bound kept.2.1
    have right_reads := right_tokens.readsBack right_bound kept.2.2
    constructor
    · exact fun primary => absurd primary id
    · exact fun unbound => nomatch unbound
    · intro least rest v rest' binds ends stops climbs
      have enough : least ≤ op.precedence := binds _ rfl
      have right_given : Gives (readBinary (op.precedence + 1) (vs ++ rest)) right rest :=
        right_reads.whole right_binds ends (stops _ rfl)
      rw [List.append_assoc]
      apply left_reads.binary
      · intro q hq
        exact Nat.le_trans enough (left_binds q hq)
      · rw [List.cons_append, kindAt, operator]
        exact op.isPostfix
      · intro q hq op' next
        rw [List.cons_append, kindAt, operator, op.binaryOp?_symbol] at next
        cases next
        exact Nat.lt_succ_of_le (left_binds q hq)
      · exact climb_goesOn operator enough right_given climbs
  | @call callee args us vs l r callee_tokens left args_tokens right =>
    obtain ⟨primary, callee_bound, args_bound⟩ := bound
    obtain ⟨first, reads⟩ := (callee_tokens.readsBack callee_bound kept.2.1).primary primary
    apply ReadsBack.of_primary (by simp)
    · rw [List.append_assoc, kindAt_append callee_tokens.ne_nil]
      exact first
    · intro rest v rest' goesOn
      rw [List.append_assoc, List.append_assoc]
      apply reads
      refine readPostfix_call left ?_ goesOn
      exact args_tokens.readsBack args_bound kept.2.2 right
  | opaqueForm _ _ => exact absurd kept id

theorem ArgumentsWritten.readsBack {args : List Expr} {ts : List Token}
    (h : ArgumentsWritten args ts) (bound : Expr.AllWellBound args)
    (kept : Expr.AllEverywhere Expr.IsKept args) {close : Token} {rest : List Token}
    (right : close.kind = .symbol .rightParen) :
    Gives (readArguments (ts ++ close :: rest)) args rest := by
  cases h with
  | nil => exact readArguments_none right
  | last tokens dots =>
    rw [List.append_assoc]
    have arg := (tokens.readsBack bound.1 kept.1).argument dots rest
      (by rw [right]; rfl) (by rw [right]; rfl)
    have other : close.kind ≠ .symbol .ellipsis := by rw [right]; decide
    exact readArguments_last (tokens.first_ne _) arg (skipSymbol_of_dots dots other) right
  | @cons e es us dots vs t tokens isDots comma more =>
    rw [List.append_assoc, List.append_assoc, List.cons_append]
    have arg := (tokens.readsBack bound.1 kept.1).argument isDots (vs ++ close :: rest)
      (by rw [comma]; rfl) (by rw [comma]; rfl)
    have other : t.kind ≠ .symbol .ellipsis := by rw [comma]; decide
    exact readArguments_cons (tokens.first_ne _) arg (skipSymbol_of_dots isDots other) comma
      (more.readsBack bound.2 kept.2 right)

end

/-- **The tokens of an expression are read as the expression**, if it is well bound and holds no
opaque form, and what comes next does not go on with it. -/
theorem readBinary_of_written {least : Nat} {e : Expr} {ts rest : List Token} (h : e.WellWritten ts)
    (kept : e.Everywhere Expr.IsKept) (binds : e.BindsFrom least)
    (ends : (kindAt rest).isPostfix = false) (stops : Stops least rest) :
    Gives (readBinary least (ts ++ rest)) e rest :=
  (h.written.readsBack h.bound kept).whole binds ends stops

end EnumCodec
