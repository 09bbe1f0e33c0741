import EnumCodec.Syntax.Cursor

/-!
# Reading expressions

`readExpr` reads an expression; operators with two operands bind by their precedence and those of
one precedence from the left.  `readBinary least` reads an expression all of whose operators outside
of brackets bind at least as tightly as `least`; `climb` goes on from a left operand.

Types, function bodies and the insides of composite literals and of indices are passed over.

In the generator `readExpr` and `readExprs` are `parse_expr` and `parse_expr_list`, `readBinary` with
`climb` is `parse_binary`, `readUnary` is `parse_unary`, `readPrimary` with `readPostfix` and
`readArguments` is `parse_primary`, `readOperand` is `parse_operand`, and `skipOperand?` is
`skip_type_operand`.
-/

set_option autoImplicit false

namespace EnumCodec

/-- The operator with two operands that a token can be. -/
def binaryOp? : TokenKind → Option BinaryOp
  | .symbol .plus => some .add
  | .symbol .minus => some .sub
  | .symbol .star => some .mul
  | .symbol .slash => some .quotient
  | .symbol .percent => some .remainder
  | .symbol .ampersand => some .and
  | .symbol .bar => some .or
  | .symbol .caret => some .xor
  | .symbol .shiftLeft => some .shiftLeft
  | .symbol .shiftRight => some .shiftRight
  | .symbol .andNot => some .andNot
  | .symbol .andAnd => some .andAnd
  | .symbol .orOr => some .orOr
  | .symbol .equal => some .equal
  | .symbol .notEqual => some .notEqual
  | .symbol .less => some .less
  | .symbol .lessEqual => some .lessEqual
  | .symbol .greater => some .greater
  | .symbol .greaterEqual => some .greaterEqual
  | _ => none

/-- The operator with one operand that a token can be. -/
def unaryOp? : TokenKind → Option UnaryOp
  | .symbol .plus => some .plus
  | .symbol .minus => some .negate
  | .symbol .bang => some .not
  | .symbol .caret => some .complement
  | .symbol .star => some .dereference
  | .symbol .ampersand => some .addressOf
  | .symbol .arrow => some .receive
  | _ => none

/-- The expression that is a single token. -/
def atom? (t : Token) : Option Expr :=
  match t.kind with
  | .integer s => some (.integer s)
  | .float s => some (.float s)
  | .imaginary s => some (.imaginary s)
  | .rune code => some (.rune code)
  | .string body => some (.string body)
  | .name s => some (.name ⟨s, t.pos⟩)
  | _ => none

/-- Passes over a function type, and over the body of a function literal, after the first word. -/
def skipFunction (ts : List Token) : Except SyntaxError (Construct × List Token) :=
  match skipSignature ts with
  | .error e => .error e
  | .ok rest =>
    if atSymbol .leftBrace rest then
      (skipBracketAt .leftBrace rest).map fun rest => (.functionLiteral, rest)
    else .ok (.functionType, rest)

/-- Passes over a type that is used as an operand, or a function literal, after its first token;
gives what it was. -/
def skipOperand? (first : TokenKind) (rest : List Token) :
    Option (Except SyntaxError (Construct × List Token)) :=
  match first with
  | .keyword .kwFunc => some (skipFunction rest)
  | .keyword .kwStruct | .keyword .kwInterface =>
    some ((skipBracketAt .leftBrace rest).map fun rest => (.compositeType, rest))
  | .keyword .kwMap | .keyword .kwChan =>
    some ((skipTypeOperand 0 rest).map fun rest => (.compositeType, rest))
  | .symbol .leftBracket =>
    some ((skipTypeOperand 1 rest).map fun rest => (.compositeType, rest))
  | _ => none

theorem eq_ok_of_map_eq_ok {x : Except SyntaxError (List Token)} {c c' : Construct}
    {rest : List Token} (h : x.map (fun r => (c, r)) = .ok (c', rest)) : x = .ok rest := by
  cases x with
  | error e => simp [Except.map] at h
  | ok r => simp [Except.map] at h; rw [h.2]

theorem skipFunction_suffix {ts rest : List Token} {c : Construct}
    (h : skipFunction ts = .ok (c, rest)) : rest <:+ ts := by
  unfold skipFunction at h
  split at h
  · simp at h
  · rename_i r hs
    have hr := skipSignature_suffix hs
    split at h
    · exact (skipBracketAt_suffix (eq_ok_of_map_eq_ok h)).trans hr
    · simp at h; rw [← h.2]; exact hr

theorem skipOperand?_suffix {first : TokenKind} {rest rest' : List Token} {c : Construct}
    (h : skipOperand? first rest = some (.ok (c, rest'))) : rest' <:+ rest := by
  unfold skipOperand? at h
  split at h
  · exact skipFunction_suffix (Option.some.inj h)
  · exact skipBracketAt_suffix (eq_ok_of_map_eq_ok (Option.some.inj h))
  · exact skipBracketAt_suffix (eq_ok_of_map_eq_ok (Option.some.inj h))
  · exact skipTypeOperand_suffix (eq_ok_of_map_eq_ok (Option.some.inj h))
  · exact skipTypeOperand_suffix (eq_ok_of_map_eq_ok (Option.some.inj h))
  · exact skipTypeOperand_suffix (eq_ok_of_map_eq_ok (Option.some.inj h))
  · simp at h

mutual

/-- Reads an expression whose operators outside of brackets bind at least as tightly as `least`. -/
def readBinary (least : Nat) (ts : List Token) : Except SyntaxError (Parsed ts.length Expr) :=
  match readUnary ts with
  | .error e => .error e
  | .ok left =>
    match climb least left.value left.rest with
    | .error e => .error e
    | .ok whole => .ok (left.followedBy whole)
termination_by 5 * ts.length + 3
decreasing_by
  · omega
  · have := left.shorter; omega

/-- Reads operators that bind at least as tightly as `least`, with their right operands, after a
left operand. -/
def climb (least : Nat) (left : Expr) (ts : List Token) :
    Except SyntaxError (Parsed (ts.length + 1) Expr) :=
  match ts with
  | [] => .ok (.here left [])
  | t :: rest =>
    match binaryOp? t.kind with
    | none => .ok (.here left (t :: rest))
    | some op =>
      if op.precedence < least then .ok (.here left (t :: rest))
      else
        match readBinary (op.precedence + 1) rest with
        | .error e => .error e
        | .ok right =>
          match climb least (.binary op left right.value) right.rest with
          | .error e => .error e
          | .ok whole =>
            .ok ((right.followedBy whole).past t).loosen
termination_by 5 * ts.length + 4
decreasing_by
  · simp only [List.length_cons]; omega
  · have := right.shorter; simp only [List.length_cons]; omega

/-- Reads operators with one operand, and their operand. -/
def readUnary (ts : List Token) : Except SyntaxError (Parsed ts.length Expr) :=
  match ts with
  | [] => readPrimary []
  | t :: rest =>
    match unaryOp? t.kind with
    | none => readPrimary (t :: rest)
    | some op =>
      match readUnary rest with
      | .error e => .error e
      | .ok operand => .ok ((operand.map (.unary op)).past t)
termination_by 5 * ts.length + 2
decreasing_by all_goals (simp only [List.length_cons, List.length_nil]; omega)

/-- Reads an operand and what is selected from it, applied to it or indexed in it. -/
def readPrimary (ts : List Token) : Except SyntaxError (Parsed ts.length Expr) :=
  match readOperand ts with
  | .error e => .error e
  | .ok operand =>
    match readPostfix operand.value operand.rest with
    | .error e => .error e
    | .ok whole => .ok (operand.followedBy whole)
termination_by 5 * ts.length + 1
decreasing_by
  · omega
  · have := operand.shorter; omega

/-- Reads what follows an operand: selected names, arguments, indices and literal bodies. -/
def readPostfix (e : Expr) (ts : List Token) : Except SyntaxError (Parsed (ts.length + 1) Expr) :=
  match ts with
  | [] => .ok (.here e [])
  | t :: rest =>
    match t.kind with
    | .symbol .dot =>
      match rest with
      | [] => .error (unexpectedAt [] .selector)
      | u :: inner =>
        if u.kind = .symbol .leftParen then
          match readBracket inner with
          | .error e => .error e
          | .ok bracket =>
            match readPostfix (.opaqueForm .typeAssertion) bracket.rest with
            | .error e => .error e
            | .ok whole => .ok (((bracket.followedBy whole).past u).past t).loosen
        else
          match readName .selector (u :: inner) with
          | .error e => .error e
          | .ok field =>
            match readPostfix (.selector e field.value) field.rest with
            | .error e => .error e
            | .ok whole =>
              .ok ((field.followedBy whole).past t).loosen
    | .symbol .leftParen =>
      match readArguments rest with
      | .error e => .error e
      | .ok args =>
        match readPostfix (.call e args.value) args.rest with
        | .error e => .error e
        | .ok whole =>
          .ok ((args.followedBy whole).past t).loosen
    | .symbol .leftBracket =>
      match readBracket rest with
      | .error e => .error e
      | .ok bracket =>
        match readPostfix (.opaqueForm .indexExpression) bracket.rest with
        | .error e => .error e
        | .ok whole => .ok ((bracket.followedBy whole).past t).loosen
    | .symbol .leftBrace =>
      match readBracket rest with
      | .error e => .error e
      | .ok bracket =>
        match readPostfix (.opaqueForm .compositeLiteral) bracket.rest with
        | .error e => .error e
        | .ok whole => .ok ((bracket.followedBy whole).past t).loosen
    | _ => .ok (.here e (t :: rest))
termination_by 5 * ts.length + 4
decreasing_by
  · have := bracket.shorter; simp only [List.length_cons]; omega
  · have := field.shorter; simp only [List.length_cons] at this ⊢; omega
  · simp only [List.length_cons]; omega
  · have := args.shorter; simp only [List.length_cons]; omega
  · have := bracket.shorter; simp only [List.length_cons]; omega
  · have := bracket.shorter; simp only [List.length_cons]; omega

/-- Reads arguments up to the closing parenthesis, which is taken.  Dots after an argument and a
comma after the last one are passed over. -/
def readArguments (ts : List Token) : Except SyntaxError (Parsed ts.length (List Expr)) :=
  match ts with
  | [] => .error (unexpectedAt [] .expression)
  | t :: rest =>
    if t.kind = .symbol .rightParen then .ok (.one [] t rest)
    else
      match readBinary 1 (t :: rest) with
      | .error e => .error e
      | .ok arg =>
        match hr : skipSymbol .ellipsis arg.rest with
        | [] => .error (unexpectedAt [] .arguments)
        | u :: rest' =>
          if u.kind = .symbol .comma then
            match readArguments rest' with
            | .error e => .error e
            | .ok args =>
              .ok ((args.map (arg.value :: ·)).widen (by
                have := arg.shorter
                have := (skipSymbol_suffix .ellipsis arg.rest).length_le
                simp only [hr, List.length_cons] at *; omega))
          else if u.kind = .symbol .rightParen then
            .ok ⟨[arg.value], rest', by
              have := arg.shorter
              have := (skipSymbol_suffix .ellipsis arg.rest).length_le
              simp only [hr, List.length_cons] at *; omega⟩
          else .error (unexpectedAt (u :: rest') .arguments)
termination_by 5 * ts.length + 4
decreasing_by
  · omega
  · have := arg.shorter
    have := (skipSymbol_suffix .ellipsis arg.rest).length_le
    simp only [hr, List.length_cons] at *; omega

/-- Reads a single token, an expression in parentheses, or a type. -/
def readOperand (ts : List Token) : Except SyntaxError (Parsed ts.length Expr) :=
  match ts with
  | [] => .error (unexpectedAt [] .expression)
  | t :: rest =>
    match atom? t with
    | some e => .ok (.one e t rest)
    | none =>
      if t.kind = .symbol .leftParen then
        match readBinary 1 rest with
        | .error e => .error e
        | .ok inner =>
          match readSymbol .rightParen .parentheses inner.rest with
          | .error e => .error e
          | .ok close =>
            .ok ⟨.paren inner.value, close.rest, by
              have := inner.shorter; have := close.shorter; simp only [List.length_cons]; omega⟩
      else
        match ht : skipOperand? t.kind rest with
        | none => .error (unexpectedAt (t :: rest) .expression)
        | some (.error e) => .error e
        | some (.ok (construct, rest')) =>
          .ok ⟨.opaqueForm construct, rest', by
            have := (skipOperand?_suffix ht).length_le; simp only [List.length_cons]; omega⟩
termination_by 5 * ts.length
decreasing_by simp only [List.length_cons]; omega

end

/-- Reads an expression. -/
def readExpr (ts : List Token) : Except SyntaxError (Parsed ts.length Expr) := readBinary 1 ts

/-- Reads expressions with commas between them. -/
def readExprs (ts : List Token) : Except SyntaxError (Parsed ts.length (List Expr)) :=
  match readExpr ts with
  | .error e => .error e
  | .ok first =>
    match hr : first.rest with
    | [] => .ok ⟨[first.value], [], by have := first.shorter; rw [hr] at this; exact this⟩
    | t :: rest =>
      if t.kind = .symbol .comma then
        match readExprs rest with
        | .error e => .error e
        | .ok more =>
          .ok ((more.map (first.value :: ·)).widen (by
            have := first.shorter; simp only [hr, List.length_cons] at this; omega))
      else .ok ⟨[first.value], t :: rest, by have := first.shorter; rw [hr] at this; exact this⟩
termination_by ts.length
decreasing_by have := first.shorter; simp only [hr, List.length_cons] at this; omega

end EnumCodec
