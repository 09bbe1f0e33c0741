import EnumCodec.Syntax
import EnumCodec.Syntax.Problem

/-!
# Reading along a list of tokens

A reader of the grammar takes a list of tokens and gives a tree and the tokens it leaves.  `Parsed`
holds the two together with a bound on what is left, by which readers that call each other end.
The list of a whole file ends with the token for the end of the text; an exhausted list reads as
that token.

The `skip` functions pass over what is not kept, by counting brackets.  Their `_suffix` lemmas say
that they leave an end of what they are given.

In the generator the list of tokens is the rest of a `Parser`: `kindAt` and `posAt` are `peek` and
`pos`, `readName`, `readSymbol` and `readDeclarationEnd` are `expect_ident`, `expect_punct` and
`expect_decl_end`, and `skipDeclaration`, `skipType` and `readBracket` are `skip_decl`,
`skip_type_expr` and `skip_balanced`.
-/

set_option autoImplicit false

namespace EnumCodec

/-- A tree and the tokens that follow it, fewer than the bound. -/
structure Parsed (bound : Nat) (α : Type) where
  value : α
  rest : List Token
  shorter : rest.length < bound

namespace Parsed

variable {α β : Type} {m n : Nat}

/-- The same for a larger bound. -/
def widen (p : Parsed m α) (h : m ≤ n) : Parsed n α :=
  ⟨p.value, p.rest, Nat.lt_of_lt_of_le p.shorter h⟩

/-- The same for the next larger bound. -/
def loosen (p : Parsed n α) : Parsed (n + 1) α := p.widen (Nat.le_succ n)

/-- The same tree, read after one more token. -/
def past (t : Token) {ts : List Token} (p : Parsed ts.length α) : Parsed (t :: ts).length α :=
  p.loosen

/-- A tree that was read after another one, from the start of that one. -/
def followedBy (p : Parsed n α) (q : Parsed (p.rest.length + 1) β) : Parsed n β :=
  q.widen p.shorter

/-- A tree for which no token was read. -/
def here (value : α) (ts : List Token) : Parsed (ts.length + 1) α :=
  ⟨value, ts, Nat.lt_succ_self ts.length⟩

/-- A tree for which one token was read. -/
def one (value : α) (t : Token) (rest : List Token) : Parsed (t :: rest).length α :=
  here value rest

/-- The same tokens after another tree. -/
def map (f : α → β) (p : Parsed n α) : Parsed n β := ⟨f p.value, p.rest, p.shorter⟩

@[simp] theorem widen_value (p : Parsed m α) (h : m ≤ n) : (p.widen h).value = p.value := rfl

@[simp] theorem widen_rest (p : Parsed m α) (h : m ≤ n) : (p.widen h).rest = p.rest := rfl

@[simp] theorem loosen_value (p : Parsed n α) : p.loosen.value = p.value := rfl

@[simp] theorem loosen_rest (p : Parsed n α) : p.loosen.rest = p.rest := rfl

@[simp] theorem past_value (t : Token) {ts : List Token} (p : Parsed ts.length α) :
    (p.past t).value = p.value := rfl

@[simp] theorem past_rest (t : Token) {ts : List Token} (p : Parsed ts.length α) :
    (p.past t).rest = p.rest := rfl

@[simp] theorem followedBy_value (p : Parsed n α) (q : Parsed (p.rest.length + 1) β) :
    (p.followedBy q).value = q.value := rfl

@[simp] theorem followedBy_rest (p : Parsed n α) (q : Parsed (p.rest.length + 1) β) :
    (p.followedBy q).rest = q.rest := rfl

@[simp] theorem here_value (value : α) (ts : List Token) : (here value ts).value = value := rfl

@[simp] theorem here_rest (value : α) (ts : List Token) : (here value ts).rest = ts := rfl

@[simp] theorem one_value (value : α) (t : Token) (rest : List Token) :
    (one value t rest).value = value := rfl

@[simp] theorem one_rest (value : α) (t : Token) (rest : List Token) :
    (one value t rest).rest = rest := rfl

@[simp] theorem map_value (f : α → β) (p : Parsed n α) : (p.map f).value = f p.value := rfl

@[simp] theorem map_rest (f : α → β) (p : Parsed n α) : (p.map f).rest = p.rest := rfl

end Parsed

/-- The next token. -/
def kindAt : List Token → TokenKind
  | [] => .endOfText
  | t :: _ => t.kind

/-- The place of the next token. -/
def posAt : List Token → Pos
  | [] => ⟨0, 0⟩
  | t :: _ => t.pos

/-- A problem at the next token. -/
def problemAt (ts : List Token) (problem : SyntaxProblem) : SyntaxError := ⟨problem, posAt ts⟩

/-- The next token does not fit. -/
def unexpectedAt (ts : List Token) (place : Place) : SyntaxError :=
  problemAt ts (.unexpected (kindAt ts) place)

/-- Whether the next token is the symbol. -/
def atSymbol (s : Symbol) (ts : List Token) : Bool := kindAt ts == .symbol s

/-- Reads a name. -/
def readName (place : Place) (ts : List Token) : Except SyntaxError (Parsed ts.length Ident) :=
  match ts with
  | [] => .error (unexpectedAt [] place)
  | t :: rest =>
    match t.kind with
    | .name s => .ok (.one ⟨s, t.pos⟩ t rest)
    | _ => .error (unexpectedAt (t :: rest) place)

/-- Reads a symbol. -/
def readSymbol (s : Symbol) (place : Place) (ts : List Token) :
    Except SyntaxError (Parsed ts.length Unit) :=
  match ts with
  | [] => .error (unexpectedAt [] place)
  | t :: rest =>
    if t.kind = .symbol s then .ok (.one () t rest)
    else .error (unexpectedAt (t :: rest) place)

/-- Passes over a symbol, if it is there. -/
def skipSymbol (s : Symbol) : List Token → List Token
  | [] => []
  | t :: rest => if t.kind = .symbol s then rest else t :: rest

theorem skipSymbol_suffix (s : Symbol) (ts : List Token) : skipSymbol s ts <:+ ts := by
  unfold skipSymbol
  split
  · exact List.nil_suffix
  · split
    · exact List.suffix_cons ..
    · exact List.suffix_rfl

/-- Reads the end of a declaration: a semicolon, which is taken, or the end of the text, which
stays. -/
def readDeclarationEnd (ts : List Token) : Except SyntaxError (Parsed (ts.length + 1) Unit) :=
  match ts with
  | [] => .ok (.here () [])
  | t :: rest =>
    match t.kind with
    | .semicolon => .ok (Parsed.one () t rest).loosen
    | .endOfText => .ok (.here () (t :: rest))
    | _ => .error (unexpectedAt (t :: rest) .afterDeclaration)

/-- Passes over a declaration, its semicolon included.  `depth` is the number of open brackets. -/
def skipDeclaration (depth : Nat) : List Token → Except SyntaxError (List Token)
  | [] => if depth = 0 then .ok [] else .error (problemAt [] .unclosedDeclaration)
  | t :: ts =>
    if t.kind = .endOfText then
      if depth = 0 then .ok (t :: ts) else .error (problemAt (t :: ts) .unclosedDeclaration)
    else if t.kind = .semicolon ∧ depth = 0 then .ok ts
    else if t.kind.opens then skipDeclaration (depth + 1) ts
    else if t.kind.closes then
      if depth = 0 then .error (unexpectedAt (t :: ts) .declaration)
      else skipDeclaration (depth - 1) ts
    else skipDeclaration depth ts

/-- Whether the token ends the declaration of a type. -/
def endsTypeSpec : TokenKind → Bool
  | .semicolon | .endOfText | .symbol .rightParen => true
  | _ => false

/-- Passes over a type, up to what ends its declaration. -/
def skipType (depth : Nat) : List Token → Except SyntaxError (List Token)
  | [] => if depth = 0 then .ok [] else .error (unexpectedAt [] .type)
  | t :: ts =>
    if depth = 0 ∧ endsTypeSpec t.kind then .ok (t :: ts)
    else if t.kind = .endOfText then .error (unexpectedAt (t :: ts) .type)
    else if t.kind.opens then skipType (depth + 1) ts
    else if t.kind.closes then
      if depth = 0 then .error (unexpectedAt (t :: ts) .type)
      else skipType (depth - 1) ts
    else skipType depth ts

/-- Passes over the inside of a bracket and its closing symbol.  `inner` is the number of brackets
that were opened inside. -/
def skipBracket (inner : Nat) : List Token → Except SyntaxError (List Token)
  | [] => .error (problemAt [] .unclosedBracket)
  | t :: ts =>
    if t.kind = .endOfText then .error (problemAt (t :: ts) .unclosedBracket)
    else if t.kind.opens then skipBracket (inner + 1) ts
    else if t.kind.closes then
      if inner = 0 then .ok ts else skipBracket (inner - 1) ts
    else skipBracket inner ts

/-- Passes over a bracket, if one opens here with the symbol. -/
def skipBracketAt (s : Symbol) : List Token → Except SyntaxError (List Token)
  | [] => .ok []
  | t :: ts => if t.kind = .symbol s then skipBracket 0 ts else .ok (t :: ts)

/-- Whether a token outside of brackets ends a type that is used as an operand. -/
def endsTypeOperand : TokenKind → Bool
  | .symbol .leftBrace | .symbol .leftParen | .symbol .comma | .semicolon => true
  | k => k.closes

/-- Passes over a type that is used as an operand, up to the bracket of a composite literal, of a
function body or of a conversion, or to what ends the operand. -/
def skipTypeOperand (depth : Nat) : List Token → Except SyntaxError (List Token)
  | [] => .error (unexpectedAt [] .type)
  | t :: ts =>
    if t.kind = .endOfText then .error (unexpectedAt (t :: ts) .type)
    else if depth = 0 ∧ endsTypeOperand t.kind then .ok (t :: ts)
    else if t.kind.opens then skipTypeOperand (depth + 1) ts
    else if t.kind.closes then skipTypeOperand (depth - 1) ts
    else skipTypeOperand depth ts

/-- Passes over a function type after its first word: the parameters, and then either results in
parentheses or one result. -/
def skipSignature (ts : List Token) : Except SyntaxError (List Token) := do
  let afterParameters ← skipBracketAt .leftParen ts
  if atSymbol .leftParen afterParameters then skipBracketAt .leftParen afterParameters
  else skipTypeOperand 0 afterParameters

/-! ### What is left is an end of what was given -/

theorem skipDeclaration_suffix {depth : Nat} {ts rest : List Token}
    (h : skipDeclaration depth ts = .ok rest) : rest <:+ ts := by
  induction ts generalizing depth with
  | nil =>
    simp only [skipDeclaration] at h
    split at h <;> simp at h
    simp [← h]
  | cons t ts ih =>
    simp only [skipDeclaration] at h
    split at h
    · split at h <;> simp at h
      simp [← h]
    · split at h
      · simp at h; simp [← h]
      · have step : ∀ {d}, skipDeclaration d ts = .ok rest → rest <:+ t :: ts :=
          fun h => (ih h).trans (List.suffix_cons ..)
        split at h
        · exact step h
        · split at h
          · split at h
            · simp at h
            · exact step h
          · exact step h

theorem skipType_suffix {depth : Nat} {ts rest : List Token}
    (h : skipType depth ts = .ok rest) : rest <:+ ts := by
  induction ts generalizing depth with
  | nil =>
    simp only [skipType] at h
    split at h <;> simp at h
    simp [← h]
  | cons t ts ih =>
    simp only [skipType] at h
    have step : ∀ {d}, skipType d ts = .ok rest → rest <:+ t :: ts :=
      fun h => (ih h).trans (List.suffix_cons ..)
    split at h
    · simp at h; simp [← h]
    · split at h
      · simp at h
      · split at h
        · exact step h
        · split at h
          · split at h
            · simp at h
            · exact step h
          · exact step h

/-- What is left after a bracket is less than what was given. -/
theorem skipBracket_suffix {inner : Nat} {ts rest : List Token}
    (h : skipBracket inner ts = .ok rest) : rest <:+ ts ∧ rest.length < ts.length := by
  induction ts generalizing inner with
  | nil => simp [skipBracket] at h
  | cons t ts ih =>
    simp only [skipBracket] at h
    have step : ∀ {d}, skipBracket d ts = .ok rest →
        rest <:+ t :: ts ∧ rest.length < (t :: ts).length :=
      fun h => ⟨(ih h).1.trans (List.suffix_cons ..), Nat.lt_succ_of_lt (ih h).2⟩
    split at h
    · simp at h
    · split at h
      · exact step h
      · split at h
        · split at h
          · simp at h; simp [← h]
          · exact step h
        · exact step h

/-- Reads the inside of a bracket and its closing symbol. -/
def readBracket (ts : List Token) : Except SyntaxError (Parsed ts.length Unit) :=
  match h : skipBracket 0 ts with
  | .error e => .error e
  | .ok rest => .ok ⟨(), rest, (skipBracket_suffix h).2⟩

theorem skipBracketAt_suffix {s : Symbol} {ts rest : List Token}
    (h : skipBracketAt s ts = .ok rest) : rest <:+ ts := by
  unfold skipBracketAt at h
  split at h
  · simp at h; simp [← h]
  · split at h
    · exact (skipBracket_suffix h).1.trans (List.suffix_cons ..)
    · simp at h; simp [← h]

theorem skipTypeOperand_suffix {depth : Nat} {ts rest : List Token}
    (h : skipTypeOperand depth ts = .ok rest) : rest <:+ ts := by
  induction ts generalizing depth with
  | nil => simp [skipTypeOperand] at h
  | cons t ts ih =>
    simp only [skipTypeOperand] at h
    have step : ∀ {d}, skipTypeOperand d ts = .ok rest → rest <:+ t :: ts :=
      fun h => (ih h).trans (List.suffix_cons ..)
    split at h
    · simp at h
    · split at h
      · simp at h; simp [← h]
      · split at h
        · exact step h
        · split at h <;> exact step h

theorem skipSignature_suffix {ts rest : List Token} (h : skipSignature ts = .ok rest) :
    rest <:+ ts := by
  unfold skipSignature at h
  cases hp : skipBracketAt .leftParen ts with
  | error e => simp [hp, bind, Except.bind] at h
  | ok r =>
    have hr := skipBracketAt_suffix hp
    simp only [hp, bind, Except.bind] at h
    split at h
    · exact (skipBracketAt_suffix h).trans hr
    · exact (skipTypeOperand_suffix h).trans hr

end EnumCodec
