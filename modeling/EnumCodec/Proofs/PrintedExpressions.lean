import EnumCodec.Proofs.NumberText
import EnumCodec.Proofs.ReadBack
import EnumCodec.Syntax.Printer

/-!
# Reading printed expressions

An expression that is printed is scanned as its own tokens, and these are read as the expression.

* `Expr.kinds` — the tokens of a printed expression; `Expr.exists_written`.
* `Expr.withoutPlaces` — what an expression is, apart from where its names stand.
* `Expr.IsLegible` — where printed parts of an expression do not run together.
* `Expr.reads_text` — a printed expression is scanned word by word.
-/

set_option autoImplicit false

namespace EnumCodec

open Text

/-! ## Operators -/

/-- Whether the symbols of two operators, one after the other, are read as one symbol or start with
another one. -/
def UnaryOp.fuses : UnaryOp → UnaryOp → Bool
  | plus, plus | negate, negate | addressOf, addressOf | addressOf, complement => true
  | _, _ => false

theorem UnaryOp.symbol_spelled (op : UnaryOp) : (op.symbol.text.toList, op.symbol) ∈ Symbol.spellings := by
  cases op <;> decide

theorem BinaryOp.symbol_spelled (op : BinaryOp) :
    (op.symbol.text.toList, op.symbol) ∈ Symbol.spellings := by
  cases op <;> decide

/-- The characters that make a longer symbol of an operator are of operators. -/
theorem UnaryOp.extensions_all (op : UnaryOp) :
    op.symbol.extensions.all (['=', '+', '-', '&', '^'].contains ·) = true := by
  cases op <;> decide

theorem UnaryOp.apart_of_fuses {op op' : UnaryOp} (h : op.fuses op' = false) :
    op'.symbol.text.toList.head?.all (!op.symbol.extensions.contains ·) = true := by
  revert h
  cases op <;> cases op' <;> decide

/-! ## The tokens of a printed expression -/

namespace Expr

mutual

/-- The tokens of a printed expression; what is opaque has none. -/
def kinds : Expr → List TokenKind
  | integer s => [.integer s]
  | float s => [.float s]
  | imaginary s => [.imaginary s]
  | rune code => [.rune code]
  | string body => [.string body]
  | name ident => [.name ident.name]
  | selector base field => base.kinds ++ [.symbol .dot, .name field.name]
  | paren inner => .symbol .leftParen :: inner.kinds ++ [.symbol .rightParen]
  | unary op operand => .symbol op.symbol :: operand.kinds
  | binary op left right => left.kinds ++ .symbol op.symbol :: right.kinds
  | call callee args =>
    callee.kinds ++ .symbol .leftParen :: argumentKinds args ++ [.symbol .rightParen]
  | opaqueForm _ => []

/-- The tokens of printed arguments. -/
def argumentKinds : List Expr → List TokenKind
  | [] => []
  | [e] => e.kinds
  | e :: es => e.kinds ++ .symbol .comma :: argumentKinds es

end

mutual

/-- The expression with all of its names at one place. -/
def withoutPlaces : Expr → Expr
  | integer s => integer s
  | float s => float s
  | imaginary s => imaginary s
  | rune code => rune code
  | string body => string body
  | name ident => name ⟨ident.name, ⟨0, 0⟩⟩
  | selector base field => selector base.withoutPlaces ⟨field.name, ⟨0, 0⟩⟩
  | paren inner => paren inner.withoutPlaces
  | unary op operand => unary op operand.withoutPlaces
  | binary op left right => binary op left.withoutPlaces right.withoutPlaces
  | call callee args => call callee.withoutPlaces (allWithoutPlaces args)
  | opaqueForm c => opaqueForm c

/-- The expressions with all of their names at one place. -/
def allWithoutPlaces : List Expr → List Expr
  | [] => []
  | e :: es => e.withoutPlaces :: allWithoutPlaces es

end

/-! ### Places do not matter -/

theorem precedence?_withoutPlaces (e : Expr) : e.withoutPlaces.precedence? = e.precedence? := by
  cases e <;> rfl

theorem isPrimary_withoutPlaces (e : Expr) : e.withoutPlaces.IsPrimary ↔ e.IsPrimary := by
  cases e <;> exact Iff.rfl

theorem bindsFrom_withoutPlaces (least : Nat) (e : Expr) :
    e.withoutPlaces.BindsFrom least ↔ e.BindsFrom least := by
  rw [BindsFrom, BindsFrom, precedence?_withoutPlaces]

mutual

theorem wellBound_withoutPlaces (e : Expr) : e.withoutPlaces.WellBound ↔ e.WellBound := by
  cases e with
  | selector base field =>
    exact and_congr base.isPrimary_withoutPlaces (wellBound_withoutPlaces base)
  | paren inner => exact wellBound_withoutPlaces inner
  | unary op operand =>
    exact and_congr (by rw [precedence?_withoutPlaces]) (wellBound_withoutPlaces operand)
  | binary op left right =>
    exact and_congr (bindsFrom_withoutPlaces _ left) (and_congr (bindsFrom_withoutPlaces _ right)
      (and_congr (wellBound_withoutPlaces left) (wellBound_withoutPlaces right)))
  | call callee args =>
    exact and_congr callee.isPrimary_withoutPlaces
      (and_congr (wellBound_withoutPlaces callee) (allWellBound_withoutPlaces args))
  | _ => exact Iff.rfl

theorem allWellBound_withoutPlaces (es : List Expr) :
    AllWellBound (allWithoutPlaces es) ↔ AllWellBound es := by
  cases es with
  | nil => exact Iff.rfl
  | cons e es => exact and_congr (wellBound_withoutPlaces e) (allWellBound_withoutPlaces es)

end

mutual

theorem kept_withoutPlaces (e : Expr) : e.withoutPlaces.Everywhere IsKept ↔ e.Everywhere IsKept := by
  cases e with
  | selector base field => exact and_congr Iff.rfl (kept_withoutPlaces base)
  | paren inner => exact and_congr Iff.rfl (kept_withoutPlaces inner)
  | unary op operand => exact and_congr Iff.rfl (kept_withoutPlaces operand)
  | binary op left right =>
    exact and_congr Iff.rfl (and_congr (kept_withoutPlaces left) (kept_withoutPlaces right))
  | call callee args =>
    exact and_congr Iff.rfl (and_congr (kept_withoutPlaces callee) (allKept_withoutPlaces args))
  | _ => exact Iff.rfl

theorem allKept_withoutPlaces (es : List Expr) :
    AllEverywhere IsKept (allWithoutPlaces es) ↔ AllEverywhere IsKept es := by
  cases es with
  | nil => exact Iff.rfl
  | cons e es => exact and_congr (kept_withoutPlaces e) (allKept_withoutPlaces es)

end

/-! ### The tokens are of an expression -/

mutual

/-- Tokens of the kinds of an expression are those of the expression, wherever they stand. -/
theorem exists_written (e : Expr) (kept : e.Everywhere IsKept) {ts : List Token}
    (h : ts.map Token.kind = e.kinds) :
    ∃ e' : Expr, e'.Written ts ∧ e'.withoutPlaces = e.withoutPlaces := by
  cases e with
  | integer s =>
    obtain ⟨t, rfl, kind⟩ := List.map_eq_singleton_iff.mp h
    exact ⟨_, .integer kind, rfl⟩
  | float s =>
    obtain ⟨t, rfl, kind⟩ := List.map_eq_singleton_iff.mp h
    exact ⟨_, .float kind, rfl⟩
  | imaginary s =>
    obtain ⟨t, rfl, kind⟩ := List.map_eq_singleton_iff.mp h
    exact ⟨_, .imaginary kind, rfl⟩
  | rune code =>
    obtain ⟨t, rfl, kind⟩ := List.map_eq_singleton_iff.mp h
    exact ⟨_, .rune kind, rfl⟩
  | string body =>
    obtain ⟨t, rfl, kind⟩ := List.map_eq_singleton_iff.mp h
    exact ⟨_, .string kind, rfl⟩
  | name ident =>
    obtain ⟨t, rfl, kind⟩ := List.map_eq_singleton_iff.mp h
    exact ⟨_, .name kind, rfl⟩
  | selector base field =>
    obtain ⟨us, vs, rfl, base_kinds, h⟩ := List.map_eq_append_iff.mp h
    obtain ⟨dot, ws, rfl, dot_kind, h⟩ := List.map_eq_cons_iff.mp h
    obtain ⟨t, rfl, kind⟩ := List.map_eq_singleton_iff.mp h
    obtain ⟨base', written, same⟩ := exists_written base kept.2 base_kinds
    exact ⟨_, .selector written dot_kind kind, congrArg (selector · ⟨field.name, ⟨0, 0⟩⟩) same⟩
  | paren inner =>
    obtain ⟨us, vs, rfl, h, right⟩ := List.map_eq_append_iff.mp h
    obtain ⟨l, us, rfl, left, inner_kinds⟩ := List.map_eq_cons_iff.mp h
    obtain ⟨r, rfl, right_kind⟩ := List.map_eq_singleton_iff.mp right
    obtain ⟨inner', written, same⟩ := exists_written inner kept.2 inner_kinds
    exact ⟨_, .paren left written right_kind, congrArg paren same⟩
  | unary op operand =>
    obtain ⟨t, us, rfl, operator, operand_kinds⟩ := List.map_eq_cons_iff.mp h
    obtain ⟨operand', written, same⟩ := exists_written operand kept.2 operand_kinds
    exact ⟨_, .unary operator written, congrArg (unary op) same⟩
  | binary op left right =>
    obtain ⟨us, vs, rfl, left_kinds, h⟩ := List.map_eq_append_iff.mp h
    obtain ⟨t, vs, rfl, operator, right_kinds⟩ := List.map_eq_cons_iff.mp h
    obtain ⟨left', left_written, left_same⟩ := exists_written left kept.2.1 left_kinds
    obtain ⟨right', right_written, right_same⟩ := exists_written right kept.2.2 right_kinds
    exact ⟨_, .binary left_written operator right_written,
      congrArg₂ (binary op) left_same right_same⟩
  | call callee args =>
    obtain ⟨us, vs, rfl, h, right⟩ := List.map_eq_append_iff.mp h
    obtain ⟨us, ws, rfl, callee_kinds, h⟩ := List.map_eq_append_iff.mp h
    obtain ⟨l, ws, rfl, left, args_kinds⟩ := List.map_eq_cons_iff.mp h
    obtain ⟨r, rfl, right_kind⟩ := List.map_eq_singleton_iff.mp right
    obtain ⟨callee', callee_written, callee_same⟩ := exists_written callee kept.2.1 callee_kinds
    obtain ⟨args', args_written, args_same⟩ := exists_argumentsWritten args kept.2.2 args_kinds
    exact ⟨_, .call callee_written left args_written right_kind,
      congrArg₂ call callee_same args_same⟩
  | opaqueForm c => exact absurd kept id

theorem exists_argumentsWritten (es : List Expr) (kept : AllEverywhere IsKept es) {ts : List Token}
    (h : ts.map Token.kind = argumentKinds es) :
    ∃ es', ArgumentsWritten es' ts ∧ allWithoutPlaces es' = allWithoutPlaces es := by
  match es, kept, h with
  | [], kept, h =>
    obtain rfl := List.map_eq_nil_iff.mp h
    exact ⟨[], .nil, rfl⟩
  | [e], kept, h =>
    obtain ⟨e', written, same⟩ := exists_written e kept.1 h
    have tokens := ArgumentsWritten.last written .absent
    rw [List.append_nil] at tokens
    exact ⟨[e'], tokens, congrArg (fun e => [e]) same⟩
  | e :: f :: es, kept, h =>
    obtain ⟨us, vs, rfl, first, h⟩ := List.map_eq_append_iff.mp h
    obtain ⟨t, vs, rfl, comma, more⟩ := List.map_eq_cons_iff.mp h
    obtain ⟨e', written, same⟩ := exists_written e kept.1 first
    obtain ⟨es', written', same'⟩ := exists_argumentsWritten (f :: es) kept.2 more
    have tokens := ArgumentsWritten.cons written .absent comma written'
    rw [List.append_nil] at tokens
    exact ⟨e' :: es', tokens, congrArg₂ List.cons same same'⟩

end

/-- What is read from the tokens of a well bound expression is the expression, apart from places. -/
theorem exists_wellWritten {e : Expr} (kept : e.Everywhere IsKept) (bound : e.WellBound)
    {ts : List Token} (h : ts.map Token.kind = e.kinds) :
    ∃ e' : Expr, e'.WellWritten ts ∧ e'.Everywhere IsKept ∧ e'.withoutPlaces = e.withoutPlaces := by
  obtain ⟨e', written, same⟩ := exists_written e kept h
  refine ⟨e', ⟨written, ?_⟩, ?_, same⟩
  · rw [← wellBound_withoutPlaces, same, wellBound_withoutPlaces]
    exact bound
  · rw [← kept_withoutPlaces, same, kept_withoutPlaces]
    exact kept

/-! ## What can be printed -/

/-- The expression is a number. -/
def isNumber : Expr → Bool
  | integer _ | float _ | imaginary _ => true
  | _ => false

/-- The expression does not run together where it is printed: no name is selected from a number, and no
operator stands before another one with which it would be read as one symbol.  Characters and what is
opaque are left out. -/
def IsLegible : Expr → Prop
  | rune _ | string _ | opaqueForm _ => False
  | selector base _ => base.isNumber = false
  | unary op (unary op' _) => op.fuses op' = false
  | _ => True

/-- What can stand after a printed expression: what ends words, or the point of a selection. -/
def Before (e : Expr) (rest : List Char) : Prop :=
  ∀ d ∈ rest.head?, endsWord d = true ∨ d = '.' ∧ e.IsPrimary ∧ e.isNumber = false

theorem IsLegible.isKept {e : Expr} (h : e.IsLegible) : e.IsKept := by
  cases e with
  | opaqueForm c => exact h
  | _ => trivial

/-! ## The first character -/

/-- The character makes no longer symbol of an operator. -/
def startsPlain (c : Char) : Bool := !(['=', '+', '-', '&', '^'].contains c)

theorem startsPlain_of_goesOn {c : Char} (h : Chunk.goesOn c = false) : startsPlain c = true := by
  rw [startsPlain, Bool.not_eq_true', Bool.eq_false_iff]
  intro mem
  simp only [List.contains_iff_mem, List.mem_cons, List.not_mem_nil, or_false] at mem
  obtain rfl | rfl | rfl | rfl | rfl := mem <;> cases h

theorem startsPlain_of_isDigit {c : Char} (h : c.isDigit = true) : startsPlain c = true := by
  rw [startsPlain, Bool.not_eq_true', Bool.eq_false_iff]
  intro mem
  simp only [List.contains_iff_mem, List.mem_cons, List.not_mem_nil, or_false] at mem
  obtain rfl | rfl | rfl | rfl | rfl := mem <;> cases h

theorem exists_head_of_name {s : String} (h : IsIdentifier s) :
    ∃ c more, s.toList = c :: more ∧ startsPlain c = true := by
  have start := h.starts
  cases chars : s.toList with
  | nil =>
    rw [chars] at start
    cases start
  | cons c more =>
    rw [chars] at start
    have start : isNameStart c = true := start
    exact ⟨c, more, rfl, startsPlain_of_goesOn (Chunk.goesOn_of_isNameStart start)⟩

theorem exists_head_of_number {kind : TokenKind} {word : List Char} (h : IsNumber kind word) :
    ∃ c more, word = c :: more ∧ startsPlain c = true := by
  obtain ⟨text, starts, -, rfl⟩ := h
  have again := startsNumber_taken starts []
  rw [List.append_nil] at again
  obtain ⟨c, more, eq, digit⟩ | ⟨d, more, eq, -⟩ := startsNumber_cases again
  · exact ⟨c, more, eq, startsPlain_of_isDigit digit⟩
  · exact ⟨'.', d :: more, eq, rfl⟩

/-- An operand starts with a name, a number or a parenthesis. -/
theorem exists_head {e : Expr} (primary : e.IsPrimary) (legible : e.Everywhere IsLegible)
    (bound : e.WellBound) (scanned : ∀ k ∈ e.kinds, k.IsScanned) :
    ∃ c more, e.text.toList = c :: more ∧ startsPlain c = true := by
  have first : ∀ {k : TokenKind}, e.kinds = [k] → k.IsScanned := by
    intro k eq
    exact scanned k (by rw [eq]; exact List.mem_singleton_self k)
  cases e with
  | integer s => exact exists_head_of_number (first rfl)
  | float s => exact exists_head_of_number (first rfl)
  | imaginary s => exact exists_head_of_number (first rfl)
  | name ident => exact exists_head_of_name (first rfl)
  | paren inner => exact ⟨'(', inner.text.toList ++ [')'], by simp [text], rfl⟩
  | selector base field =>
    have scanned : ∀ k ∈ base.kinds, k.IsScanned := fun k hk => scanned k (by simp [kinds, hk])
    obtain ⟨c, more, eq, plain⟩ := exists_head bound.1 legible.2 bound.2 scanned
    exact ⟨c, more ++ '.' :: field.name.toList, by simp [text, eq], plain⟩
  | call callee args =>
    have scanned : ∀ k ∈ callee.kinds, k.IsScanned := fun k hk => scanned k (by simp [kinds, hk])
    obtain ⟨c, more, eq, plain⟩ := exists_head bound.1 legible.2.1 bound.2.1 scanned
    exact ⟨c, more ++ '(' :: (argsText args).toList ++ [')'], by simp [text, eq], plain⟩
  | unary | binary => exact absurd primary id
  | rune | string | opaqueForm => exact absurd legible id

/-- An operator stands before its operand without making a longer symbol. -/
theorem operand_apart {op : UnaryOp} {operand : Expr} (legible : (unary op operand).Everywhere IsLegible)
    (bound : (unary op operand).WellBound) (scanned : ∀ k ∈ operand.kinds, k.IsScanned)
    (rest : List Char) : ∀ d ∈ (operand.text.toList ++ rest).head?, d ∉ op.symbol.extensions := by
  have apart : ∀ d more, operand.text.toList = d :: more → d ∉ op.symbol.extensions →
      ∀ d ∈ (operand.text.toList ++ rest).head?, d ∉ op.symbol.extensions := by
    intro d more eq apart
    simpa [eq] using apart
  by_cases primary : operand.IsPrimary
  · obtain ⟨c, more, eq, plain⟩ := exists_head primary legible.2 bound.2 scanned
    refine apart c more eq fun longer => ?_
    have mark := List.all_eq_true.mp op.extensions_all c longer
    rw [startsPlain, mark] at plain
    cases plain
  · cases operand with
    | binary op' left right => exact absurd bound.1 (by simp [precedence?])
    | unary op' inner =>
      have fuses : op.fuses op' = false := legible.1
      obtain ⟨c, more, eq⟩ := List.exists_cons_of_ne_nil (spelling_ne_nil _ op'.symbol_spelled)
      have eq : op'.symbol.text.toList = c :: more := eq
      have first := UnaryOp.apart_of_fuses fuses
      rw [eq] at first
      refine apart c (more ++ inner.text.toList) ?_ (by simpa using first)
      simp [text, ← op'.symbol_text, eq]
    | _ => exact absurd trivial primary

/-! ## Scanning -/

end Expr

namespace Reads

variable {pending : Bool} {rest : List Char} {ks : List TokenKind}

theorem blank (more : Reads pending rest ks) : Reads pending (' ' :: rest) ks := by
  have none : ∀ c ∈ [' '], c = ' ' ∨ c = '\t' := by simp
  exact blanks none more

theorem symbol {s : Symbol} (spelled : (s.text.toList, s) ∈ Symbol.spellings)
    (before : (Chunk.symbol s).Before rest) (more : Reads (TokenKind.symbol s).endsStatement rest ks) :
    Reads pending (s.text.toList ++ rest) (.symbol s :: ks) :=
  word (Lexeme.readsAs_symbol spelled before) more

theorem name {s : String} (identifier : IsIdentifier s) (before : (Chunk.name s).Before rest)
    (more : Reads true rest ks) : Reads pending (s.toList ++ rest) (.name s :: ks) := by
  have read : Lexeme.ReadsAs s.toList rest (.name s) :=
    Lexeme.readsAs_chunk (c := .name s) identifier rfl before
  exact word read more

end Reads

namespace Expr

theorem isNamePart_of_endsWord (c : Char) (h : endsWord c = true) : isNamePart c = false := by
  have all : [' ', '\n', ',', '(', ')'].all (!isNamePart ·) = true := by decide
  simpa using List.all_eq_true.mp all c (List.contains_iff_mem.mp h)

theorem Before.ends {e : Expr} {rest : List Char} (h : e.Before rest)
    (other : ¬ (e.IsPrimary ∧ e.isNumber = false)) : ∀ d ∈ rest.head?, endsWord d = true := by
  intro d hd
  obtain ends | ⟨-, inner⟩ := h d hd
  · exact ends
  · exact absurd inner other

theorem Before.name {e : Expr} {rest : List Char} (h : e.Before rest) (s : String) :
    (Chunk.name s).Before rest := by
  intro d hd
  obtain ends | ⟨rfl, -⟩ := h d hd
  · exact isNamePart_of_endsWord d ends
  · decide

/-- What ends words can stand after every expression. -/
theorem before_of_endsWord (e : Expr) {c : Char} (h : endsWord c = true) (rest : List Char) :
    e.Before (c :: rest) := by
  intro d hd
  cases hd
  exact .inl h

/-- A selected name can stand after the point. -/
theorem dot_before {s : String} (identifier : IsIdentifier s) (rest : List Char) :
    (Chunk.symbol .dot).Before (s.toList ++ rest) := by
  obtain ⟨c, more, eq⟩ := List.exists_cons_of_ne_nil (Chunk.text_ne_nil (c := .name s) identifier)
  refine .inr fun d hd => ?_
  have eq : s.toList = c :: more := eq
  have start := identifier.starts
  rw [eq] at hd start
  cases hd
  exact Chunk.goesOn_of_isNameStart start

mutual

/-- **A printed expression is scanned as its tokens.** -/
theorem reads_text (e : Expr) (legible : e.Everywhere IsLegible) (bound : e.WellBound)
    (scanned : ∀ k ∈ e.kinds, k.IsScanned) {rest : List Char} (before : e.Before rest)
    {ks : List TokenKind} (more : Reads true rest ks) (pending : Bool) :
    Reads pending (e.text.toList ++ rest) (e.kinds ++ ks) := by
  have first : ∀ {k : TokenKind}, e.kinds = [k] → k.IsScanned := by
    intro k eq
    exact scanned k (by rw [eq]; exact List.mem_singleton_self k)
  cases e with
  | integer s => exact Reads.word (IsNumber.readsAs (first rfl) (before.ends (by simp [isNumber]))) more
  | float s => exact Reads.word (IsNumber.readsAs (first rfl) (before.ends (by simp [isNumber]))) more
  | imaginary s =>
    exact Reads.word (IsNumber.readsAs (first rfl) (before.ends (by simp [isNumber]))) more
  | name ident => exact Reads.name (first rfl) (before.name _) more
  | selector base field =>
    have base_scanned : ∀ k ∈ base.kinds, k.IsScanned := fun k hk => scanned k (by simp [kinds, hk])
    have identifier : IsIdentifier field.name := scanned (.name field.name) (by simp [kinds])
    have more' : Reads true ('.' :: (field.name.toList ++ rest))
        (.symbol .dot :: .name field.name :: ks) :=
      Reads.symbol (s := .dot) (by decide) (dot_before identifier rest)
        (Reads.name identifier (before.name _) more)
    have point : base.Before ('.' :: (field.name.toList ++ rest)) := by
      intro d hd
      cases hd
      exact .inr ⟨rfl, bound.1, legible.1⟩
    have read := reads_text base legible.2 bound.2 base_scanned point more' pending
    simpa [text, kinds] using read
  | paren inner =>
    have inner_scanned : ∀ k ∈ inner.kinds, k.IsScanned :=
      fun k hk => scanned k (by simp [kinds, hk])
    have more' : Reads true (')' :: rest) (.symbol .rightParen :: ks) :=
      Reads.symbol (s := .rightParen) (by decide) (.inl (by decide)) more
    have closes : inner.Before (')' :: rest) := before_of_endsWord inner (by decide) rest
    have read := reads_text inner legible.2 bound inner_scanned closes more' false
    have opened : Reads pending ('(' :: (inner.text.toList ++ ')' :: rest))
        (.symbol .leftParen :: (inner.kinds ++ .symbol .rightParen :: ks)) :=
      Reads.symbol (s := .leftParen) (by decide) (.inl (by decide)) read
    simpa [text, kinds] using opened
  | unary op operand =>
    have operand_scanned : ∀ k ∈ operand.kinds, k.IsScanned :=
      fun k hk => scanned k (by simp [kinds, hk])
    have ends : operand.Before rest := fun d hd => .inl (before.ends (fun h => h.1) d hd)
    have read := reads_text operand legible.2 bound.2 operand_scanned ends more
      (TokenKind.symbol op.symbol).endsStatement
    have symbol : Lexeme.ReadsAs op.symbol.text.toList (operand.text.toList ++ rest)
        (.symbol op.symbol) := by
      apply Lexeme.readsAs_symbol_alone op.symbol_spelled
        (operand_apart legible bound operand_scanned rest)
      · intro slash
        cases op <;> cases slash
      · intro dot
        cases op <;> cases dot
    have whole : Reads pending _ _ := Reads.word symbol read
    simpa [text, kinds, op.symbol_text] using whole
  | binary op left right =>
    have left_scanned : ∀ k ∈ left.kinds, k.IsScanned := fun k hk => scanned k (by simp [kinds, hk])
    have right_scanned : ∀ k ∈ right.kinds, k.IsScanned :=
      fun k hk => scanned k (by simp [kinds, hk])
    have ends : right.Before rest := fun d hd => .inl (before.ends (fun h => h.1) d hd)
    have read := reads_text right legible.2.2 bound.2.2.2 right_scanned ends more
    have symbol : Reads true (' ' :: (op.symbol.text.toList ++ ' ' :: (right.text.toList ++ rest)))
        (.symbol op.symbol :: (right.kinds ++ ks)) := by
      refine Reads.blank (Reads.symbol op.symbol_spelled (.inr ?_) (Reads.blank (read _)))
      intro d hd
      cases hd
      decide
    have blank : left.Before (' ' :: (op.symbol.text.toList ++ ' ' :: (right.text.toList ++ rest))) :=
      before_of_endsWord left (by decide) _
    have whole := reads_text left legible.2.1 bound.2.2.1 left_scanned blank symbol pending
    simpa [text, kinds, op.symbol_text] using whole
  | call callee args =>
    have callee_scanned : ∀ k ∈ callee.kinds, k.IsScanned :=
      fun k hk => scanned k (by simp [kinds, hk])
    have args_scanned : ∀ k ∈ argumentKinds args, k.IsScanned :=
      fun k hk => scanned k (by simp [kinds, hk])
    have more' : ∀ pending, Reads pending (')' :: rest) (.symbol .rightParen :: ks) :=
      fun pending => Reads.symbol (s := .rightParen) (by decide) (.inl (by decide)) more
    have read := reads_argsText args legible.2.2 bound.2.2 args_scanned more' false
    have opened : Reads true ('(' :: ((argsText args).toList ++ ')' :: rest))
        (.symbol .leftParen :: (argumentKinds args ++ .symbol .rightParen :: ks)) :=
      Reads.symbol (s := .leftParen) (by decide) (.inl (by decide)) read
    have opens : callee.Before ('(' :: ((argsText args).toList ++ ')' :: rest)) :=
      before_of_endsWord callee (by decide) _
    have whole := reads_text callee legible.2.1 bound.2.1 callee_scanned opens opened pending
    simpa [text, kinds] using whole
  | rune | string | opaqueForm => exact absurd legible id

theorem reads_argsText (es : List Expr) (legible : AllEverywhere IsLegible es)
    (bound : AllWellBound es) (scanned : ∀ k ∈ argumentKinds es, k.IsScanned) {rest : List Char}
    {ks : List TokenKind} (more : ∀ pending, Reads pending (')' :: rest) ks) (pending : Bool) :
    Reads pending ((argsText es).toList ++ ')' :: rest) (argumentKinds es ++ ks) := by
  match es, legible, bound, scanned with
  | [], _, _, _ => exact more pending
  | [e], legible, bound, scanned =>
    have closes : e.Before (')' :: rest) := before_of_endsWord e (by decide) rest
    exact reads_text e legible.1 bound.1 scanned closes (more true) pending
  | e :: f :: es, legible, bound, scanned =>
    have scanned' : ∀ k ∈ argumentKinds (f :: es), k.IsScanned :=
      fun k hk => scanned k (by simp [argumentKinds, hk])
    have read := reads_argsText (f :: es) legible.2 bound.2 scanned' more
    have comma : Reads true (',' :: ' ' :: ((argsText (f :: es)).toList ++ ')' :: rest))
        (.symbol .comma :: (argumentKinds (f :: es) ++ ks)) :=
      Reads.symbol (s := .comma) (by decide) (.inl (by decide)) (Reads.blank (read _))
    have ends : e.Before (',' :: ' ' :: ((argsText (f :: es)).toList ++ ')' :: rest)) :=
      before_of_endsWord e (by decide) _
    have first : ∀ k ∈ e.kinds, k.IsScanned := fun k hk => scanned k (by simp [argumentKinds, hk])
    have whole := reads_text e legible.1 bound.1 first ends comma pending
    simpa [argsText, argumentKinds] using whole

end

end Expr

end EnumCodec
