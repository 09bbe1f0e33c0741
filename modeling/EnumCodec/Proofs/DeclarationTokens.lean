import EnumCodec.Proofs.DeclarationGrammar
import EnumCodec.Proofs.ExpressionTokens

/-!
# The tokens of a declaration

Constant and type declarations as relations between a tree and all of its tokens, and the readers of
declarations measured by them: what a reader takes is written as the tree that it gives.

* `Separated`, `GroupLines`, `Declared` — items with commas between them, the lines of a group, and a
  declaration in both of its forms.
* `ConstSpec.Written`, `TypeSpec.Written` — one line.
* `ConstSpecReads.tokens`, `TypeSpecReads.tokens` — one line is taken.
* `DeclarationReads.tokens` — a whole declaration is taken, up to its end.
-/

set_option autoImplicit false

namespace EnumCodec

/-! ## The tokens of a tree -/

section Grammar

variable {α : Type}

/-- The tokens up to the rest are those of the item. -/
def Takes (Writes : α → List Token → Prop) (a : α) (ts rest : List Token) : Prop :=
  ∃ taken, ts = taken ++ rest ∧ Writes a taken

/-- The tokens are those of the items, with commas between them. -/
inductive Separated (Writes : α → List Token → Prop) : List α → List Token → Prop
  | one {a : α} {ts : List Token} (tokens : Writes a ts) : Separated Writes [a] ts
  | cons {a : α} {as : List α} {ts us : List Token} {comma : Token} (tokens : Writes a ts)
      (comma_kind : comma.kind = .symbol .comma) (more : Separated Writes as us) :
      Separated Writes (a :: as) (ts ++ comma :: us)

/-- The tokens are those of the lines of a group, from the line with some number on: each line ends
with a semicolon, which the last one can leave out, and semicolons alone count for nothing. -/
inductive GroupLines (Writes : Nat → α → List Token → Prop) : Nat → List α → List Token → Prop
  | nil {n : Nat} : GroupLines Writes n [] []
  | blank {n : Nat} {as : List α} {ts : List Token} {t : Token} (semicolon : t.kind = .semicolon)
      (more : GroupLines Writes n as ts) : GroupLines Writes n as (t :: ts)
  | last {n : Nat} {a : α} {ts : List Token} (tokens : Writes n a ts) : GroupLines Writes n [a] ts
  | line {n : Nat} {a : α} {as : List α} {ts us : List Token} {t : Token}
      (tokens : Writes n a ts) (semicolon : t.kind = .semicolon)
      (more : GroupLines Writes (n + 1) as us) : GroupLines Writes n (a :: as) (ts ++ t :: us)

/-- The tokens are those of a declaration after its first word: one line, or a group of lines in
parentheses. -/
inductive Declared (Writes : Nat → α → List Token → Prop) : List α → List Token → Prop
  | one {a : α} {ts : List Token} (tokens : Writes 0 a ts) : Declared Writes [a] ts
  | group {as : List α} {ts : List Token} {left right : Token}
      (left_kind : left.kind = .symbol .leftParen) (lines : GroupLines Writes 0 as ts)
      (right_kind : right.kind = .symbol .rightParen) : Declared Writes as (left :: ts ++ [right])

end Grammar

/-- The token of a name. -/
def Ident.Written (ident : Ident) (ts : List Token) : Prop :=
  ∃ t, ts = [t] ∧ t.kind = .name ident.name ∧ t.pos = ident.pos

/-- The tokens of a type name. -/
inductive TypeName.Written : TypeName → List Token → Prop
  | own {t : Token} {s : String} (kind : t.kind = .name s) : TypeName.Written (.own s) [t]
  | foreign {t dot u : Token} {s s' : String} (kind : t.kind = .name s)
      (dot_kind : dot.kind = .symbol .dot) (kind' : u.kind = .name s') :
      TypeName.Written (.foreign s s') [t, dot, u]

/-- The tokens of the type of a line of constants. -/
inductive ConstTypeWritten : Option TypeName → List Token → Prop
  | absent : ConstTypeWritten none []
  | present {name : TypeName} {ts : List Token} (tokens : name.Written ts) :
      ConstTypeWritten (some name) ts

/-- The tokens of the values of a line of constants. -/
inductive ConstValuesWritten : List Expr → List Token → Prop
  | absent : ConstValuesWritten [] []
  | present {es : List Expr} {ts : List Token} {assign : Token}
      (assign_kind : assign.kind = .symbol .assign) (tokens : Separated Expr.WellWritten es ts) :
      ConstValuesWritten es (assign :: ts)

/-- The tokens of a line of constants, the one with some number in its group. -/
inductive ConstSpec.Written (n : Nat) : ConstSpec → List Token → Prop
  | line {spec : ConstSpec} {names type values : List Token}
      (names_tokens : Separated Ident.Written spec.names names)
      (type_tokens : ConstTypeWritten spec.type type)
      (values_tokens : ConstValuesWritten spec.values values) (number : spec.iota = n)
      (count : valueCountProblem? spec = none) :
      ConstSpec.Written n spec (names ++ type ++ values)

/-- The tokens of what a type is declared as.  Before a closing parenthesis nothing at all passes for
a type that is not a name. -/
inductive TypeShape.Written : TypeShape → List Token → Prop
  | named {name : TypeName} {ts : List Token} (tokens : name.Written ts) :
      TypeShape.Written (.named name) ts
  | composite {t : Token} {ts : List Token} {lead : String} (first : leadText? t.kind = some lead)
      (enclosed : IsEnclosed (t :: ts)) (other : ∀ name : TypeName, ¬ name.Written (t :: ts)) :
      TypeShape.Written (.composite lead) (t :: ts)
  | missing : TypeShape.Written (.composite Symbol.rightParen.text) []

/-- The tokens of the declaration of one type. -/
inductive TypeSpec.Written : TypeSpec → List Token → Prop
  | declared {name : Ident} {shape : TypeShape} {us ts : List Token} (name_tokens : name.Written us)
      (no_assign : kindAt ts ≠ .symbol .assign) (tokens : shape.Written ts) :
      TypeSpec.Written ⟨name, false, shape⟩ (us ++ ts)
  | aliased {name : Ident} {shape : TypeShape} {us ts : List Token} {assign : Token}
      (name_tokens : name.Written us) (assign_kind : assign.kind = .symbol .assign)
      (tokens : shape.Written ts) :
      TypeSpec.Written ⟨name, true, shape⟩ (us ++ assign :: ts)

/-! ## Brackets -/

section Brackets

variable {α : Type} {ts : List Token}

theorem Ident.Written.isEnclosed {ident : Ident} (h : ident.Written ts) : IsEnclosed ts := by
  obtain ⟨t, rfl, kind, -⟩ := h
  exact .plain (by rw [kind]; rfl)

theorem TypeName.Written.isEnclosed {name : TypeName} (h : name.Written ts) : IsEnclosed ts := by
  cases h with
  | own kind => exact .plain (by rw [kind]; rfl)
  | foreign kind dot kind' =>
    exact .cons (by rw [kind]; rfl) (.cons (by rw [dot]; rfl) (.plain (by rw [kind']; rfl)))

theorem Separated.isEnclosed {Writes : α → List Token → Prop} {as : List α}
    (enclosed : ∀ a us, Writes a us → IsEnclosed us) (h : Separated Writes as ts) :
    IsEnclosed ts := by
  induction h with
  | one tokens => exact enclosed _ _ tokens
  | cons tokens comma more ih => exact (enclosed _ _ tokens).append (.cons (by rw [comma]; rfl) ih)

theorem ConstTypeWritten.isEnclosed {type : Option TypeName} (h : ConstTypeWritten type ts) :
    IsEnclosed ts := by
  cases h with
  | absent => exact .nil
  | present tokens => exact tokens.isEnclosed

theorem ConstValuesWritten.isEnclosed {es : List Expr} (h : ConstValuesWritten es ts) :
    IsEnclosed ts := by
  cases h with
  | absent => exact .nil
  | present assign tokens =>
    exact .cons (by rw [assign]; rfl) (tokens.isEnclosed fun _ _ h => h.written.isEnclosed)

theorem ConstSpec.Written.isEnclosed {n : Nat} {spec : ConstSpec} (h : spec.Written n ts) :
    IsEnclosed ts := by
  obtain ⟨names, type, values, -, -⟩ := h
  exact ((names.isEnclosed fun _ _ => Ident.Written.isEnclosed).append type.isEnclosed).append
    values.isEnclosed

theorem TypeShape.Written.isEnclosed {shape : TypeShape} (h : shape.Written ts) :
    IsEnclosed ts := by
  cases h with
  | named tokens => exact tokens.isEnclosed
  | composite first enclosed other => exact enclosed
  | missing => exact .nil

theorem TypeSpec.Written.isEnclosed {spec : TypeSpec} (h : spec.Written ts) : IsEnclosed ts := by
  cases h with
  | declared name _ shape => exact name.isEnclosed.append shape.isEnclosed
  | aliased name assign shape =>
    exact name.isEnclosed.append (.cons (by rw [assign]; rfl) shape.isEnclosed)

/-- Between the parentheses of a group semicolons do not count. -/
theorem GroupLines.inside {Writes : Nat → α → List Token → Prop} {n : Nat} {as : List α}
    (enclosed : ∀ n a us, Writes n a us → IsEnclosed us) (h : GroupLines Writes n as ts) :
    depthAfter? 1 ts = some 1 := by
  induction h with
  | nil => rfl
  | blank semicolon more ih =>
    rw [depthAfter?_cons (depthAfterOne?_semicolon semicolon)]
    exact ih
  | last tokens => exact (enclosed _ _ _ tokens).inside 1
  | line tokens semicolon more ih =>
    rw [depthAfter?_append ((enclosed _ _ _ tokens).inside 1),
      depthAfter?_cons (depthAfterOne?_semicolon semicolon)]
    exact ih

theorem Declared.isEnclosed {Writes : Nat → α → List Token → Prop} {as : List α}
    (enclosed : ∀ n a us, Writes n a us → IsEnclosed us) (h : Declared Writes as ts) :
    IsEnclosed ts := by
  cases h with
  | one tokens => exact enclosed _ _ _ tokens
  | group left lines right =>
    exact .bracket (by rw [left]; rfl) (lines.inside enclosed) (by rw [right]; rfl)

end Brackets

/-! ## One of several -/

section Members

variable {α : Type} {ts : List Token}

theorem Separated.exists_mem {Writes : α → List Token → Prop} {as : List α}
    (h : Separated Writes as ts) {a : α} (ha : a ∈ as) : ∃ us, us ⊆ ts ∧ Writes a us := by
  induction h with
  | one tokens =>
    obtain rfl := List.mem_singleton.mp ha
    exact ⟨_, List.Subset.refl _, tokens⟩
  | cons tokens comma more ih =>
    obtain rfl | ha := List.mem_cons.mp ha
    · exact ⟨_, List.subset_append_left .., tokens⟩
    · obtain ⟨us, sub, written⟩ := ih ha
      exact ⟨us, List.subset_append_of_subset_right _ (List.subset_cons_of_subset _ sub), written⟩

theorem GroupLines.exists_mem {Writes : Nat → α → List Token → Prop} {n : Nat} {as : List α}
    (h : GroupLines Writes n as ts) {a : α} (ha : a ∈ as) : ∃ n us, us ⊆ ts ∧ Writes n a us := by
  induction h with
  | nil => cases ha
  | blank semicolon more ih =>
    obtain ⟨n, us, sub, written⟩ := ih ha
    exact ⟨n, us, List.subset_cons_of_subset _ sub, written⟩
  | last tokens =>
    obtain rfl := List.mem_singleton.mp ha
    exact ⟨_, _, List.Subset.refl _, tokens⟩
  | line tokens semicolon more ih =>
    obtain rfl | ha := List.mem_cons.mp ha
    · exact ⟨_, _, List.subset_append_left .., tokens⟩
    · obtain ⟨n, us, sub, written⟩ := ih ha
      exact ⟨n, us, List.subset_append_of_subset_right _ (List.subset_cons_of_subset _ sub), written⟩

theorem Declared.exists_mem {Writes : Nat → α → List Token → Prop} {as : List α}
    (h : Declared Writes as ts) {a : α} (ha : a ∈ as) : ∃ n us, us ⊆ ts ∧ Writes n a us := by
  cases h with
  | one tokens =>
    obtain rfl := List.mem_singleton.mp ha
    exact ⟨_, _, List.Subset.refl _, tokens⟩
  | group left lines right =>
    obtain ⟨n, us, sub, written⟩ := lines.exists_mem ha
    refine ⟨n, us, ?_, written⟩
    exact List.subset_append_of_subset_left _ (List.subset_cons_of_subset _ sub)

end Members

/-! ## Going on -/

theorem skipSymbol_cases (s : Symbol) (ts : List Token) :
    (atSymbol s ts = false ∧ kindAt ts ≠ .symbol s ∧ skipSymbol s ts = ts) ∨
      ∃ t, atSymbol s ts = true ∧ t.kind = .symbol s ∧ ts = t :: skipSymbol s ts := by
  cases ts with
  | nil => exact .inl ⟨rfl, by simp [kindAt], rfl⟩
  | cons t rest =>
    by_cases symbol : t.kind = .symbol s
    · exact .inr ⟨t, by simp [atSymbol, kindAt, symbol], symbol, by simp [skipSymbol, symbol]⟩
    · exact .inl ⟨by simp [atSymbol, kindAt, symbol], symbol, by simp [skipSymbol, symbol]⟩

namespace Takes

variable {α : Type} {Writes : α → List Token → Prop} {ts rest rest' : List Token} {t : Token} {a : α}

theorem none (written : Writes a []) : Takes Writes a ts ts := ⟨[], rfl, written⟩

theorem map {β : Type} {Writes' : β → List Token → Prop} {b : β} (h : Takes Writes a ts rest)
    (written : ∀ taken, Writes a taken → Writes' b taken) : Takes Writes' b ts rest := by
  obtain ⟨taken, eq, h⟩ := h
  exact ⟨taken, eq, written taken h⟩

theorem after {β : Type} {Writes' : β → List Token → Prop} {b : β} (h : Takes Writes a ts rest)
    (written : ∀ taken, Writes a taken → Writes' b (t :: taken)) :
    Takes Writes' b (t :: ts) rest := by
  obtain ⟨taken, rfl, h⟩ := h
  exact ⟨t :: taken, rfl, written taken h⟩

theorem separated {as : List α} (h : Takes Writes a ts (t :: rest)) (comma : t.kind = .symbol .comma)
    (more : Takes (Separated Writes) as rest rest') :
    Takes (Separated Writes) (a :: as) ts rest' := by
  obtain ⟨taken, rfl, written⟩ := h
  obtain ⟨taken', rfl, written'⟩ := more
  exact ⟨taken ++ t :: taken', by simp, .cons written comma written'⟩

theorem constLine {n : Nat} {spec : ConstSpec} {us vs : List Token}
    (names : Takes (Separated Ident.Written) spec.names ts us)
    (type : Takes ConstTypeWritten spec.type us vs)
    (values : Takes ConstValuesWritten spec.values vs rest) (number : spec.iota = n)
    (count : valueCountProblem? spec = Option.none) : Takes (ConstSpec.Written n) spec ts rest := by
  obtain ⟨us, rfl, names⟩ := names
  obtain ⟨vs, rfl, type⟩ := type
  obtain ⟨ws, rfl, values⟩ := values
  exact ⟨us ++ vs ++ ws, by simp, .line names type values number count⟩

theorem declaredType {name : Ident} {shape : TypeShape} (h : Takes Ident.Written name ts rest)
    (no_assign : kindAt rest ≠ .symbol .assign) (h' : Takes TypeShape.Written shape rest rest') :
    Takes TypeSpec.Written ⟨name, false, shape⟩ ts rest' := by
  obtain ⟨us, rfl, name⟩ := h
  obtain ⟨vs, rfl, shape⟩ := h'
  refine ⟨us ++ vs, by simp, .declared name ?_ shape⟩
  intro assign
  cases vs with
  | nil => cases assign
  | cons v vs => exact no_assign assign

theorem aliasedType {name : Ident} {shape : TypeShape} (h : Takes Ident.Written name ts (t :: rest))
    (assign : t.kind = .symbol .assign) (h' : Takes TypeShape.Written shape rest rest') :
    Takes TypeSpec.Written ⟨name, true, shape⟩ ts rest' := by
  obtain ⟨us, rfl, name⟩ := h
  obtain ⟨vs, rfl, shape⟩ := h'
  exact ⟨us ++ t :: vs, by simp, .aliased name assign shape⟩

end Takes

/-! ## Names and types -/

section Names

variable {ts rest : List Token}

theorem NameReads.tokens {ident : Ident} (h : NameReads ts ident rest) :
    Takes Ident.Written ident ts rest := by
  obtain ⟨kind⟩ := h
  exact ⟨[_], rfl, _, rfl, kind, rfl⟩

theorem MoreNamesReads.tokens {names : List Ident} (h : MoreNamesReads ts names rest) {first : Ident}
    {all : List Token} (taken : Takes Ident.Written first all ts) :
    Takes (Separated Ident.Written) (first :: names) all rest := by
  induction h generalizing first all with
  | stops _ => exact taken.map fun _ written => .one written
  | cons comma name _ ih => exact taken.separated comma (ih name.tokens)

theorem TypeNameReads.tokens {type : TypeName} (h : TypeNameReads ts type rest) :
    Takes TypeName.Written type ts rest := by
  cases h with
  | own name _ =>
    obtain ⟨kind⟩ := name
    exact ⟨[_], rfl, .own kind⟩
  | foreign name dot second =>
    generalize eq : _ :: _ = middle at name
    obtain ⟨kind⟩ := name
    obtain ⟨kind'⟩ := second
    rw [← eq]
    exact ⟨[_, _, _], rfl, .foreign kind dot kind'⟩

end Names

/-! ## Constants -/

section Constants

variable {ts rest : List Token}

theorem ConstTypeReads.tokens {type : Option TypeName} (h : ConstTypeReads ts type rest) :
    Takes ConstTypeWritten type ts rest := by
  cases h with
  | absent _ => exact .none .absent
  | present name => exact name.tokens.map fun _ written => .present written

theorem ExprsReads.tokens {es : List Expr} (h : ExprsReads ts es rest) :
    Takes (Separated Expr.WellWritten) es ts rest := by
  have one : ∀ {e : Expr} {ts rest : List Token}, BinaryReads 1 ts e rest →
      Takes Expr.WellWritten e ts rest := by
    intro e ts rest value
    obtain ⟨⟨⟨taken, eq, written⟩, bound⟩, -, -⟩ := value.spec
    exact ⟨taken, eq, written, bound⟩
  induction h with
  | one value _ => exact (one value).map fun _ written => .one written
  | cons value comma _ ih => exact (one value).separated comma ih

theorem ConstValuesReads.tokens {es : List Expr} (h : ConstValuesReads ts es rest) :
    Takes ConstValuesWritten es ts rest := by
  cases h with
  | absent _ => exact .none .absent
  | present assign values => exact values.tokens.after fun _ written => .present assign written

theorem ConstSpecReads.tokens {n : Nat} {spec : ConstSpec} (h : ConstSpecReads n ts spec rest) :
    Takes (ConstSpec.Written n) spec ts rest := by
  obtain ⟨first, names, type, values, count⟩ := h
  exact .constLine (names.tokens first.tokens) type.tokens values.tokens rfl count

end Constants

/-! ## Types -/

section Types

variable {ts rest : List Token}

theorem kindAt_cons (t : Token) (ts : List Token) : kindAt (t :: ts) = t.kind := rfl

/-- Tokens that are a type name, up to what ends a declaration, are seen to be one. -/
theorem atLoneTypeName_of_written {name : TypeName} (h : name.Written ts)
    (stop : endsTypeSpec (kindAt rest) = true) : atLoneTypeName (ts ++ rest) = true := by
  cases h with
  | own kind => simp [atLoneTypeName, kindAt_cons, kind, stop]
  | foreign kind dot kind' => simp [atLoneTypeName, atSymbol, kindAt_cons, kind, dot, kind', stop]

theorem TypeShapeReads.tokens {shape : TypeShape} (h : TypeShapeReads ts shape rest) :
    Takes TypeShape.Written shape ts rest := by
  cases h with
  | named _ name => exact name.tokens.map fun _ written => .named written
  | composite other first skipped =>
    obtain ⟨⟨taken, rfl, enclosed⟩, stop⟩ := skipType_depth skipped
    cases taken with
    | nil =>
      -- of what ends a declaration only the closing parenthesis has a text to describe a type
      rw [List.nil_append] at first
      obtain kind | kind | kind := endsTypeSpec_iff.mp stop
      · rw [kind] at first
        cases first
      · rw [kind] at first
        cases first
      · rw [kind] at first
        cases first
        exact ⟨[], rfl, .missing⟩
    | cons t taken =>
      refine ⟨t :: taken, rfl, .composite first enclosed ?_⟩
      intro name written
      exact other (atLoneTypeName_of_written written stop)

theorem TypeSpecReads.tokens {spec : TypeSpec} (h : TypeSpecReads ts spec rest) :
    Takes TypeSpec.Written spec ts rest := by
  obtain ⟨name, type⟩ := h
  rename_i middle
  have name_taken := name.tokens
  have type_taken := type.tokens
  obtain ⟨here, kind, same⟩ | ⟨t, here, kind, assign⟩ := skipSymbol_cases .assign middle
  · rw [same] at type_taken
    rw [here]
    exact name_taken.declaredType kind type_taken
  · rw [here]
    rw [assign] at name_taken
    exact name_taken.aliasedType kind type_taken

end Types

/-! ## Declarations -/

section Declarations

variable {α : Type} {Line : Nat → List Token → α → List Token → Prop}
  {Writes : Nat → α → List Token → Prop} {n : Nat} {as : List α} {ts rest : List Token}

/-- The lines of a group and its closing parenthesis. -/
def GroupTaken (Writes : Nat → α → List Token → Prop) (n : Nat) (as : List α)
    (ts rest : List Token) : Prop :=
  ∃ lines close, ts = lines ++ close :: rest ∧ GroupLines Writes n as lines ∧
    close.kind = .symbol .rightParen

/-- No line comes after a closing parenthesis. -/
theorem GroupReads.closes (h : GroupReads Line n ts as rest) (right : kindAt ts = .symbol .rightParen) :
    as = [] ∧ ∃ t, ts = t :: rest := by
  cases h with
  | close _ => exact ⟨rfl, _, rfl⟩
  | blank semicolon _ => cases semicolon.symm.trans right
  | line inner _ _ _ _ => exact absurd right inner

/-- A group takes its lines. -/
theorem GroupReads.tokens (line : ∀ n ts a rest, Line n ts a rest → Takes (Writes n) a ts rest)
    (h : GroupReads Line n ts as rest) : GroupTaken Writes n as ts rest := by
  induction h with
  | close right => exact ⟨[], _, rfl, .nil, right⟩
  | blank semicolon _ ih =>
    obtain ⟨lines, close, rfl, written, right⟩ := ih
    exact ⟨_ :: lines, close, rfl, .blank semicolon written, right⟩
  | line _ _ one ended more ih =>
    obtain ⟨taken, rfl, written⟩ := line _ _ _ _ one
    cases ended with
    | semicolon semicolon =>
      obtain ⟨lines, close, rfl, written', right⟩ := ih
      exact ⟨taken ++ _ :: lines, close, by simp, .line written semicolon written', right⟩
    | right right =>
      obtain ⟨rfl, close, rfl⟩ := more.closes right
      exact ⟨taken, close, rfl, .last written, right⟩

/-- A declaration after its first word takes its lines, up to its end. -/
theorem DeclarationReads.tokens
    (line : ∀ n ts a rest, Line n ts a rest → Takes (Writes n) a ts rest)
    (h : DeclarationReads Line ts as rest) :
    ∃ stop, Takes (Declared Writes) as ts (stop ++ rest) ∧ DeclarationEnd stop rest := by
  cases h with
  | one _ one ended => exact ⟨_, (line _ _ _ _ one).map fun _ written => .one written, ended⟩
  | group left lines ended =>
    obtain ⟨taken, close, rfl, written, right⟩ := lines.tokens line
    exact ⟨_, ⟨_ :: taken ++ [close], by simp, .group left written right⟩, ended⟩

end Declarations

end EnumCodec
