import EnumCodec.Syntax.Expression

/-!
# Brackets

`depthAfter?` counts the brackets that are open after some tokens.  The count fails at the end of the
text, at a bracket that closes none, and at a semicolon outside of brackets; tokens are enclosed if it
starts and ends with no open bracket.

* `depthAfter?_add`, `IsEnclosed.inside` — what is counted within brackets.
* `skipBracket_depth`, `skipTypeOperand_depth`, `skipOperand?_depth` — what is passed over in an
  expression closes its brackets.
* `skipType_depth`, `skipDeclaration_depth` — what is passed over as a type or as a declaration, and
  where that stops.
-/

set_option autoImplicit false

namespace EnumCodec

/-! ## Counting -/

/-- The number of open brackets after one token. -/
def depthAfterOne? (depth : Nat) (t : Token) : Option Nat :=
  if t.kind = .endOfText ∨ t.kind = .semicolon ∧ depth = 0 then none
  else if t.kind.opens then some (depth + 1)
  else if t.kind.closes then
    match depth with
    | 0 => none
    | outer + 1 => some outer
  else some depth

/-- The number of open brackets after some tokens. -/
def depthAfter? (depth : Nat) (ts : List Token) : Option Nat := ts.foldlM depthAfterOne? depth

/-- Every bracket of the tokens is closed among them, and no semicolon stands outside of brackets. -/
def IsEnclosed (ts : List Token) : Prop := depthAfter? 0 ts = some 0

instance (ts : List Token) : Decidable (IsEnclosed ts) := inferInstanceAs (Decidable (_ = _))

/-- The token is no bracket, no semicolon and not the end of the text. -/
def TokenKind.isPlain (k : TokenKind) : Bool :=
  !k.opens && !k.closes && k != .semicolon && k != .endOfText

variable {depth : Nat} {t : Token} {ts us rest : List Token}

theorem depthAfter?_nil : depthAfter? depth [] = some depth := rfl

theorem depthAfter?_cons {next : Nat} (h : depthAfterOne? depth t = some next) :
    depthAfter? depth (t :: ts) = depthAfter? next ts := by
  simp [depthAfter?, h]

theorem depthAfter?_append {middle : Nat} (h : depthAfter? depth ts = some middle) :
    depthAfter? depth (ts ++ us) = depthAfter? middle us := by
  unfold depthAfter? at h ⊢
  simp [h]

theorem depthAfterOne?_plain (h : t.kind.isPlain = true) : depthAfterOne? depth t = some depth := by
  simp only [TokenKind.isPlain, Bool.and_eq_true, Bool.not_eq_true', bne_iff_ne] at h
  obtain ⟨⟨⟨opens, closes⟩, semicolon⟩, last⟩ := h
  simp [depthAfterOne?, opens, closes, semicolon, last]

theorem TokenKind.symbol_of_opens {k : TokenKind} (h : k.opens = true) : ∃ s, k = .symbol s := by
  cases k <;> first | exact ⟨_, rfl⟩ | cases h

theorem TokenKind.symbol_of_closes {k : TokenKind} (h : k.closes = true) : ∃ s, k = .symbol s := by
  cases k <;> first | exact ⟨_, rfl⟩ | cases h

theorem TokenKind.closes_of_opens {k : TokenKind} (h : k.opens = true) : k.closes = false := by
  obtain ⟨s, rfl⟩ := symbol_of_opens h
  cases s <;> first | rfl | cases h

theorem depthAfterOne?_opens (h : t.kind.opens = true) :
    depthAfterOne? depth t = some (depth + 1) := by
  obtain ⟨s, symbol⟩ := TokenKind.symbol_of_opens h
  simp [depthAfterOne?, symbol, symbol ▸ h]

theorem depthAfterOne?_closes (h : t.kind.closes = true) :
    depthAfterOne? (depth + 1) t = some depth := by
  obtain ⟨s, symbol⟩ := TokenKind.symbol_of_closes h
  have opens : t.kind.opens = false := by
    rw [Bool.eq_false_iff]
    intro opens
    rw [TokenKind.closes_of_opens opens] at h
    cases h
  rw [symbol] at opens h
  simp [depthAfterOne?, symbol, opens, h]

/-- Within brackets a semicolon does not count. -/
theorem depthAfterOne?_semicolon (h : t.kind = .semicolon) :
    depthAfterOne? (depth + 1) t = some (depth + 1) := by
  simp [depthAfterOne?, h, TokenKind.opens, TokenKind.closes]

theorem depthAfterOne?_add {next : Nat} (h : depthAfterOne? depth t = some next) (outer : Nat) :
    depthAfterOne? (depth + outer) t = some (next + outer) := by
  unfold depthAfterOne? at h ⊢
  split at h
  · cases h
  rename_i inner
  rw [not_or, not_and] at inner
  have inner' : ¬ (t.kind = .endOfText ∨ t.kind = .semicolon ∧ depth + outer = 0) := by
    rintro (last | ⟨semicolon, none⟩)
    · exact inner.1 last
    · exact inner.2 semicolon (by omega)
  rw [if_neg inner']
  split at h
  · rename_i opens
    cases h
    rw [if_pos opens]
    congr 1
    omega
  rename_i opens
  rw [if_neg opens]
  split at h
  · rename_i closes
    rw [if_pos closes]
    cases depth with
    | zero => cases h
    | succ d =>
      cases h
      rw [Nat.add_right_comm]
  · rename_i closes
    cases h
    rw [if_neg closes]

/-- Brackets around the tokens do not change what the tokens open and close. -/
theorem depthAfter?_add {next : Nat} (h : depthAfter? depth ts = some next) (outer : Nat) :
    depthAfter? (depth + outer) ts = some (next + outer) := by
  induction ts generalizing depth with
  | nil =>
    cases h
    rfl
  | cons t ts ih =>
    cases one : depthAfterOne? depth t with
    | none =>
      unfold depthAfter? at h
      simp [one] at h
    | some middle =>
      rw [depthAfter?_cons one] at h
      rw [depthAfter?_cons (depthAfterOne?_add one outer)]
      exact ih h

/-- The end of the text is not counted over. -/
theorem ne_endOfText_of_depthAfter? {next : Nat} (h : depthAfter? depth ts = some next) :
    ∀ t ∈ ts, t.kind ≠ .endOfText := by
  induction ts generalizing depth with
  | nil => exact List.forall_mem_nil _
  | cons t ts ih =>
    cases one : depthAfterOne? depth t with
    | none =>
      unfold depthAfter? at h
      simp [one] at h
    | some middle =>
      rw [depthAfter?_cons one] at h
      refine List.forall_mem_cons.mpr ⟨?_, ih h⟩
      intro last
      simp [depthAfterOne?, last] at one

/-! ## Enclosed tokens -/

namespace IsEnclosed

theorem nil : IsEnclosed [] := rfl

theorem plain (h : t.kind.isPlain = true) : IsEnclosed [t] := by
  unfold IsEnclosed
  rw [depthAfter?_cons (depthAfterOne?_plain h)]
  rfl

theorem inside (h : IsEnclosed ts) (depth : Nat) : depthAfter? depth ts = some depth := by
  have := depthAfter?_add h depth
  rwa [Nat.zero_add] at this

theorem append (h : IsEnclosed ts) (h' : IsEnclosed us) : IsEnclosed (ts ++ us) := by
  unfold IsEnclosed
  rw [depthAfter?_append h]
  exact h'

theorem cons (h : t.kind.isPlain = true) (h' : IsEnclosed ts) : IsEnclosed (t :: ts) :=
  (plain h).append h'

/-- What stands within brackets may have semicolons. -/
theorem bracket {close : Token} (opens : t.kind.opens = true) (inner : depthAfter? 1 ts = some 1)
    (closes : close.kind.closes = true) : IsEnclosed (t :: ts ++ [close]) := by
  unfold IsEnclosed
  rw [List.cons_append, depthAfter?_cons (depthAfterOne?_opens opens), depthAfter?_append inner,
    depthAfter?_cons (depthAfterOne?_closes closes)]
  rfl

theorem ne_endOfText (h : IsEnclosed ts) : ∀ t ∈ ts, t.kind ≠ .endOfText :=
  ne_endOfText_of_depthAfter? h

end IsEnclosed

/-! ## What is passed over in an expression -/

/-- The tokens before the rest close the brackets that are open, and those that they open. -/
def ClosesBefore (depth : Nat) (ts rest : List Token) : Prop :=
  ∃ taken, ts = taken ++ rest ∧ depthAfter? depth taken = some 0

namespace ClosesBefore

theorem here (ts : List Token) : ClosesBefore 0 ts ts := ⟨[], rfl, rfl⟩

theorem after {next : Nat} (one : depthAfterOne? depth t = some next)
    (h : ClosesBefore next ts rest) : ClosesBefore depth (t :: ts) rest := by
  obtain ⟨taken, rfl, closed⟩ := h
  exact ⟨t :: taken, rfl, by rw [depthAfter?_cons one, closed]⟩

theorem trans {middle : List Token} (h : ClosesBefore depth ts middle)
    (h' : ClosesBefore 0 middle rest) : ClosesBefore depth ts rest := by
  obtain ⟨first, rfl, closed⟩ := h
  obtain ⟨second, rfl, closed'⟩ := h'
  exact ⟨first ++ second, by rw [List.append_assoc], by rw [depthAfter?_append closed, closed']⟩

end ClosesBefore

/-- The rest of a bracket: the brackets that are open are closed. -/
theorem skipBracket_depth {inner : Nat} (h : skipBracket inner ts = .ok rest) :
    ClosesBefore (inner + 1) ts rest := by
  induction ts generalizing inner with
  | nil => cases h
  | cons t ts ih =>
    rw [skipBracket] at h
    split at h
    · cases h
    rename_i last
    split at h
    · rename_i opens
      exact (ih h).after (depthAfterOne?_opens opens)
    rename_i opens
    split at h
    · rename_i closes
      cases inner with
      | zero =>
        cases h
        exact (ClosesBefore.here _).after (depthAfterOne?_closes closes)
      | succ inner => exact (ih h).after (depthAfterOne?_closes closes)
    · rename_i closes
      refine (ih h).after ?_
      simp [depthAfterOne?, last, opens, closes]

theorem readBracket_depth {p : Parsed ts.length Unit} (h : readBracket ts = .ok p) :
    ClosesBefore 1 ts p.rest := by
  unfold readBracket at h
  split at h
  · cases h
  rename_i rest skipped
  cases h
  exact skipBracket_depth skipped

theorem skipBracketAt_depth {s : Symbol} (opens : s.opens = true)
    (h : skipBracketAt s ts = .ok rest) : ClosesBefore 0 ts rest := by
  unfold skipBracketAt at h
  split at h
  · cases h
    exact .here _
  split at h
  · rename_i symbol
    exact (skipBracket_depth h).after (depthAfterOne?_opens (by rw [symbol]; exact opens))
  · cases h
    exact .here _

/-- A type that is used as an operand: the brackets that are open are closed. -/
theorem skipTypeOperand_depth (h : skipTypeOperand depth ts = .ok rest) :
    ClosesBefore depth ts rest := by
  induction ts generalizing depth with
  | nil => cases h
  | cons t ts ih =>
    rw [skipTypeOperand] at h
    split at h
    · cases h
    rename_i last
    split at h
    · rename_i stop
      cases h
      rw [stop.1]
      exact .here _
    rename_i stop
    split at h
    · rename_i opens
      exact (ih h).after (depthAfterOne?_opens opens)
    rename_i opens
    split at h
    · rename_i closes
      cases depth with
      | zero =>
        -- outside of brackets a closing bracket ends the operand
        obtain ⟨s, symbol⟩ := TokenKind.symbol_of_closes closes
        rw [symbol] at stop closes
        refine absurd ⟨rfl, ?_⟩ stop
        cases s <;> first | rfl | cases closes
      | succ outer => exact (ih h).after (depthAfterOne?_closes closes)
    · rename_i closes
      have semicolon : ¬ (t.kind = .semicolon ∧ depth = 0) := by
        rintro ⟨semicolon, none⟩
        exact stop ⟨none, by rw [semicolon]; rfl⟩
      refine (ih h).after ?_
      simp [depthAfterOne?, last, semicolon, opens, closes]

theorem skipSignature_depth (h : skipSignature ts = .ok rest) : ClosesBefore 0 ts rest := by
  unfold skipSignature at h
  cases parameters : skipBracketAt .leftParen ts with
  | error e => simp [parameters, bind, Except.bind] at h
  | ok middle =>
    simp only [parameters, bind, Except.bind] at h
    apply (skipBracketAt_depth rfl parameters).trans
    split at h
    · exact skipBracketAt_depth rfl h
    · exact skipTypeOperand_depth h

theorem skipFunction_depth {c : Construct} (h : skipFunction ts = .ok (c, rest)) :
    ClosesBefore 0 ts rest := by
  unfold skipFunction at h
  split at h
  · cases h
  rename_i middle signature
  apply (skipSignature_depth signature).trans
  split at h
  · exact skipBracketAt_depth rfl (eq_ok_of_map_eq_ok h)
  · cases h
    exact .here _

/-- A type or a function that is passed over as an operand, from its first token. -/
theorem skipOperand?_depth {c : Construct} (h : skipOperand? t.kind ts = some (.ok (c, rest))) :
    ClosesBefore 0 (t :: ts) rest := by
  have after : ∀ {k : Keyword}, t.kind = .keyword k → ClosesBefore 0 ts rest →
      ClosesBefore 0 (t :: ts) rest := by
    intro k kind closed
    exact closed.after (depthAfterOne?_plain (by rw [kind]; rfl))
  unfold skipOperand? at h
  split at h
  · exact after ‹_› (skipFunction_depth (Option.some.inj h))
  · exact after ‹_› (skipBracketAt_depth rfl (eq_ok_of_map_eq_ok (Option.some.inj h)))
  · exact after ‹_› (skipBracketAt_depth rfl (eq_ok_of_map_eq_ok (Option.some.inj h)))
  · exact after ‹_› (skipTypeOperand_depth (eq_ok_of_map_eq_ok (Option.some.inj h)))
  · exact after ‹_› (skipTypeOperand_depth (eq_ok_of_map_eq_ok (Option.some.inj h)))
  · rename_i kind
    have closed := skipTypeOperand_depth (eq_ok_of_map_eq_ok (Option.some.inj h))
    exact closed.after (depthAfterOne?_opens (by rw [kind]; rfl))
  · cases h

/-! ## Types and declarations that are passed over -/

/-- A type is passed over up to what ends its declaration. -/
theorem skipType_depth (h : skipType depth ts = .ok rest) :
    ClosesBefore depth ts rest ∧ endsTypeSpec (kindAt rest) = true := by
  induction ts generalizing depth with
  | nil =>
    rw [skipType] at h
    split at h <;> cases h
    rename_i none
    rw [none]
    exact ⟨.here _, rfl⟩
  | cons t ts ih =>
    rw [skipType] at h
    split at h
    · rename_i stop
      cases h
      rw [stop.1]
      exact ⟨.here _, stop.2⟩
    rename_i stop
    split at h
    · cases h
    rename_i last
    split at h
    · rename_i opens
      exact ⟨(ih h).1.after (depthAfterOne?_opens opens), (ih h).2⟩
    rename_i opens
    split at h
    · rename_i closes
      cases depth with
      | zero => cases h
      | succ outer => exact ⟨(ih h).1.after (depthAfterOne?_closes closes), (ih h).2⟩
    · rename_i closes
      have semicolon : ¬ (t.kind = .semicolon ∧ depth = 0) := by
        rintro ⟨semicolon, none⟩
        exact stop ⟨none, by rw [semicolon]; rfl⟩
      refine ⟨(ih h).1.after ?_, (ih h).2⟩
      simp [depthAfterOne?, last, semicolon, opens, closes]

/-- How a declaration ends: with a semicolon, or without one at the end of the text. -/
inductive DeclarationEnd : List Token → List Token → Prop
  | semicolon {t : Token} {rest : List Token} (h : t.kind = .semicolon) : DeclarationEnd [t] rest
  | endOfText {rest : List Token} (h : kindAt rest = .endOfText) : DeclarationEnd [] rest

/-- A declaration is passed over up to its first semicolon outside of brackets. -/
theorem skipDeclaration_depth (h : skipDeclaration depth ts = .ok rest) :
    ∃ stop, ClosesBefore depth ts (stop ++ rest) ∧ DeclarationEnd stop rest := by
  induction ts generalizing depth with
  | nil =>
    rw [skipDeclaration] at h
    split at h <;> cases h
    rename_i none
    rw [none]
    exact ⟨[], .here _, .endOfText rfl⟩
  | cons t ts ih =>
    have after : ∀ {next}, skipDeclaration next ts = .ok rest →
        depthAfterOne? depth t = some next →
        ∃ stop, ClosesBefore depth (t :: ts) (stop ++ rest) ∧ DeclarationEnd stop rest := by
      intro next h one
      obtain ⟨stop, closed, ended⟩ := ih h
      exact ⟨stop, closed.after one, ended⟩
    rw [skipDeclaration] at h
    split at h
    · rename_i last
      split at h <;> cases h
      rename_i none
      rw [none]
      exact ⟨[], .here _, .endOfText last⟩
    rename_i last
    split at h
    · rename_i semicolon
      cases h
      rw [semicolon.2]
      exact ⟨[t], .here _, .semicolon semicolon.1⟩
    rename_i semicolon
    split at h
    · rename_i opens
      exact after h (depthAfterOne?_opens opens)
    rename_i opens
    split at h
    · rename_i closes
      cases depth with
      | zero => cases h
      | succ outer => exact after h (depthAfterOne?_closes closes)
    · rename_i closes
      apply after h
      simp [depthAfterOne?, last, semicolon, opens, closes]

end EnumCodec
