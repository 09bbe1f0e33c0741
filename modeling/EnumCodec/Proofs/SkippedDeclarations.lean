import EnumCodec.Proofs.FileParts

/-!
# Where a declaration that is passed over ends

An import, a variable or a function is passed over by counting brackets.  The count is an integer here:
brackets that open raise it, brackets that close lower it, and it may fall below zero.

* `bracketBalance`, `NeverNegative`, `SemicolonsInside` — the count over some tokens, and what can be
  asked of it on the way.
* `depthAfterOne?_eq_some_iff`, `depthAfter?_eq_some_iff` — the brackets that are open after one token,
  and after some tokens.
* `skipDeclaration_ok_iff` — a declaration is passed over up to its first semicolon outside of brackets.
* `readTopLevel_skipped_iff` — the same for a part of a file, whose tokens go on to the end of the text.
-/

set_option autoImplicit false

namespace EnumCodec

/-! ## The count -/

/-- What a token adds to the count of brackets. -/
def Token.bracketStep (t : Token) : Int :=
  if t.kind.opens then 1 else if t.kind.closes then -1 else 0

/-- The brackets that some tokens open, less those that they close. -/
def bracketBalance : List Token → Int
  | [] => 0
  | t :: ts => t.bracketStep + bracketBalance ts

/-- From the given depth on, the count never falls below zero. -/
def NeverNegative (depth : Int) (ts : List Token) : Prop :=
  ∀ us, us <+: ts → 0 ≤ depth + bracketBalance us

/-- From the given depth on, no semicolon stands where the count is zero. -/
def SemicolonsInside (depth : Int) (ts : List Token) : Prop :=
  ∀ us t more, ts = us ++ t :: more → t.kind = .semicolon → depth + bracketBalance us ≠ 0

section Count

variable {depth : Int} {t : Token} {ts us : List Token}

@[simp] theorem bracketBalance_nil : bracketBalance [] = 0 := rfl

@[simp] theorem bracketBalance_cons : bracketBalance (t :: ts) = t.bracketStep + bracketBalance ts := rfl

theorem bracketBalance_append : bracketBalance (ts ++ us) = bracketBalance ts + bracketBalance us := by
  induction ts with
  | nil => simp
  | cons t ts ih =>
    rw [List.cons_append, bracketBalance_cons, bracketBalance_cons, ih]
    omega

theorem Token.bracketStep_semicolon (h : t.kind = .semicolon) : t.bracketStep = 0 := by
  simp [bracketStep, h, TokenKind.opens, TokenKind.closes]

theorem neverNegative_nil : NeverNegative depth [] ↔ 0 ≤ depth := by
  simp [NeverNegative]

theorem neverNegative_cons :
    NeverNegative depth (t :: ts) ↔ 0 ≤ depth ∧ NeverNegative (depth + t.bracketStep) ts := by
  constructor
  · intro h
    refine ⟨by simpa using h [] List.nil_prefix, fun us before => ?_⟩
    have := h (t :: us) (List.cons_prefix_cons.mpr ⟨rfl, before⟩)
    rw [bracketBalance_cons] at this
    omega
  · rintro ⟨first, h⟩ us before
    obtain rfl | ⟨vs, rfl, more⟩ := List.prefix_cons_iff.mp before
    · simpa using first
    · have := h vs more
      rw [bracketBalance_cons]
      omega

theorem semicolonsInside_nil : SemicolonsInside depth [] := by
  intro us t more eq
  simp at eq

theorem semicolonsInside_cons : SemicolonsInside depth (t :: ts) ↔
    (t.kind = .semicolon → depth ≠ 0) ∧ SemicolonsInside (depth + t.bracketStep) ts := by
  constructor
  · intro h
    refine ⟨fun semicolon => by simpa using h [] t ts rfl semicolon, ?_⟩
    intro us u more eq semicolon
    have := h (t :: us) u more (by rw [eq, List.cons_append]) semicolon
    rw [bracketBalance_cons] at this
    omega
  · rintro ⟨first, h⟩ us u more eq semicolon
    obtain ⟨rfl, here⟩ | ⟨vs, rfl, later⟩ := List.cons_eq_append_iff.mp eq
    · cases here
      simpa using first semicolon
    · have := h vs u more later semicolon
      rw [bracketBalance_cons]
      omega

end Count

/-! ## Open brackets -/

section Depth

variable {depth next : Nat} {t : Token} {ts rest : List Token}

/-- One token leaves a depth behind if the count does not fall below zero and the declaration goes on. -/
theorem depthAfterOne?_eq_some_iff : depthAfterOne? depth t = some next ↔
    t.kind ≠ .endOfText ∧ (t.kind = .semicolon → (depth : Int) ≠ 0) ∧
      (next : Int) = depth + t.bracketStep := by
  unfold depthAfterOne? Token.bracketStep
  by_cases ended : t.kind = .endOfText ∨ t.kind = .semicolon ∧ depth = 0
  · rw [if_pos ended]
    constructor
    · exact fun h => by cases h
    · rintro ⟨inner, goes_on, -⟩
      obtain last | ⟨semicolon, none⟩ := ended
      · exact absurd last inner
      · exact absurd (congrArg Nat.cast none) (goes_on semicolon)
  have inner : t.kind ≠ .endOfText ∧ (t.kind = .semicolon → (depth : Int) ≠ 0) :=
    ⟨fun last => ended (.inl last), fun semicolon none =>
      ended (.inr ⟨semicolon, Int.natCast_eq_zero.mp none⟩)⟩
  rw [if_neg ended, ← and_assoc, and_iff_right inner]
  by_cases opens : t.kind.opens = true
  · rw [if_pos opens, if_pos opens, Option.some.injEq]
    omega
  rw [if_neg opens, if_neg opens]
  by_cases closes : t.kind.closes = true
  · rw [if_pos closes, if_pos closes]
    cases depth with
    | zero => simp only [reduceCtorEq, false_iff]; omega
    | succ outer => simp only [Option.some.injEq]; omega
  · rw [if_neg closes, if_neg closes, Option.some.injEq]
    omega

/-- **The brackets that are open after some tokens.**  There is such a number if the text does not end
among the tokens, no semicolon stands outside of brackets and no bracket is closed that was not open;
it is the count. -/
theorem depthAfter?_eq_some_iff : depthAfter? depth ts = some next ↔
    (∀ t ∈ ts, t.kind ≠ .endOfText) ∧ SemicolonsInside depth ts ∧ NeverNegative depth ts ∧
      (next : Int) = depth + bracketBalance ts := by
  induction ts generalizing depth with
  | nil =>
    have same : depth = next ↔ (next : Int) = depth := by omega
    simpa [depthAfter?_nil, semicolonsInside_nil, neverNegative_nil] using same
  | cons t ts ih =>
    rw [List.forall_mem_cons, semicolonsInside_cons, neverNegative_cons, bracketBalance_cons]
    constructor
    · intro h
      obtain ⟨middle, one, more⟩ := Option.bind_eq_some_iff.mp h
      obtain ⟨inner, goes_on, step⟩ := depthAfterOne?_eq_some_iff.mp one
      obtain ⟨inner', within, above, balance⟩ := ih.mp more
      rw [step] at within above balance
      exact ⟨⟨inner, inner'⟩, ⟨goes_on, within⟩, ⟨Int.natCast_nonneg depth, above⟩, by omega⟩
    · rintro ⟨⟨inner, inner'⟩, ⟨goes_on, within⟩, ⟨-, above⟩, balance⟩
      -- the count after the first token is one that can be reached
      have nonneg : 0 ≤ (depth : Int) + t.bracketStep := by simpa using above [] List.nil_prefix
      obtain ⟨middle, step⟩ := Int.eq_ofNat_of_zero_le nonneg
      have one : depthAfterOne? depth t = some middle :=
        depthAfterOne?_eq_some_iff.mpr ⟨inner, goes_on, step.symm⟩
      rw [depthAfter?_cons one]
      rw [step] at within above
      exact ih.mpr ⟨inner', within, above, by omega⟩

/-- Tokens close what they open exactly if the count never falls below zero and ends there, and no
semicolon stands outside of brackets. -/
theorem isEnclosed_iff : IsEnclosed ts ↔ (∀ t ∈ ts, t.kind ≠ .endOfText) ∧ SemicolonsInside 0 ts ∧
    NeverNegative 0 ts ∧ bracketBalance ts = 0 := by
  unfold IsEnclosed
  rw [depthAfter?_eq_some_iff]
  simp [eq_comm]

/-! ## Passing over a declaration -/

theorem skipDeclaration_cons (h : depthAfterOne? depth t = some next) :
    skipDeclaration depth (t :: ts) = skipDeclaration next ts := by
  unfold depthAfterOne? at h
  split at h
  · cases h
  rename_i inner
  rw [not_or] at inner
  rw [skipDeclaration, if_neg inner.1, if_neg inner.2]
  split at h
  · rename_i opens
    cases h
    rw [if_pos opens]
  rename_i opens
  rw [if_neg opens]
  split at h
  · rename_i closes
    rw [if_pos closes]
    cases depth with
    | zero => cases h
    | succ inner =>
      cases h
      rw [if_neg (Nat.succ_ne_zero _), Nat.add_sub_cancel]
  · rename_i closes
    cases h
    rw [if_neg closes]

/-- Tokens that can be counted over are passed over. -/
theorem skipDeclaration_append (h : depthAfter? depth ts = some next) :
    skipDeclaration depth (ts ++ rest) = skipDeclaration next rest := by
  induction ts generalizing depth with
  | nil =>
    cases h
    rfl
  | cons t ts ih =>
    obtain ⟨middle, one, more⟩ := Option.bind_eq_some_iff.mp h
    rw [List.cons_append, skipDeclaration_cons one]
    exact ih more

theorem skipDeclaration_end {stop : List Token} (h : DeclarationEnd stop rest) :
    skipDeclaration 0 (stop ++ rest) = .ok rest := by
  cases h with
  | semicolon semicolon => simp [skipDeclaration, semicolon]
  | endOfText last =>
    cases rest with
    | nil => rfl
    | cons t rest =>
      have last : t.kind = .endOfText := last
      simp [skipDeclaration, last]

/-- **A declaration is passed over** exactly up to its first semicolon outside of brackets, or to the end
of the text. -/
theorem skipDeclaration_ok_iff : skipDeclaration depth ts = .ok rest ↔
    ∃ stop, ClosesBefore depth ts (stop ++ rest) ∧ DeclarationEnd stop rest := by
  constructor
  · exact skipDeclaration_depth
  · rintro ⟨stop, ⟨taken, rfl, closed⟩, ended⟩
    rw [skipDeclaration_append closed]
    exact skipDeclaration_end ended

end Depth

/-! ## A part of a file -/

/-- The token is the first semicolon of the tokens that stands outside of brackets. -/
structure IsFirstOuter (body before : List Token) (stop : Token) (after : List Token) : Prop where
  split : body = before ++ stop :: after
  semicolon : stop.kind = .semicolon
  outer : bracketBalance before = 0
  first : SemicolonsInside 0 before

section Part

variable {t stop last : Token} {body before after beyond rest : List Token}

theorem IsFirstOuter.not_semicolonsInside (h : IsFirstOuter body before stop after) :
    ¬ SemicolonsInside 0 body := by
  intro within
  exact within before stop after h.split h.semicolon (by rw [h.outer]; rfl)

/-- There is only one first semicolon. -/
theorem IsFirstOuter.after_eq {before' after' : List Token} {stop' : Token}
    (h : IsFirstOuter body before stop after) (h' : IsFirstOuter body before' stop' after') :
    after = after' := by
  have later {before before' : List Token} {stop : Token} (semicolon : stop.kind = .semicolon)
      (outer : bracketBalance before = 0) (first : SemicolonsInside 0 before') (more : List Token) :
      before' ≠ before ++ stop :: more := fun eq =>
    first before stop more eq semicolon (by rw [outer]; rfl)
  have eq := h.split.symm.trans h'.split
  obtain ⟨between, eq', eq⟩ | ⟨between, eq', eq⟩ := List.append_eq_append_iff.mp eq
  · cases between with
    | nil => exact (List.cons.inj eq).2
    | cons u more =>
      obtain ⟨rfl, -⟩ := List.cons.inj eq
      exact absurd eq' (later h.semicolon h.outer h'.first more)
  · cases between with
    | nil => exact (List.cons.inj eq).2.symm
    | cons u more =>
      obtain ⟨rfl, -⟩ := List.cons.inj eq
      exact absurd eq' (later h'.semicolon h'.outer h.first more)

theorem readTopLevel_ok_iff_skip {k : Keyword} (word : t.kind = .keyword k) (skips : k.isSkipped = true)
    {p : Parsed (rest.length + 1) TopLevel} :
    readTopLevel t rest = .ok p ↔ p.value = .skipped ∧ skipDeclaration 0 rest = .ok p.rest := by
  rw [← gives_iff, readTopLevel_gives_iff]
  generalize p.value = part, p.rest = left
  constructor
  · intro h
    cases h with
    | skipped _ _ passed => exact ⟨rfl, passed⟩
    | nothing semicolon => cases semicolon.symm.trans word
    | consts first _ | types first _ =>
      cases first.symm.trans word
      cases skips
  · rintro ⟨rfl, passed⟩
    exact .skipped word skips passed

/-- What comes before the end of the text leaves it behind. -/
theorem exists_append_of_ends (ended : last.kind = .endOfText)
    (eq : body ++ last :: beyond = before ++ rest) (none : ∀ u ∈ before, u.kind ≠ .endOfText) :
    ∃ after, body = before ++ after ∧ rest = after ++ last :: beyond := by
  obtain ⟨more, rfl, all⟩ | cut := List.append_eq_append_iff.mp eq
  · cases more with
    | nil => exact ⟨[], by simp, all.symm⟩
    | cons u more =>
      obtain ⟨rfl, -⟩ := List.cons.inj all
      exact absurd ended (none _ (List.mem_append_right _ List.mem_cons_self))
  · exact cut

/-- Before the end of the text a declaration is passed over up to its first semicolon outside of brackets
if there is one, and otherwise as a whole. -/
theorem skipDeclaration_whole_iff (only : ∀ u ∈ body, u.kind ≠ .endOfText)
    (ended : last.kind = .endOfText) :
    skipDeclaration 0 (body ++ last :: beyond) = .ok rest ↔
      (∃ before stop after, IsFirstOuter body before stop after ∧ NeverNegative 0 before ∧
        rest = after ++ last :: beyond) ∨
      SemicolonsInside 0 body ∧ NeverNegative 0 body ∧ bracketBalance body = 0 ∧
        rest = last :: beyond := by
  rw [skipDeclaration_ok_iff]
  constructor
  · rintro ⟨stop, ⟨before, whole, closed⟩, how⟩
    obtain ⟨inner, within, above, balance⟩ := isEnclosed_iff.mp closed
    cases how with
    | @semicolon stop _ semicolon =>
      left
      rw [← List.append_assoc] at whole
      have inner' : ∀ u ∈ before ++ [stop], u.kind ≠ .endOfText := by
        refine List.forall_mem_append.mpr ⟨inner, List.forall_mem_singleton.mpr ?_⟩
        rw [semicolon]
        decide
      obtain ⟨after, split, left⟩ := exists_append_of_ends ended whole inner'
      rw [List.append_assoc] at split
      exact ⟨before, stop, after, ⟨split, semicolon, balance, within⟩, above, left⟩
    | endOfText ended' =>
      right
      obtain ⟨after, rfl, left⟩ := exists_append_of_ends ended whole inner
      have left : rest = after ++ last :: beyond := left
      cases after with
      | nil =>
        rw [List.append_nil]
        exact ⟨within, above, balance, left⟩
      | cons u after =>
        rw [left] at ended'
        exact absurd ended' (only u (List.mem_append_right _ List.mem_cons_self))
  · rintro (⟨before, stop, after, cut, above, rfl⟩ | ⟨within, above, balance, rfl⟩)
    · have inner : ∀ u ∈ before, u.kind ≠ .endOfText := by
        intro u mem
        apply only
        rw [cut.split]
        exact List.mem_append_left _ mem
      have closed : IsEnclosed before := isEnclosed_iff.mpr ⟨inner, cut.first, above, cut.outer⟩
      exact ⟨[stop], ⟨before, by simp [cut.split], closed⟩, .semicolon cut.semicolon⟩
    · exact ⟨[], ⟨body, rfl, isEnclosed_iff.mpr ⟨only, within, above, balance⟩⟩, .endOfText ended⟩

/-- **Which parts are passed over, and how far.**  After `import`, `var` or `func` a part is read exactly
if the count of brackets never falls below zero before the first semicolon outside of brackets, or, where
there is none, before the (first) end of the text, and is zero there.  It takes the tokens up to this
semicolon, which is taken too, or up to the end of the text; a semicolon in brackets never ends it. -/
theorem readTopLevel_skipped_iff {k : Keyword} (word : t.kind = .keyword k) (skips : k.isSkipped = true)
    (only : ∀ u ∈ body, u.kind ≠ .endOfText) (ended : last.kind = .endOfText) :
    ((∃ p, readTopLevel t (body ++ last :: beyond) = .ok p) ↔
      (∃ before stop after, IsFirstOuter body before stop after ∧ NeverNegative 0 before) ∨
        SemicolonsInside 0 body ∧ NeverNegative 0 body ∧ bracketBalance body = 0) ∧
    ∀ p, readTopLevel t (body ++ last :: beyond) = .ok p →
      p.value = .skipped ∧
      (∀ before stop after, IsFirstOuter body before stop after → p.rest = after ++ last :: beyond) ∧
      (SemicolonsInside 0 body → p.rest = last :: beyond) ∧
      ∀ us u more, body = us ++ u :: more → u.kind = .semicolon → 0 < bracketBalance us →
        p.rest ≠ more ++ last :: beyond := by
  constructor
  · constructor
    · rintro ⟨p, read⟩
      obtain ⟨-, skipped⟩ := (readTopLevel_ok_iff_skip word skips).mp read
      obtain ⟨before, stop, after, cut, above, -⟩ | ⟨within, above, balance, -⟩ :=
        (skipDeclaration_whole_iff only ended).mp skipped
      · exact .inl ⟨before, stop, after, cut, above⟩
      · exact .inr ⟨within, above, balance⟩
    · intro h
      obtain ⟨rest, skipped⟩ : ∃ rest, skipDeclaration 0 (body ++ last :: beyond) = .ok rest := by
        obtain ⟨before, stop, after, cut, above⟩ | ⟨within, above, balance⟩ := h
        · exact ⟨_, (skipDeclaration_whole_iff only ended).mpr
            (.inl ⟨before, stop, after, cut, above, rfl⟩)⟩
        · exact ⟨_, (skipDeclaration_whole_iff only ended).mpr (.inr ⟨within, above, balance, rfl⟩)⟩
      have shorter := Nat.lt_succ_of_le (skipDeclaration_suffix skipped).length_le
      exact ⟨⟨.skipped, rest, shorter⟩, (readTopLevel_ok_iff_skip word skips).mpr ⟨rfl, skipped⟩⟩
  · intro p read
    obtain ⟨value, skipped⟩ := (readTopLevel_ok_iff_skip word skips).mp read
    refine ⟨value, ?_⟩
    obtain ⟨before, stop, after, cut, -, eq⟩ | ⟨within, -, balance, eq⟩ :=
      (skipDeclaration_whole_iff only ended).mp skipped
    · refine ⟨fun _ _ _ cut' => by rw [eq, cut.after_eq cut'], fun within => ?_, ?_⟩
      · exact absurd within cut.not_semicolonsInside
      · intro us u more split semicolon inside eq'
        -- the rest tells where the part ends, so the semicolon would be the one that ends it
        obtain rfl := List.append_cancel_right (eq.symm.trans eq')
        have same := List.append_inj_left' (cut.split.symm.trans split) rfl
        rw [← same, cut.outer] at inside
        exact absurd inside (by decide)
    · refine ⟨fun _ _ _ cut => absurd within cut.not_semicolonsInside, fun _ => eq, ?_⟩
      intro us u more split semicolon inside eq'
      obtain rfl : [] = more := @List.append_cancel_right _ [] (last :: beyond) more (eq.symm.trans eq')
      rw [split, bracketBalance_append, bracketBalance_cons, Token.bracketStep_semicolon semicolon,
        bracketBalance_nil] at balance
      omega

/-- A function whose body has a semicolon, with a type after it. -/
theorem readTopLevel_skipped_iff_ink :
    (∃ p, readTopLevel (tokenAt 9 (.keyword .kwFunc)) (inkTokens.drop 9 ++ [tokenAt 24 .endOfText])
      = .ok p) ∧
    ∀ p, readTopLevel (tokenAt 9 (.keyword .kwFunc)) (inkTokens.drop 9 ++ [tokenAt 24 .endOfText])
      = .ok p → p.value = .skipped ∧ p.rest = inkTokens.drop 20 ++ [tokenAt 24 .endOfText] := by
  have closed : IsEnclosed ((inkTokens.drop 9).take 10) := by decide
  obtain ⟨-, within, above, balance⟩ := isEnclosed_iff.mp closed
  have cut : IsFirstOuter (inkTokens.drop 9) ((inkTokens.drop 9).take 10) (tokenAt 20 .semicolon)
      (inkTokens.drop 20) := ⟨rfl, rfl, balance, within⟩
  obtain ⟨succeeds, result⟩ := @readTopLevel_skipped_iff (tokenAt 9 (.keyword .kwFunc))
    (tokenAt 24 .endOfText) (inkTokens.drop 9) [] .kwFunc rfl rfl (by decide) rfl
  refine ⟨succeeds.mpr (.inl ⟨_, _, _, cut, above⟩), fun p read => ?_⟩
  obtain ⟨value, rest, -⟩ := result p read
  exact ⟨value, rest _ _ _ cut⟩

end Part

end EnumCodec
