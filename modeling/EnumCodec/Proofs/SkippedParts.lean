import EnumCodec.Proofs.FileGrammar

/-!
# Files whose declarations leave no trace

Imports, variables and functions are passed over by counting brackets, whatever stands in them.
`passOver` does the counting on the kinds of tokens, for the top level of a file and the inside of a
declaration, so that it can be evaluated for a template; `readFile_passedOver` says that a file whose
parts are all passed over declares nothing.
-/

set_option autoImplicit false

namespace EnumCodec

/-- Where a token stands: at the top level, or in a declaration with some open brackets. -/
inductive Level
  | top
  | inside (depth : Nat)
deriving DecidableEq, Repr

/-- Passes over one token, if it can be passed over. -/
def passOne : Level → TokenKind → Option Level
  | .top, .semicolon => some .top
  | .top, .keyword .kwImport | .top, .keyword .kwVar | .top, .keyword .kwFunc => some (.inside 0)
  | .top, _ => none
  | .inside _, .endOfText => none
  | .inside 0, .semicolon => some .top
  | .inside depth, k =>
    if k.opens then some (.inside (depth + 1))
    else if k.closes then
      match depth with
      | 0 => none
      | outer + 1 => some (.inside outer)
    else some (.inside depth)

/-- Passes over some tokens. -/
def passOver : Level → List TokenKind → Option Level
  | level, [] => some level
  | level, k :: kinds =>
    match passOne level k with
    | some next => passOver next kinds
    | none => none

theorem passOver_append {level : Level} {first second : List TokenKind} :
    passOver level (first ++ second)
      = match passOver level first with
        | some next => passOver next second
        | none => none := by
  induction first generalizing level with
  | nil => rfl
  | cons k first ih =>
    simp only [List.cons_append, passOver]
    cases passOne level k with
    | none => rfl
    | some next => exact ih

theorem passOver_trans {level middle last : Level} {first second : List TokenKind}
    (h : passOver level first = some middle) (h' : passOver middle second = some last) :
    passOver level (first ++ second) = some last := by
  rw [passOver_append, h]
  exact h'

/-- A declaration is passed over up to its semicolon. -/
theorem skipDeclaration_of_passOver {depth : Nat} {kinds : List TokenKind} {ts : List Token}
    (h : passOver (.inside depth) kinds = some .top)
    (hts : ts.map Token.kind = kinds ++ [.endOfText]) :
    ∃ rest more, skipDeclaration depth ts = .ok rest ∧ passOver .top more = some .top ∧
      rest.map Token.kind = more ++ [.endOfText] ∧ more.length ≤ kinds.length := by
  induction kinds generalizing depth ts with
  | nil => cases h
  | cons k kinds ih =>
    obtain ⟨t, ts, rfl, rfl, more⟩ := List.map_eq_cons_iff.mp hts
    simp only [passOver] at h
    have inner : ∀ {next : Nat}, passOver (.inside next) kinds = some .top →
        ∃ rest more, skipDeclaration next ts = .ok rest ∧ passOver .top more = some .top ∧
          rest.map Token.kind = more ++ [.endOfText] ∧ more.length ≤ (t.kind :: kinds).length :=
      fun h => by
        obtain ⟨rest, left, skipped, passed, eq, le⟩ := ih h more
        exact ⟨rest, left, skipped, passed, eq, Nat.le_succ_of_le le⟩
    rw [skipDeclaration]
    by_cases last : t.kind = .endOfText
    · simp [passOne, last] at h
    rw [if_neg last]
    by_cases semi : t.kind = .semicolon ∧ depth = 0
    · rw [if_pos semi]
      refine ⟨ts, kinds, rfl, ?_, more, Nat.le_succ _⟩
      simpa [passOne, semi.1, semi.2] using h
    rw [if_neg semi]
    have step : passOne (.inside depth) t.kind =
        if t.kind.opens then some (.inside (depth + 1))
        else if t.kind.closes then
          match depth with
          | 0 => none
          | outer + 1 => some (.inside outer)
        else some (.inside depth) := by
      unfold passOne
      split <;> simp_all
    rw [step] at h
    by_cases opens : t.kind.opens = true
    · simp only [opens, if_true] at h ⊢
      exact inner h
    simp only [opens] at h ⊢
    by_cases closes : t.kind.closes = true
    · cases depth with
      | zero => simp [closes] at h
      | succ outer =>
        simp only [closes, if_true] at h ⊢
        exact inner (by simpa using h)
    · simp only [closes] at h ⊢
      exact inner (by simpa using h)

/-- Parts that leave no trace. -/
def TopLevel.IsPassedOver : TopLevel → Prop
  | nothing | skipped => True
  | consts _ | types _ => False

theorem passOne_top {k : TokenKind} {next : Level} (h : passOne .top k = some next) :
    (k = .semicolon ∧ next = .top) ∨
      ∃ word : Keyword, k = .keyword word ∧ word.isSkipped = true ∧ next = .inside 0 := by
  unfold passOne at h
  split at h <;> simp_all [Keyword.isSkipped]

/-- What can be passed over is read, and none of it is a declaration of constants or types. -/
theorem reads_of_passOver {kinds : List TokenKind} {ts : List Token}
    (h : passOver .top kinds = some .top) (hts : ts.map Token.kind = kinds ++ [.endOfText]) :
    ∃ parts rest, TopLevelsReads ts parts rest ∧ ∀ part ∈ parts, part.IsPassedOver := by
  induction size : kinds.length using Nat.strongRecOn generalizing kinds ts with
  | _ n ih =>
    cases kinds with
    | nil =>
      obtain ⟨t, ts, rfl, last, -⟩ := List.map_eq_cons_iff.mp hts
      exact ⟨[], t :: ts, .ends last, List.forall_mem_nil _⟩
    | cons k kinds =>
      obtain ⟨t, ts, rfl, rfl, more⟩ := List.map_eq_cons_iff.mp hts
      rw [List.length_cons] at size
      rw [passOver] at h
      split at h
      · rename_i next step
        obtain ⟨semicolon, rfl⟩ | ⟨word, kind, skips, rfl⟩ := passOne_top step
        · obtain ⟨parts, rest, reads, passed⟩ := ih _ (by omega) h more rfl
          have inner : kindAt (t :: ts) ≠ .endOfText := fun last => nomatch semicolon.symm.trans last
          exact ⟨.nothing :: parts, rest, .cons inner (.nothing semicolon) reads,
            List.forall_mem_cons.mpr ⟨trivial, passed⟩⟩
        · obtain ⟨left, kinds', skipped, above, eq, le⟩ := skipDeclaration_of_passOver h more
          obtain ⟨parts, rest, reads, passed⟩ := ih _ (by omega) above eq rfl
          have inner : kindAt (t :: ts) ≠ .endOfText := fun last => nomatch kind.symm.trans last
          exact ⟨.skipped :: parts, rest, .cons inner (.skipped kind skips skipped) reads,
            List.forall_mem_cons.mpr ⟨trivial, passed⟩⟩
      · cases h

/-- A file whose parts can all be passed over declares nothing. -/
theorem readFile_passedOver {path name : String} {kinds : List TokenKind} {ts : List Token}
    (named : name ≠ blankName) (h : passOver .top kinds = some .top)
    (hts : ts.map Token.kind
      = .keyword .kwPackage :: .name name :: .semicolon :: (kinds ++ [.endOfText])) :
    ∃ pos, readFile path ts = .ok ⟨path, ⟨name, pos⟩, [], []⟩ := by
  obtain ⟨t, ts, rfl, first, hts⟩ := List.map_eq_cons_iff.mp hts
  obtain ⟨u, ts, rfl, second, hts⟩ := List.map_eq_cons_iff.mp hts
  obtain ⟨v, ts, rfl, third, hts⟩ := List.map_eq_cons_iff.mp hts
  obtain ⟨parts, rest, reads, passed⟩ := reads_of_passOver h hts
  have clause : PackageClause ⟨name, u.pos⟩ [t, u, v] ts :=
    .clause first second rfl (by simpa [Ident.isBlank] using named) (.semicolon third)
  have consts : parts.filterMap TopLevel.const? = [] :=
    List.filterMap_eq_nil_iff.mpr fun part hp => by
      have := passed part hp
      cases part <;> first | rfl | cases this
  have types : parts.flatMap TopLevel.typeSpecs = [] :=
    List.flatMap_eq_nil_iff.mpr fun part hp => by
      have := passed part hp
      cases part <;> first | rfl | cases this
  exact ⟨u.pos, readFile_ok_iff.mpr ⟨_, _, _, parts, rest, rfl, clause, reads, by rw [consts, types]⟩⟩

end EnumCodec
