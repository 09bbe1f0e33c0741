import EnumCodec.Constant.Evaluation
import EnumCodec.Proofs.LiteralGrammar
import EnumCodec.Proofs.Word

/-!
# Texts that are not literals and still have a number

A number is read off a text without its separators, wherever they stand, and a plus sign may come before
its digits.  So a text can have a number although it is no literal.

* `isDigit_iff`, `number?_eq_some_iff` — the digits that are read are those of the grammar.
* `exists_readsIn` — every text is what can come before digits, and a rest that is read in some base.
* `value?_eq_some_iff` — a text has a number if, without its separators, it is a literal or one with a
  plus sign before its digits.
* `plus_notMem_of_isNumber` — the words of a text have no sign.
* `value?_of_unseparated` — the number of any text, and the value of its literal in a constant.
-/

set_option autoImplicit false

namespace EnumCodec

open Text

namespace IntegerLiteral

/-- The text without its separators. -/
def unseparated (text : List Char) : List Char := text.filter (· != '_')

theorem unseparated_of_notMem {text : List Char} (h : '_' ∉ text) : unseparated text = text := by
  rw [unseparated, List.filter_eq_self]
  intro c mem
  rw [bne_iff_ne]
  rintro rfl
  exact h mem

/-- What can come before the digits of a base: nothing, a zero, or a zero and a letter. -/
def leads : List (List Char × Nat) :=
  ([], 10) :: (['0'], 8) :: baseMarks.map fun (mark, base) => (['0', mark], base)

/-- The text has a plus sign before its digits. -/
def IsSigned (text : List Char) (base : Nat) (digits : List Nat) : Prop :=
  ∃ lead plain, (lead, base) ∈ leads ∧ text = lead ++ '+' :: plain ∧ Digits base plain digits

/-! ## Digits -/

theorem digitChar_eq_of_digitValue? {c : Char} {d : Nat} (h : digitValue? c = some d) (small : d < 16) :
    c = Nat.digitChar d ∨ c = (Nat.digitChar d).toUpper := by
  have numbers : ∀ d < 16, (Nat.digitChar d).toNat = (if d < 10 then d + 48 else d + 87) ∧
      (Nat.digitChar d).toUpper.toNat = if d < 10 then d + 48 else d + 55 := by decide
  obtain ⟨low, high⟩ := numbers d small
  rw [← Char.toNat_inj, ← Char.toNat_inj, low, high]
  unfold digitValue? at h
  split at h
  · rename_i range
    have first : 48 ≤ c.toNat := range.1
    have last : c.toNat ≤ 57 := range.2
    cases h
    left
    rw [if_pos (by omega)]
    omega
  split at h
  · rename_i range
    have first : 97 ≤ c.toNat := range.1
    cases h
    left
    rw [if_neg (by omega)]
    omega
  split at h
  · rename_i range
    have first : 65 ≤ c.toNat := range.1
    cases h
    right
    rw [if_neg (by omega)]
    omega
  · cases h

/-- The digits of the grammar are those that are read. -/
theorem isDigit_iff {base : Nat} (small : base ≤ 16) {c : Char} {d : Nat} :
    IsDigit base c d ↔ digitIn? base c = some d := by
  refine ⟨fun digit => digit.digitIn? small, fun read => ?_⟩
  obtain ⟨value, less⟩ := Option.filter_eq_some_iff.mp read
  have less : d < base := of_decide_eq_true less
  exact ⟨less, digitChar_eq_of_digitValue? value (less.trans_le small)⟩

theorem isDigit_toLower_iff {base : Nat} (small : base ≤ 16) {c : Char} {d : Nat} :
    IsDigit base c.toLower d ↔ IsDigit base c d := by
  rw [isDigit_iff small, isDigit_iff small, digitIn?, digitIn?, digitValue?_toLower]

theorem Digits.of_forall₂ {base : Nat} {text : List Char} {digits : List Nat}
    (some_digit : digits ≠ []) (h : List.Forall₂ (IsDigit base) text digits) :
    Digits base text digits := by
  induction h with
  | nil => exact absurd rfl some_digit
  | cons digit more ih =>
    cases more with
    | nil => exact .last digit
    | cons _ _ => exact .next digit (ih (List.cons_ne_nil _ _))

section

variable {base n : Nat} {text : List Char}

theorem positional?_eq_some_iff (small : base ≤ 16) :
    positional? base text = some n ↔
      ∃ digits, List.Forall₂ (IsDigit base) text digits ∧ n = placeValue base digits := by
  -- whatever has been read before, all characters have to be digits
  have go : ∀ (text : List Char) (m : Nat),
      text.foldlM (fun n c => (digitIn? base c).map (n * base + ·)) m = some n →
        ∃ digits, List.Forall₂ (IsDigit base) text digits := by
    intro text
    induction text with
    | nil => exact fun m _ => ⟨[], .nil⟩
    | cons c text ih =>
      intro m h
      rw [List.foldlM_cons] at h
      obtain ⟨k, first, more⟩ := Option.bind_eq_some_iff.mp h
      obtain ⟨d, digit, -⟩ := Option.map_eq_some_iff.mp first
      obtain ⟨digits, digits_of⟩ := ih k more
      exact ⟨d :: digits, .cons ((isDigit_iff small).mpr digit) digits_of⟩
  constructor
  · intro h
    obtain ⟨digits, digits_of⟩ := go text 0 h
    rw [positional?_of_digits small digits_of] at h
    exact ⟨digits, digits_of, (Option.some.inj h).symm⟩
  · rintro ⟨digits, digits_of, rfl⟩
    exact positional?_of_digits small digits_of

/-- Characters have a number in range exactly if they are digits whose number is in range. -/
theorem positional?_filter_eq_some_iff (small : base ≤ 16) (some_char : text ≠ []) :
    (positional? base text).filter (· < bound) = some n ↔ n < 2 ^ 128 ∧ ∃ digits, digits ≠ [] ∧
      List.Forall₂ (IsDigit base) text digits ∧ n = placeValue base digits := by
  have bound_eq : bound = 2 ^ 128 := rfl
  rw [Option.filter_eq_some_iff, positional?_eq_some_iff small, decide_eq_true_iff, bound_eq, and_comm]
  apply and_congr_right
  intro _
  apply exists_congr
  intro digits
  refine (and_iff_right_of_imp ?_).symm
  rintro ⟨digits_of, -⟩ rfl
  cases digits_of
  exact some_char rfl

/-- Digits have a number, and so have digits after a plus sign. -/
theorem number?_eq_some_iff (small : base ≤ 16) :
    number? base text = some n ↔ n < 2 ^ 128 ∧ ∃ plain digits, digits ≠ [] ∧
      (text = plain ∨ text = '+' :: plain) ∧ List.Forall₂ (IsDigit base) plain digits ∧
      n = placeValue base digits := by
  constructor
  · intro h
    unfold number? at h
    split at h
    · cases h
    · cases h
    · rename_i plain some_char
      obtain ⟨less, digits, some_digit, digits_of⟩ :=
        (positional?_filter_eq_some_iff small some_char).mp h
      exact ⟨less, plain, digits, some_digit, .inr rfl, digits_of⟩
    · rename_i some_char _ _
      obtain ⟨less, digits, some_digit, digits_of⟩ :=
        (positional?_filter_eq_some_iff small some_char).mp h
      exact ⟨less, text, digits, some_digit, .inl rfl, digits_of⟩
  · rintro ⟨less, plain, digits, some_digit, rfl | rfl, digits_of, eq⟩
    · rw [number?_of_digits small some_digit digits_of, ← eq, Option.filter_some, if_pos]
      exact decide_eq_true less
    · cases digits_of with
      | nil => exact absurd rfl some_digit
      | cons digit more =>
        apply (positional?_filter_eq_some_iff small (List.cons_ne_nil _ _)).mpr
        exact ⟨less, _, some_digit, .cons digit more, eq⟩

/-! ## What comes before the digits -/

theorem base_le_of_mem_leads {lead : List Char} (h : (lead, base) ∈ leads) : base ≤ 16 := by
  have all : leads.all (fun entry => entry.2 ≤ 16) = true := by decide
  exact of_decide_eq_true (List.all_eq_true.mp all _ h)

theorem mem_leads_of_mark {mark : Char} (h : (mark, base) ∈ baseMarks) :
    (['0', mark], base) ∈ leads :=
  List.mem_cons_of_mem _ (List.mem_cons_of_mem _ (List.mem_map.mpr ⟨_, h, rfl⟩))

/-- The rest of the text is read in the base.  Nothing comes before the rest only if this is zero or has
no leading zero. -/
structure ReadsIn (text lead : List Char) (base : Nat) (rest : List Char) : Prop where
  split : text = lead ++ rest
  mem : (lead, base) ∈ leads
  parts : IntegerLiteral.baseAndDigits (text.map Char.toLower) = (base, rest.map Char.toLower)
  zero : lead = [] → rest.head? = some '0' → rest = ['0']

/-- After a zero, what is no letter of a base is a digit of base eight. -/
theorem baseAndDigits_unmarked {d : Char} (h : d ∉ baseMarks.map Prod.fst) (rest : List Char) :
    IntegerLiteral.baseAndDigits (('0' :: d :: rest).map Char.toLower) =
      (8, (d :: rest).map Char.toLower) := by
  have other {small capital : Char} (hs : small ∈ baseMarks.map Prod.fst)
      (hc : capital ∈ baseMarks.map Prod.fst) (range : 97 ≤ small.toNat ∧ small.toNat ≤ 122)
      (eq : capital.toNat + 32 = small.toNat) : d.toLower ≠ small := by
    rw [Ne, toLower_eq_letter_iff d small capital range eq]
    rintro (rfl | rfl)
    · exact h hs
    · exact h hc
  rw [List.map_cons, List.map_cons, toLower_eq_zero_iff.mpr rfl, baseAndDigits_zero,
    if_neg (@other 'x' 'X' (by decide) (by decide) (by decide) rfl),
    if_neg (@other 'b' 'B' (by decide) (by decide) (by decide) rfl),
    if_neg (@other 'o' 'O' (by decide) (by decide) (by decide) rfl)]

/-- Every text is read in some base. -/
theorem exists_readsIn (text : List Char) : ∃ lead base rest, ReadsIn text lead base rest := by
  have plain : ([], 10) ∈ leads := List.mem_cons_self
  have octal : (['0'], 8) ∈ leads := List.mem_cons_of_mem _ List.mem_cons_self
  match text with
  | [] => exact ⟨[], 10, [], rfl, plain, rfl, fun _ first => by cases first⟩
  | [c] =>
    refine ⟨[], 10, [c], rfl, plain, ?_, fun _ first => by rw [Option.some.inj first]⟩
    by_cases zero : c = '0'
    · subst zero
      rfl
    · exact baseAndDigits_of_ne (zero ∘ toLower_eq_zero_iff.mp) []
  | c :: d :: rest =>
    by_cases zero : c = '0'
    · subst zero
      by_cases letter : d ∈ baseMarks.map Prod.fst
      · obtain ⟨⟨mark, base⟩, mem, rfl⟩ := List.mem_map.mp letter
        exact ⟨['0', mark], base, rest, rfl, mem_leads_of_mark mem, (baseAndDigits_marked mem).2 _,
          fun none => by cases none⟩
      · exact ⟨['0'], 8, d :: rest, rfl, octal, baseAndDigits_unmarked letter rest,
          fun none => by cases none⟩
    · refine ⟨[], 10, c :: d :: rest, rfl, plain, ?_, fun _ first => ?_⟩
      · exact baseAndDigits_of_ne (zero ∘ toLower_eq_zero_iff.mp) _
      · exact absurd (Option.some.inj first) zero

/-- After what can come before the digits, a sign and what follows it are read in the base. -/
theorem baseAndDigits_of_lead {lead : List Char} (h : (lead, base) ∈ leads) (plain : List Char) :
    IntegerLiteral.baseAndDigits ((lead ++ '+' :: plain).map Char.toLower) =
      (base, '+' :: plain.map Char.toLower) := by
  simp only [leads, baseMarks, List.map_cons, List.map_nil, List.mem_cons, Prod.mk.injEq,
    List.not_mem_nil, or_false] at h
  obtain ⟨rfl, rfl⟩ | ⟨rfl, rfl⟩ | ⟨rfl, rfl⟩ | ⟨rfl, rfl⟩ | ⟨rfl, rfl⟩ | ⟨rfl, rfl⟩ | ⟨rfl, rfl⟩ |
    ⟨rfl, rfl⟩ := h <;> rfl

/-- Digits after what can come before them are a literal. -/
theorem isWritten_of_lead {lead rest : List Char} {digits : List Nat} (h : (lead, base) ∈ leads)
    (number : Digits base rest digits) (zero : lead = [] → rest.head? = some '0' → rest = ['0']) :
    IsWritten (lead ++ rest) base digits := by
  have no_separator : [] ∈ [[], ['_']] := List.mem_cons_self
  obtain eq | h := List.mem_cons.mp h
  · cases eq
    cases digits with
    | nil => exact absurd rfl number.ne_nil
    | cons d more =>
      by_cases lead : d = 0
      · -- a number that starts with zero is zero
        subst lead
        have first : rest.head? = some '0' := by
          cases number with
          | last digit | next digit | apart digit =>
            obtain ⟨-, rfl | rfl⟩ := digit <;> rfl
        obtain rfl := zero rfl first
        cases number with
        | last => exact .zero
        | next _ none => cases none
      · exact .decimal lead number
  obtain eq | h := List.mem_cons.mp h
  · cases eq
    exact .octal no_separator number
  · obtain ⟨⟨mark, base⟩, letter, eq⟩ := List.mem_map.mp h
    cases eq
    exact .marked letter no_separator number

/-! ## Texts with a number -/

theorem value?_ofList_unseparated (text : String) :
    value? (String.ofList (unseparated text.toList)) = value? text := by
  have twice : unseparated (unseparated text.toList) = unseparated text.toList := by
    simp [unseparated]
  have same : normalized (unseparated text.toList) = normalized text.toList :=
    congrArg (List.map Char.toLower) twice
  rw [value?, value?, String.toList_ofList, same]

theorem toLower_eq_plus_iff {c : Char} : c.toLower = '+' ↔ c = '+' := by
  rw [← Char.toNat_inj, ← Char.toNat_inj, toNat_toLower]
  show _ = 43 ↔ _ = 43
  split <;> omega

/-- A text without separators that has a plus sign before its digits has their number. -/
theorem IsSigned.value?_eq {text : String} {digits : List Nat} (h : IsSigned text.toList base digits)
    (no_separator : '_' ∉ text.toList) (less : placeValue base digits < 2 ^ 128) :
    value? text = some (placeValue base digits) := by
  obtain ⟨lead, plain, mem, eq, number⟩ := h
  have small := base_le_of_mem_leads mem
  have inner : '_' ∉ plain := by
    intro of_plain
    apply no_separator
    rw [eq]
    exact List.mem_append_right _ (List.mem_cons_of_mem _ of_plain)
  have digits_of : List.Forall₂ (IsDigit base) (unseparated plain) digits := number.unseparated small
  rw [unseparated_of_notMem inner] at digits_of
  rw [value?, normalized, ← unseparated, unseparated_of_notMem no_separator, eq,
    baseAndDigits_of_lead mem]
  apply (number?_eq_some_iff small).mpr
  exact ⟨less, plain.map Char.toLower, digits, number.ne_nil, .inr rfl,
    List.forall₂_map_left_iff.mpr (digits_of.imp fun _ _ digit => digit.toLower small), rfl⟩

/-- **A text has a number** exactly if it is, without its separators, a literal or one with a plus sign
before its digits, and the number is in range. -/
theorem value?_eq_some_iff {text : String} :
    value? text = some n ↔ n < 2 ^ 128 ∧ ∃ base digits, n = placeValue base digits ∧
      (IsWritten (unseparated text.toList) base digits ∨
        IsSigned (unseparated text.toList) base digits) := by
  constructor
  · intro h
    obtain ⟨lead, base, rest, eq, mem, parts, zero⟩ := exists_readsIn (unseparated text.toList)
    have small := base_le_of_mem_leads mem
    have read : value? text = number? base (rest.map Char.toLower) := by
      show number? (IntegerLiteral.baseAndDigits ((unseparated text.toList).map Char.toLower)).1
        (IntegerLiteral.baseAndDigits ((unseparated text.toList).map Char.toLower)).2 = _
      rw [parts]
    rw [read] at h
    obtain ⟨less, plain, digits, some_digit, signed, digits_of, value⟩ := (number?_eq_some_iff small).mp h
    -- the digits are those of the text, in capital letters too
    have capital {more : List Char} (h : List.Forall₂ (IsDigit base) (more.map Char.toLower) digits) :
        Digits base more digits :=
      .of_forall₂ some_digit ((List.forall₂_map_left_iff.mp h).imp fun _ _ =>
        (isDigit_toLower_iff small).mp)
    refine ⟨less, base, digits, value, ?_⟩
    rw [eq]
    obtain unsigned | signed := signed
    · rw [← unsigned] at digits_of
      exact .inl (isWritten_of_lead mem (capital digits_of) zero)
    · obtain ⟨c, more, rfl, sign, rfl⟩ := List.map_eq_cons_iff.mp signed
      obtain rfl := toLower_eq_plus_iff.mp sign
      exact .inr ⟨lead, more, mem, rfl, capital digits_of⟩
  · rintro ⟨less, base, digits, rfl, h⟩
    have no_separator : '_' ∉ unseparated text.toList := by simp [unseparated]
    rw [← value?_ofList_unseparated]
    rw [← String.toList_ofList (l := unseparated text.toList)] at h no_separator
    obtain written | signed := h
    · rw [written.value?_eq, if_pos less]
    · exact signed.value?_eq no_separator less

/-! ## The words of a text -/

theorem plus_notMem_readDigits {p : Char → Bool} (sign : p '+' = false) (text : List Char) :
    '+' ∉ (readDigits p text).taken := by
  intro mem
  have all := List.mem_takeWhile_imp mem
  simp [sign] at all

/-- Without a fraction and an exponent no sign is read. -/
theorem plus_notMem_readMantissa {p : Char → Bool} {marks text : List Char} (sign : p '+' = false)
    (h : (readMantissa p marks text).1 = false) : '+' ∉ (readMantissa p marks text).2.taken := by
  simp only [readMantissa, Bool.or_eq_false_iff, Bool.not_eq_false', List.isEmpty_iff] at h
  simp only [readMantissa, h, List.append_nil]
  exact plus_notMem_readDigits sign text

theorem plus_notMem_readReal {text : List Char} (h : (readReal text).1 = false) :
    '+' ∉ (readReal text).2.taken := by
  have after {c : Char} {taken : List Char} (mark : c ≠ '+') (rest : '+' ∉ taken) :
      '+' ∉ ['0', c] ++ taken := by
    simp [mark.symm, rest]
  unfold readReal at h ⊢
  split at h
  · split at h
    · rename_i letter
      rw [if_pos letter]
      refine after ?_ (plus_notMem_readMantissa rfl h)
      rintro rfl
      exact absurd letter (by decide)
    split at h
    · rename_i hex letter
      rw [if_neg hex, if_pos letter]
      refine after ?_ (plus_notMem_readDigits rfl _)
      rintro rfl
      exact absurd letter (by decide)
    · rename_i hex letter
      rw [if_neg hex, if_neg letter]
      exact plus_notMem_readMantissa rfl h
  · exact plus_notMem_readMantissa rfl h

/-- **The words of a text have no sign** in their integers. -/
theorem plus_notMem_of_isNumber {text : String} (h : IsNumber (.integer text) text.toList) :
    '+' ∉ text.toList := by
  obtain ⟨source, -, kind, taken⟩ := h
  rw [← taken]
  generalize real : readReal source = parts
  obtain ⟨isFloat, m⟩ := parts
  by_cases mark : m.rest.head? = some 'i'
  · obtain ⟨more, mark⟩ := List.head?_eq_some_iff.mp mark
    rw [readNumber_imaginary real mark] at kind
    cases kind
  · have number := readNumber_real real mark
    rw [number] at kind ⊢
    cases isFloat with
    | true => cases kind
    | false =>
      have plain := @plus_notMem_readReal source
      rw [real] at plain
      exact plain rfl

/-! ## The value of a literal -/

/-- A literal in a constant has its number as its value, if a signed word can hold it. -/
theorem eval_integer_iff {text : String} {scope : Scope} {iota : Nat} {v : Value} :
    scope.eval iota (.integer text) = .ok v ↔
      ∃ n, value? text = some n ∧ n < 2 ^ 127 ∧ v = ⟨n, none⟩ := by
  have wide (n : Nat) : wide? n = if n < 2 ^ 127 then some (n : Int) else none := by
    have range : isWide n = true ↔ n < 2 ^ 127 := by
      rw [isWide_iff]
      omega
    simp only [wide?, range]
  rw [Scope.eval, literalValue]
  cases number : value? text with
  | none => simp
  | some n =>
    rw [Option.bind_some, wide]
    by_cases less : n < 2 ^ 127
    · rw [if_pos less]
      simp only [Option.some.injEq, exists_eq_left', less, true_and, Except.ok.injEq]
      exact eq_comm
    · rw [if_neg less]
      simp only [reduceCtorEq, Option.some.injEq, exists_eq_left', less, false_and]

/-- **The number of any text.**  It is read off the text without its separators, where a plus sign may
come before the digits; so a text with neither of them has a number only if it is a literal.  A word of a
source has no sign, and has a value in a constant exactly if it is a literal without its separators and a
signed word can hold the number. -/
theorem value?_of_unseparated (text : String) :
    (∀ n, value? text = some n ↔ n < 2 ^ 128 ∧ ∃ base digits, n = placeValue base digits ∧
      (IsWritten (unseparated text.toList) base digits ∨
        IsSigned (unseparated text.toList) base digits)) ∧
    ('_' ∉ text.toList → '+' ∉ text.toList → ∀ n, value? text = some n ↔
      n < 2 ^ 128 ∧ ∃ base digits, n = placeValue base digits ∧ IsWritten text.toList base digits) ∧
    (∀ source words t, scan source = .ok words → t ∈ words → t.kind = .integer text →
      ∀ (scope : Scope) (iota : Nat) (v : Value), scope.eval iota (.integer text) = .ok v ↔
        ∃ base digits, IsWritten (unseparated text.toList) base digits ∧
          placeValue base digits < 2 ^ 127 ∧ v = ⟨placeValue base digits, none⟩) := by
  have unsigned (no_sign : '+' ∉ text.toList) {base : Nat} {digits : List Nat} :
      ¬ IsSigned (unseparated text.toList) base digits := by
    rintro ⟨lead, plain, -, eq, -⟩
    have of_text : '+' ∈ unseparated text.toList := by
      rw [eq]
      exact List.mem_append_right _ List.mem_cons_self
    exact no_sign (List.mem_filter.mp of_text).1
  refine ⟨fun n => value?_eq_some_iff, ?_, ?_⟩
  · intro no_separator no_sign n
    rw [value?_eq_some_iff]
    simp only [unsigned no_sign, or_false]
    rw [unseparated_of_notMem no_separator]
  · intro source words t scanned mem kind scope iota v
    have number := scan_isScanned scanned t mem
    rw [kind] at number
    have no_sign := plus_notMem_of_isNumber number
    rw [eval_integer_iff]
    simp only [value?_eq_some_iff, unsigned no_sign, or_false]
    constructor
    · rintro ⟨_, ⟨-, base, digits, rfl, written⟩, less, rfl⟩
      exact ⟨base, digits, written, less, rfl⟩
    · rintro ⟨base, digits, written, less, rfl⟩
      exact ⟨_, ⟨less.trans (by decide), base, digits, rfl, written⟩, less, rfl⟩

/-- A doubled separator: the word is no literal, and its value in a constant is ten. -/
theorem value?_of_unseparated_doubled :
    scan "1__0" = .ok [⟨.integer "1__0", ⟨1, 1⟩, "1__0".toList⟩, ⟨.semicolon, ⟨1, 5⟩, []⟩,
      ⟨.endOfText, ⟨1, 5⟩, []⟩] ∧
    ∀ scope : Scope, scope.eval 0 (.integer "1__0") = .ok ⟨10, none⟩ := by
  have words : scan "1__0" = .ok [⟨.integer "1__0", ⟨1, 1⟩, "1__0".toList⟩, ⟨.semicolon, ⟨1, 5⟩, []⟩,
      ⟨.endOfText, ⟨1, 5⟩, []⟩] := by
    with_unfolding_all rfl
  refine ⟨words, fun scope => ?_⟩
  have ten : IsWritten (unseparated "1__0".toList) 10 [1, 0] :=
    .decimal (by decide) (.next ⟨by decide, .inl rfl⟩ (.last ⟨by decide, .inl rfl⟩))
  apply ((value?_of_unseparated "1__0").2.2 "1__0" _ _ words List.mem_cons_self rfl scope 0 _).mpr
  exact ⟨10, [1, 0], ten, by decide, rfl⟩

/-- A doubled separator, and a sign after the letter of a base: neither text is a literal, and each has a
number. -/
theorem exists_value?_of_not_isWritten :
    (value? "1__0" = some 10 ∧ ¬ ∃ base digits, IsWritten "1__0".toList base digits) ∧
    (value? "0x+5" = some 5 ∧ ¬ ∃ base digits, IsWritten "0x+5".toList base digits) := by
  have separator {base d : Nat} (small : base ≤ 16) : ¬ IsDigit base '_' d := fun digit =>
    digit.ne_of_digitValue? small (by simp [show digitValue? '_' = none from rfl]) rfl
  refine ⟨⟨by decide, ?_⟩, by decide, ?_⟩
  · rintro ⟨base, digits, written⟩
    cases written with
    | decimal lead number =>
      cases number with
      | next _ more =>
        cases more with
        | next digit | apart digit => exact separator (by decide) digit
      | apart _ more =>
        cases more with
        | next digit => exact separator (by decide) digit
  · rintro ⟨base, digits, written⟩
    exact plus_notMem_of_isNumber written.isNumber (by decide)

end

end IntegerLiteral

end EnumCodec
