import EnumCodec.Proofs.LiteralNumber
import EnumCodec.Proofs.NumberText

/-!
# The grammar of integer literals

An integer literal is zero, a decimal number without leading zeros, or a zero with the letter of a base
or without one and then digits of that base; one separator may stand between two digits, and between
what comes first and the digits.

* `IntegerLiteral.IsWritten` — the grammar, with the base and the digits of a literal.
* `IsWritten.baseAndDigits` — without its separators and in small letters a literal has this base and
  these digits; so `IsWritten.literalNumber_eq` and `IsWritten.value?_eq`.
* `IsWritten.isNumber` — a literal is read as a whole, and as an integer.
* `IsWritten.scan_and_number` — the words of a literal, and its number.
-/

set_option autoImplicit false

namespace EnumCodec

open Text

namespace IntegerLiteral

/-! ## Digits -/

/-- The character is the digit of this value in the base; from ten on it is a letter, small or
capital. -/
def IsDigit (base : Nat) (c : Char) (d : Nat) : Prop :=
  d < base ∧ (c = Nat.digitChar d ∨ c = (Nat.digitChar d).toUpper)

/-- One digit or more, with at most one separator between two of them. -/
inductive Digits (base : Nat) : List Char → List Nat → Prop
  | last {c : Char} {d : Nat} (digit : IsDigit base c d) : Digits base [c] [d]
  | next {c : Char} {d : Nat} {text : List Char} {digits : List Nat} (digit : IsDigit base c d)
      (more : Digits base text digits) : Digits base (c :: text) (d :: digits)
  | apart {c : Char} {d : Nat} {text : List Char} {digits : List Nat} (digit : IsDigit base c d)
      (more : Digits base text digits) : Digits base (c :: '_' :: text) (d :: digits)

/-- The letters that stand for a base after a zero. -/
def baseMarks : List (Char × Nat) := [('b', 2), ('B', 2), ('o', 8), ('O', 8), ('x', 16), ('X', 16)]

/-- The text is an integer literal of the base with these digits. -/
inductive IsWritten : List Char → Nat → List Nat → Prop
  | zero : IsWritten ['0'] 10 [0]
  | decimal {text : List Char} {d : Nat} {digits : List Nat} (lead : d ≠ 0)
      (number : Digits 10 text (d :: digits)) : IsWritten text 10 (d :: digits)
  | octal {sep text : List Char} {digits : List Nat} (separator : sep ∈ [[], ['_']])
      (number : Digits 8 text digits) : IsWritten ('0' :: (sep ++ text)) 8 digits
  | marked {mark : Char} {base : Nat} {sep text : List Char} {digits : List Nat}
      (letter : (mark, base) ∈ baseMarks) (separator : sep ∈ [[], ['_']])
      (number : Digits base text digits) : IsWritten ('0' :: mark :: (sep ++ text)) base digits

theorem baseMarks_cases {mark : Char} {base : Nat} (h : (mark, base) ∈ baseMarks) :
    base = 16 ∧ (mark = 'x' ∨ mark = 'X') ∨
      base ≤ 8 ∧ (mark = 'b' ∨ mark = 'B' ∨ mark = 'o' ∨ mark = 'O') := by
  simp only [baseMarks, List.mem_cons, Prod.mk.injEq, List.not_mem_nil, or_false] at h
  obtain ⟨rfl, rfl⟩ | ⟨rfl, rfl⟩ | ⟨rfl, rfl⟩ | ⟨rfl, rfl⟩ | ⟨rfl, rfl⟩ | ⟨rfl, rfl⟩ := h <;> simp

/-- The number with these digits, each counting by its place. -/
def placeValue (base : Nat) (digits : List Nat) : Nat := Nat.ofDigits base digits.reverse

theorem digitValue?_digitChar : ∀ d < 16, digitValue? (Nat.digitChar d) = some d ∧
    digitValue? (Nat.digitChar d).toUpper = some d := by
  decide

theorem toLower_digitChar : ∀ d < 16, (Nat.digitChar d).toLower = Nat.digitChar d ∧
    (Nat.digitChar d).toUpper.toLower = Nat.digitChar d := by
  decide

theorem isDigit_digitChar : ∀ d < 10, (Nat.digitChar d).isDigit = true ∧
    (Nat.digitChar d).toUpper.isDigit = true := by
  decide

namespace IsDigit

variable {base : Nat} {c : Char} {d : Nat}

theorem digitValue? (small : base ≤ 16) (h : IsDigit base c d) : digitValue? c = some d := by
  obtain ⟨less, rfl | rfl⟩ := h
  · exact (digitValue?_digitChar d (less.trans_le small)).1
  · exact (digitValue?_digitChar d (less.trans_le small)).2

theorem digitIn? (small : base ≤ 16) (h : IsDigit base c d) : digitIn? base c = some d := by
  simp [Text.digitIn?, h.digitValue? small, h.1]

theorem isDigitIn (small : base ≤ 16) (h : IsDigit base c d) : isDigitIn base c = true := by
  rw [Text.isDigitIn, h.digitIn? small]
  rfl

theorem isDigit (small : base ≤ 10) (h : IsDigit base c d) : c.isDigit = true := by
  obtain ⟨less, rfl | rfl⟩ := h
  · exact (isDigit_digitChar d (less.trans_le small)).1
  · exact (isDigit_digitChar d (less.trans_le small)).2

theorem toLower (small : base ≤ 16) (h : IsDigit base c d) : IsDigit base c.toLower d := by
  obtain ⟨less, rfl | rfl⟩ := h
  · exact ⟨less, .inl (toLower_digitChar d (less.trans_le small)).1⟩
  · exact ⟨less, .inl (toLower_digitChar d (less.trans_le small)).2⟩

/-- A character with another value, or with none, is not this digit. -/
theorem ne_of_digitValue? (small : base ≤ 16) (h : IsDigit base c d) {other : Char}
    (value : Text.digitValue? other ≠ some d) : c ≠ other := by
  rintro rfl
  exact value (h.digitValue? small)

theorem ne_zero (small : base ≤ 16) (h : IsDigit base c d) (lead : d ≠ 0) : c ≠ '0' := by
  have zero : Text.digitValue? '0' = some 0 := rfl
  exact h.ne_of_digitValue? small (by simp [zero, lead.symm])

end IsDigit

namespace Digits

variable {base : Nat} {text : List Char} {digits : List Nat}

theorem ne_nil (h : Digits base text digits) : digits ≠ [] := by
  cases h <;> exact List.cons_ne_nil _ _

/-- Digits are written one after the other. -/
theorem of_digitChars (some_digit : digits ≠ []) (less : ∀ d ∈ digits, d < base) :
    Digits base (digits.map Nat.digitChar) digits := by
  induction digits with
  | nil => exact absurd rfl some_digit
  | cons d digits ih =>
    have digit : IsDigit base (Nat.digitChar d) d := ⟨less d List.mem_cons_self, .inl rfl⟩
    cases digits with
    | nil => exact .last digit
    | cons e digits =>
      exact .next digit (ih (List.cons_ne_nil _ _) fun d mem => less d (List.mem_cons_of_mem _ mem))

/-- Without the separators there is one character for each digit. -/
theorem unseparated (small : base ≤ 16) (h : Digits base text digits) :
    List.Forall₂ (IsDigit base) (text.filter (· != '_')) digits := by
  have kept {c : Char} {d : Nat} (digit : IsDigit base c d) : c ≠ '_' :=
    digit.ne_of_digitValue? small (by simp [show digitValue? '_' = none from rfl])
  induction h with
  | last digit => simpa [kept digit] using digit
  | next digit _ ih => simpa [kept digit] using ⟨digit, ih⟩
  | apart digit _ ih => simpa [kept digit] using ⟨digit, ih⟩

/-- A literal starts with a digit, and all its characters are digits and separators. -/
theorem all_digits {p : Char → Bool} (h : Digits base text digits)
    (digit : ∀ c d, IsDigit base c d → p c = true) :
    text.all (fun c => p c || c == '_') = true ∧ text.head?.any p = true := by
  induction h with
  | last hd => simp [digit _ _ hd]
  | next hd _ ih => simp [digit _ _ hd, ih.1]
  | apart hd _ ih => simp [digit _ _ hd, ih.1]

end Digits

/-- A decimal number without separators. -/
theorem IsWritten.of_digitChars {text : List Char} {d : Nat} {digits : List Nat} (lead : d ≠ 0)
    (less : ∀ e ∈ d :: digits, e < 10) (eq : text = (d :: digits).map Nat.digitChar) :
    IsWritten text 10 (d :: digits) := by
  subst eq
  exact .decimal lead (.of_digitChars (List.cons_ne_nil _ _) less)

/-! ## The number of a literal -/

section

variable {base : Nat} {text : List Char} {digits : List Nat}

theorem positional?_of_digits (small : base ≤ 16) (h : List.Forall₂ (IsDigit base) text digits) :
    positional? base text = some (placeValue base digits) := by
  -- the number that has been read so far stands before the digits that are still to come
  have go : ∀ n, text.foldlM (fun n c => (digitIn? base c).map (n * base + ·)) n =
      some (digits.foldl (fun n d => n * base + d) n) := by
    induction h with
    | nil => exact fun n => rfl
    | cons digit _ ih =>
      intro n
      rw [List.foldlM_cons, digit.digitIn? small]
      exact ih _
  have places : digits.foldl (fun n d => n * base + d) 0 = placeValue base digits := by
    rw [placeValue, Nat.ofDigits_eq_foldr, List.foldr_reverse]
    simp only [Nat.cast_id, Nat.add_comm, Nat.mul_comm]
  rw [positional?, go, places]

theorem number?_of_digits (small : base ≤ 16) (some_digit : digits ≠ [])
    (h : List.Forall₂ (IsDigit base) text digits) :
    number? base text = (some (placeValue base digits)).filter (· < bound) := by
  rw [← positional?_of_digits small h]
  cases h with
  | nil => exact absurd rfl some_digit
  | @cons c d text digits digit more =>
    have sign : c ≠ '+' :=
      digit.ne_of_digitValue? small (by simp [show digitValue? '+' = none from rfl])
    unfold number?
    split <;> simp_all

/-- A digit names no base. -/
theorem baseAndDigits_octal {c : Char} {d : Nat} (h : IsDigit 8 c d) (rest : List Char) :
    IntegerLiteral.baseAndDigits ('0' :: c :: rest) = (8, c :: rest) := by
  have letter {mark : Char} (value : mark.isDigit = false) : c ≠ mark := by
    rintro rfl
    rw [h.isDigit (by decide)] at value
    cases value
  rw [baseAndDigits_zero, if_neg (letter rfl), if_neg (letter rfl), if_neg (letter rfl)]

/-- The letter of a base is no separator, and names the base in small letters. -/
theorem baseAndDigits_marked {mark : Char} (h : (mark, base) ∈ baseMarks) : mark ≠ '_' ∧
    ∀ rest, IntegerLiteral.baseAndDigits ('0' :: mark.toLower :: rest) = (base, rest) := by
  simp only [baseMarks, List.mem_cons, Prod.mk.injEq, List.not_mem_nil, or_false] at h
  obtain ⟨rfl, rfl⟩ | ⟨rfl, rfl⟩ | ⟨rfl, rfl⟩ | ⟨rfl, rfl⟩ | ⟨rfl, rfl⟩ | ⟨rfl, rfl⟩ := h <;>
    exact ⟨by decide, fun rest => rfl⟩

/-- **A literal in small letters and without separators** has its base and its digits. -/
theorem IsWritten.baseAndDigits (h : IsWritten text base digits) :
    base ≤ 16 ∧ digits ≠ [] ∧ ∃ plain,
      IntegerLiteral.baseAndDigits ((text.filter (· != '_')).map Char.toLower) = (base, plain) ∧
      List.Forall₂ (IsDigit base) plain digits := by
  have lower {base : Nat} {text : List Char} {digits : List Nat} (small : base ≤ 16)
      (h : Digits base text digits) :
      List.Forall₂ (IsDigit base) ((text.filter (· != '_')).map Char.toLower) digits :=
    List.forall₂_map_left_iff.mpr ((h.unseparated small).imp fun _ _ digit => digit.toLower small)
  have passed {sep : List Char} (separator : sep ∈ [[], ['_']]) (text : List Char) :
      (sep ++ text).filter (· != '_') = text.filter (· != '_') := by
    simp only [List.mem_cons, List.not_mem_nil, or_false] at separator
    obtain rfl | rfl := separator <;> simp
  cases h with
  | zero => exact ⟨by decide, by simp, ['0'], rfl, .cons ⟨by decide, by decide⟩ .nil⟩
  | decimal lead number =>
    have plain := lower (by decide) number
    refine ⟨by decide, number.ne_nil, _, ?_, plain⟩
    generalize (text.filter (· != '_')).map Char.toLower = small at plain
    cases plain with
    | cons digit _ => exact baseAndDigits_of_ne (digit.ne_zero (by decide) lead) _
  | octal separator number =>
    have plain := lower (by decide) number
    refine ⟨by decide, number.ne_nil, _, ?_, plain⟩
    rw [List.filter_cons_of_pos (by decide), List.map_cons, passed separator]
    generalize (List.filter (· != '_') _).map Char.toLower = small at plain
    cases plain with
    | nil => exact absurd rfl number.ne_nil
    | cons digit _ => exact baseAndDigits_octal digit _
  | marked letter separator number =>
    have small : base ≤ 16 := by
      obtain ⟨rfl, -⟩ | ⟨small, -⟩ := baseMarks_cases letter <;> omega
    obtain ⟨kept, base_eq⟩ := baseAndDigits_marked letter
    refine ⟨small, number.ne_nil, _, ?_, lower small number⟩
    rw [List.filter_cons_of_pos (by decide), List.filter_cons_of_pos (by simpa using kept),
      passed separator]
    exact base_eq _

theorem IsWritten.literalNumber_eq {text : String} (h : IsWritten text.toList base digits) :
    literalNumber text = placeValue base digits := by
  obtain ⟨small, -, plain, eq, number⟩ := h.baseAndDigits
  rw [literalNumber, ← digitsNumber_baseAndDigits, eq]
  exact positional?_eq_some (positional?_of_digits small number)

/-- **The number of a literal is read off it** if it is in range. -/
theorem IsWritten.value?_eq {text : String} (h : IsWritten text.toList base digits) :
    value? text =
      if placeValue base digits < 2 ^ 128 then some (placeValue base digits) else none := by
  obtain ⟨small, some_digit, plain, eq, number⟩ := h.baseAndDigits
  have bound_eq : bound = 2 ^ 128 := rfl
  rw [value?, normalized, eq]
  dsimp only
  rw [number?_of_digits small some_digit number, bound_eq, Option.filter_some]
  split <;> simp_all

/-! ## The word of a literal -/

theorem readDigits_all {p : Char → Bool} (h : text.all (fun c => p c || c == '_') = true) :
    readDigits p text = ⟨text, []⟩ := by
  have whole := @whileTrue_append (fun c => p c || c == '_') text [] h (by simp)
  rwa [List.append_nil] at whole

theorem readMantissa_all {p : Char → Bool} {marks : List Char}
    (h : text.all (fun c => p c || c == '_') = true) :
    readMantissa p marks text = (false, ⟨text, []⟩) := by
  simp [readMantissa, readDigits_all h, readFraction, readExponent]

theorem all_separated {p : Char → Bool} {sep : List Char} (separator : sep ∈ [[], ['_']])
    (h : text.all (fun c => p c || c == '_') = true) :
    (sep ++ text).all (fun c => p c || c == '_') = true := by
  simp only [List.mem_cons, List.not_mem_nil, or_false] at separator
  obtain rfl | rfl := separator
  · exact h
  · simpa using h

/-- Neither a digit nor a separator after a zero names a base. -/
theorem isUnbased_of_digits (h : text.all (fun c => c.isDigit || c == '_') = true) :
    IsUnbased ('0' :: text) := by
  intro more eq c hc
  obtain rfl := (List.cons.inj eq).2
  have digit := List.all_eq_true.mp h c (List.mem_of_mem_head? hc)
  rw [Bool.eq_false_iff]
  intro letter
  have letters : baseLetters.all (fun c => !(c.isDigit || c == '_')) = true := by decide
  have := List.all_eq_true.mp letters c (List.contains_iff_mem.mp letter)
  rw [digit] at this
  cases this

/-- **A literal is read to its end**, and it starts with a digit. -/
theorem IsWritten.readReal_eq (h : IsWritten text base digits) :
    readReal text = (false, ⟨text, []⟩) ∧ text.head?.any Char.isDigit = true := by
  have decimal {base : Nat} {text : List Char} {digits : List Nat} (small : base ≤ 10)
      (h : Digits base text digits) := h.all_digits fun _ _ digit => digit.isDigit small
  cases h with
  | zero => exact ⟨rfl, rfl⟩
  | decimal lead number =>
    obtain ⟨all, first⟩ := decimal (by decide) number
    refine ⟨?_, first⟩
    have unbased : IsUnbased text := by
      intro more eq
      cases number with
      | last digit | next digit | apart digit =>
        exact absurd (List.cons.inj eq).1 (digit.ne_zero (by decide) lead)
    rw [readReal_unbased unbased, readMantissa_all all]
  | octal separator number =>
    have all := all_separated separator (decimal (by decide) number).1
    refine ⟨?_, rfl⟩
    rw [readReal_unbased (isUnbased_of_digits all), readMantissa_all]
    simpa using all
  | marked letter separator number =>
    refine ⟨?_, rfl⟩
    obtain ⟨rfl, mark⟩ | ⟨small, mark⟩ := baseMarks_cases letter
    · have hexadecimal := number.all_digits fun _ _ digit => digit.isDigitIn (by decide)
      rw [readReal_hex mark, readMantissa_all (all_separated separator hexadecimal.1)]
      rfl
    · have all := all_separated separator (decimal (by omega) number).1
      rw [readReal_based mark, readDigits_all all]
      rfl

theorem IsWritten.isNumber {text : String} (h : IsWritten text.toList base digits) :
    IsNumber (.integer text) text.toList := by
  obtain ⟨real, first⟩ := h.readReal_eq
  have number := readNumber_real real (by simp)
  rw [if_neg (by decide), String.ofList_toList] at number
  refine ⟨text.toList, ?_, by rw [number], by rw [number]⟩
  cases characters : text.toList with
  | nil => simp [characters] at first
  | cons c more => exact startsNumber_cons (by simpa [characters] using first) more

/-- **An integer literal is read as one.**  Alone in a text it is one word, which ends a statement, and
its number is the one with its digits if 128 bits can hold that; a greater number is none. -/
theorem IsWritten.scan_and_number {text : String} (h : IsWritten text.toList base digits) :
    scan text = .ok [⟨.integer text, Pos.start, text.toList⟩,
      ⟨.semicolon, Pos.start.advance text.toList, []⟩,
      ⟨.endOfText, Pos.start.advance text.toList, []⟩] ∧
    value? text =
      if placeValue base digits < 2 ^ 128 then some (placeValue base digits) else none := by
  have mark : text.toList.head? ≠ some Scanner.byteOrderMark := by
    intro first
    have digit := h.readReal_eq.2
    rw [first] at digit
    cases digit
  exact ⟨scan_of_readsAs (h.isNumber.readsAs (by simp)) mark rfl, h.value?_eq⟩

/-- A literal with a letter, a separator after it and another one between its digits, and the least
number that is out of range. -/
theorem IsWritten.scan_and_number_edges :
    (IsWritten "0X_fF_8".toList 16 [15, 15, 8] ∧
      scan "0X_fF_8" = .ok [⟨.integer "0X_fF_8", ⟨1, 1⟩, "0X_fF_8".toList⟩,
        ⟨.semicolon, ⟨1, 8⟩, []⟩, ⟨.endOfText, ⟨1, 8⟩, []⟩] ∧
      value? "0X_fF_8" = some 4088) ∧
    IsWritten "0x100000000000000000000000000000000".toList 16 (1 :: List.replicate 32 0) ∧
      value? "0x100000000000000000000000000000000" = none := by
  have mixed : IsWritten "0X_fF_8".toList 16 [15, 15, 8] :=
    @IsWritten.marked 'X' 16 ['_'] _ _ (by decide) (by decide)
      (.next ⟨by decide, .inl rfl⟩ (.apart ⟨by decide, .inr rfl⟩ (.last ⟨by decide, .inl rfl⟩)))
  have large : IsWritten "0x100000000000000000000000000000000".toList 16
      (1 :: List.replicate 32 0) :=
    @IsWritten.marked 'x' 16 [] _ _ (by decide) (by decide)
      (@Digits.of_digitChars 16 (1 :: List.replicate 32 0) (by decide) (by decide))
  obtain ⟨words, number⟩ := mixed.scan_and_number
  exact ⟨⟨mixed, words, number⟩, large, large.scan_and_number.2⟩

end

end IntegerLiteral

end EnumCodec
