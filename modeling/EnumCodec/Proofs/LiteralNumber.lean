import EnumCodec.Literal.Integer
import Mathlib.Data.List.Induction
import Mathlib.Data.Nat.Digits.Defs

/-!
# The number that a literal stands for

`literalNumber` reads the number off the text of an integer literal: separators are passed over, the
letters after a leading zero name the base, and each digit counts by its place.

* `positional?_eq_some` — digits that are read from the left stand for the number they have by
  place.
* `digitValue?_toLower` — small and capital letters are the same digits.
* `literalNumber_of_value?` — what `IntegerLiteral.value?` reads is this number.
-/

set_option autoImplicit false

namespace EnumCodec

open Text

/-! ## Digits by place -/

/-- The number that the digits of a text stand for, the last one being the digit of ones; all other
characters are passed over. -/
def digitsNumber (base : Nat) (text : List Char) : Nat :=
  Nat.ofDigits base (text.reverse.filterMap digitValue?)

theorem digitsNumber_snoc {base d : Nat} {text : List Char} {c : Char}
    (h : digitValue? c = some d) :
    digitsNumber base (text ++ [c]) = digitsNumber base text * base + d := by
  unfold digitsNumber
  rw [List.reverse_append, List.reverse_singleton, List.singleton_append,
    List.filterMap_cons_some h, Nat.ofDigits_cons, Nat.mul_comm, Nat.add_comm]

theorem positional?_eq_some {base n : Nat} {digits : List Char}
    (h : positional? base digits = some n) : digitsNumber base digits = n := by
  -- from the left, as the digits are read
  induction digits using List.reverseRecOn generalizing n with
  | nil =>
    cases h
    rfl
  | append_singleton digits c ih =>
    unfold positional? at h ih
    rw [List.foldlM_append] at h
    obtain ⟨m, hm, hlast⟩ := Option.bind_eq_some_iff.1 h
    rw [List.foldlM_cons] at hlast
    obtain ⟨k, hk, hlast⟩ := Option.bind_eq_some_iff.1 hlast
    obtain ⟨d, hd, rfl⟩ := Option.map_eq_some_iff.1 hk
    cases hlast
    rw [digitsNumber_snoc (Option.filter_eq_some_iff.1 hd).1, ih hm]

/-! ## Small and capital letters -/

theorem toNat_toLower (c : Char) :
    c.toLower.toNat = if 65 ≤ c.toNat ∧ c.toNat ≤ 90 then c.toNat + 32 else c.toNat := by
  delta Char.toLower
  split
  · rename_i h
    have h1 : 65 ≤ c.toNat := h.1
    have h2 : c.toNat ≤ 90 := h.2
    rw [if_pos ⟨h1, h2⟩]
    show (c.val + 32).toNat = _
    rw [UInt32.toNat_add]
    show (c.toNat + 32) % 2 ^ 32 = _
    omega
  · rename_i h
    exact (if_neg fun h' : 65 ≤ c.toNat ∧ c.toNat ≤ 90 => h h').symm

theorem digitValue?_small {c : Char} (h : 97 ≤ c.toNat ∧ c.toNat ≤ 122) :
    digitValue? c = some (c.toNat - 87) := by
  have hdigit : ¬ ('0' ≤ c ∧ c ≤ '9') := fun hd => by
    have : c.toNat ≤ 57 := hd.2
    omega
  have hsmall : 'a' ≤ c ∧ c ≤ 'z' := h
  rw [digitValue?, if_neg hdigit, if_pos hsmall]

theorem digitValue?_capital {c : Char} (h : 65 ≤ c.toNat ∧ c.toNat ≤ 90) :
    digitValue? c = some (c.toNat - 55) := by
  have hdigit : ¬ ('0' ≤ c ∧ c ≤ '9') := fun hd => by
    have : c.toNat ≤ 57 := hd.2
    omega
  have hsmall : ¬ ('a' ≤ c ∧ c ≤ 'z') := fun hs => by
    have : 97 ≤ c.toNat := hs.1
    omega
  have hcapital : 'A' ≤ c ∧ c ≤ 'Z' := h
  rw [digitValue?, if_neg hdigit, if_neg hsmall, if_pos hcapital]

theorem digitValue?_toLower (c : Char) : digitValue? c.toLower = digitValue? c := by
  have h := toNat_toLower c
  by_cases hc : 65 ≤ c.toNat ∧ c.toNat ≤ 90
  · rw [if_pos hc] at h
    rw [digitValue?_small (by omega), digitValue?_capital hc, h]
    rfl
  · rw [if_neg hc] at h
    rw [Char.toNat_inj.1 h]

theorem digitsNumber_toLower (base : Nat) (text : List Char) :
    digitsNumber base (text.map Char.toLower) = digitsNumber base text := by
  unfold digitsNumber
  rw [← List.map_reverse, List.filterMap_map]
  congr 2
  exact funext digitValue?_toLower

/-! ## Literals -/

/-- The number of a text without separators: the letter after a leading zero names the base, which
is eight where there is none. -/
def basedNumber : List Char → Nat
  | '0' :: c :: digits =>
    if c = 'x' ∨ c = 'X' then digitsNumber 16 digits
    else if c = 'b' ∨ c = 'B' then digitsNumber 2 digits
    else if c = 'o' ∨ c = 'O' then digitsNumber 8 digits
    else digitsNumber 8 (c :: digits)
  | digits => digitsNumber 10 digits

/-- The number that the text of a literal stands for. -/
def literalNumber (text : String) : Nat := basedNumber (text.toList.filter (· != '_'))

theorem digitsNumber_of_number? {base n : Nat} {digits : List Char}
    (h : IntegerLiteral.number? base digits = some n) : digitsNumber base digits = n := by
  unfold IntegerLiteral.number? at h
  split at h
  · cases h
  · cases h
  · rename_i rest _
    have hplus : digitsNumber base ('+' :: rest) = digitsNumber base rest := by
      unfold digitsNumber
      rw [List.reverse_cons, List.filterMap_append]
      exact congrArg _ (List.append_nil _)
    rw [hplus]
    exact positional?_eq_some (Option.filter_eq_some_iff.1 h).1
  · exact positional?_eq_some (Option.filter_eq_some_iff.1 h).1

theorem toLower_eq_letter_iff (c small capital : Char)
    (hs : 97 ≤ small.toNat ∧ small.toNat ≤ 122) (hc : capital.toNat + 32 = small.toNat) :
    c.toLower = small ↔ c = small ∨ c = capital := by
  rw [← Char.toNat_inj, ← Char.toNat_inj, ← Char.toNat_inj, toNat_toLower]
  split <;> omega

theorem toLower_eq_zero_iff {c : Char} : c.toLower = '0' ↔ c = '0' := by
  rw [← Char.toNat_inj, ← Char.toNat_inj, toNat_toLower]
  show _ = 48 ↔ _ = 48
  split <;> omega

theorem baseAndDigits_zero (d : Char) (rest : List Char) :
    IntegerLiteral.baseAndDigits ('0' :: d :: rest) =
      if d = 'x' then (16, rest) else if d = 'b' then (2, rest)
      else if d = 'o' then (8, rest) else (8, d :: rest) := by
  unfold IntegerLiteral.baseAndDigits
  split <;> simp_all

theorem baseAndDigits_of_ne {c : Char} (h : c ≠ '0') (rest : List Char) :
    IntegerLiteral.baseAndDigits (c :: rest) = (10, c :: rest) := by
  unfold IntegerLiteral.baseAndDigits
  split <;> simp_all

theorem basedNumber_of_ne {c : Char} (h : c ≠ '0') (rest : List Char) :
    basedNumber (c :: rest) = digitsNumber 10 (c :: rest) := by
  unfold basedNumber
  split <;> simp_all

/-- The base and the digits that are read in small letters give the number of the text. -/
theorem digitsNumber_baseAndDigits (text : List Char) :
    digitsNumber (IntegerLiteral.baseAndDigits (text.map Char.toLower)).1
      (IntegerLiteral.baseAndDigits (text.map Char.toLower)).2 = basedNumber text := by
  match text with
  | [] => rfl
  | [c] =>
    by_cases hc : c = '0'
    · subst hc
      rfl
    · rw [basedNumber_of_ne hc, List.map_cons,
        baseAndDigits_of_ne (hc ∘ toLower_eq_zero_iff.1)]
      exact digitsNumber_toLower 10 [c]
  | c :: d :: rest =>
    by_cases hc : c = '0'
    · subst hc
      have hx := toLower_eq_letter_iff d 'x' 'X' (by decide) rfl
      have hb := toLower_eq_letter_iff d 'b' 'B' (by decide) rfl
      have ho := toLower_eq_letter_iff d 'o' 'O' (by decide) rfl
      rw [List.map_cons, List.map_cons, toLower_eq_zero_iff.2 rfl, baseAndDigits_zero, basedNumber]
      simp only [hx, hb, ho]
      split_ifs
      · exact digitsNumber_toLower 16 rest
      · exact digitsNumber_toLower 2 rest
      · exact digitsNumber_toLower 8 rest
      · exact digitsNumber_toLower 8 (d :: rest)
    · rw [basedNumber_of_ne hc, List.map_cons,
        baseAndDigits_of_ne (hc ∘ toLower_eq_zero_iff.1)]
      exact digitsNumber_toLower 10 (c :: d :: rest)

/-- **A literal that can be read has the number it stands for.** -/
theorem literalNumber_of_value? {text : String} {n : Nat}
    (h : IntegerLiteral.value? text = some n) : literalNumber text = n := by
  rw [literalNumber, ← digitsNumber_baseAndDigits]
  exact digitsNumber_of_number? h

end EnumCodec
