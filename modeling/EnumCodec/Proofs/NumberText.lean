import EnumCodec.Proofs.PrintedText

/-!
# Numbers before other text

A number that was read off a text is read again wherever it stands before a character that ends words.

* `Replaces` — a text that can stand in the place of the rest that a reader left.
* `Steady` — a reader takes the same before such a text; one rule for each way to make a reader.
* `readNumber_again` — a number is read again.
* `IsNumber.readsAs` — a number stands as a word before what ends words.
* `scan_isScanned` — the names of a text are identifiers, and its numbers were read as numbers.
-/

set_option autoImplicit false

namespace EnumCodec

open Text

/-! ## Steady readers -/

/-- The characters that end names and numbers, whatever comes after them. -/
def endsWord (c : Char) : Bool := [' ', '\n', ',', '(', ')'].contains c

/-- The text starts like the rest, or with a character that ends words, or it is empty. -/
def Replaces (text rest : List Char) : Prop :=
  text.head? = rest.head? ∨ ∀ c ∈ text.head?, endsWord c = true

/-- What the reader takes, it takes too where another text stands in the place of the rest. -/
def Steady (reader : List Char → Split) : Prop :=
  ∀ text rest, Replaces rest (reader text).rest →
    reader ((reader text).taken ++ rest) = ⟨(reader text).taken, rest⟩

theorem Replaces.append {text rest : List Char} (h : Replaces text rest) (front : List Char) :
    Replaces (front ++ text) (front ++ rest) := by
  cases front with
  | nil => exact h
  | cons c front => exact .inl rfl

/-- Before what a reader left, what it took is put back. -/
theorem Replaces.putBack {s : Split} {text rest : List Char} (h : Replaces rest s.rest)
    (whole : s.whole = text) : Replaces (s.taken ++ rest) text := by
  rw [← whole]
  exact h.append s.taken

/-- A character that does not end words does not come first where it did not before. -/
theorem Replaces.not_mem {p : Char → Bool} (words : ∀ c, endsWord c = true → p c = false)
    {text rest : List Char} (h : Replaces text rest) (none : ∀ c ∈ rest.head?, p c = false) :
    ∀ c ∈ text.head?, p c = false := by
  intro c hc
  obtain same | ends := h
  · exact none c (same ▸ hc)
  · exact words c (ends c hc)

/-- Characters none of which ends words. -/
theorem not_contains_of_endsWord {marks : List Char} (h : marks.all (!endsWord ·) = true) (c : Char)
    (ends : endsWord c = true) : marks.contains c = false := by
  rw [Bool.eq_false_iff]
  intro mem
  have := List.all_eq_true.mp h c (List.contains_iff_mem.mp mem)
  simp [ends] at this

namespace Steady

theorem whileTrue {p : Char → Bool} (words : ∀ c, endsWord c = true → p c = false) :
    Steady (Split.whileTrue p) := by
  intro text rest replaces
  apply whileTrue_append List.all_takeWhile
  apply replaces.not_mem words
  intro c hc
  have first := List.head?_dropWhile_not p text
  rw [show (text.dropWhile p).head? = some c from hc] at first
  simpa using first

theorem andThen {first second : List Char → Split} (h : Steady first) (h' : Steady second)
    (whole : ∀ text, (second text).whole = text) :
    Steady fun text => (first text).andThen second := by
  intro text rest replaces
  have replaces : Replaces rest (second (first text).rest).rest := replaces
  have again := h text _ (replaces.putBack (whole _))
  have again' := h' (first text).rest rest replaces
  simp only [Split.andThen, List.append_assoc, again, again']

theorem nothing : Steady fun text => ⟨[], text⟩ := fun _ _ _ => rfl

/-- A reader that goes on after some characters, and takes nothing where none of them comes first. -/
theorem optional (marks : List Char) {reader more : List Char → Split}
    (taken : ∀ c text, c ∈ marks → reader (c :: text) = (more text).after [c])
    (none : ∀ text, (∀ c ∈ text.head?, marks.contains c = false) → reader text = ⟨[], text⟩)
    (words : marks.all (!endsWord ·) = true) (h : Steady more) : Steady reader := by
  intro text rest replaces
  by_cases mark : ∀ c ∈ text.head?, marks.contains c = false
  · rw [none text mark] at replaces ⊢
    exact none rest (replaces.not_mem (not_contains_of_endsWord words) mark)
  · cases text with
    | nil => exact absurd (by simp) mark
    | cons c text =>
      have mem : c ∈ marks := by simpa using mark
      rw [taken c text mem] at replaces ⊢
      show reader (c :: ((more text).taken ++ rest)) = _
      rw [taken c _ mem, h text rest replaces]
      rfl

end Steady

/-! ## Parts of a number -/

theorem isDigit_of_endsWord (c : Char) (h : endsWord c = true) : c.isDigit = false := by
  have all : [' ', '\n', ',', '(', ')'].all (!Char.isDigit ·) = true := by decide
  simpa using List.all_eq_true.mp all c (List.contains_iff_mem.mp h)

theorem isDigitIn_of_endsWord (c : Char) (h : endsWord c = true) : isDigitIn 16 c = false := by
  have all : [' ', '\n', ',', '(', ')'].all (!isDigitIn 16 ·) = true := by decide
  simpa using List.all_eq_true.mp all c (List.contains_iff_mem.mp h)

section Parts

variable {digit : Char → Bool} {marks : List Char}

theorem readDigits_steady (words : ∀ c, endsWord c = true → digit c = false) :
    Steady (readDigits digit) := by
  apply Steady.whileTrue
  intro c ends
  have underscore : c ≠ '_' := by
    rintro rfl
    cases ends
  simp [words c ends, underscore]

theorem readFraction_steady (words : ∀ c, endsWord c = true → digit c = false) :
    Steady (readFraction digit) := by
  apply Steady.optional ['.'] _ _ (by decide) (readDigits_steady words)
  · intro c text mark
    obtain rfl := List.mem_singleton.mp mark
    rfl
  · intro text none
    unfold readFraction
    split
    · exact absurd (none '.' rfl) (by decide)
    · rfl

theorem readSign_steady : Steady readSign := by
  apply Steady.optional ['+', '-'] _ _ (by decide) Steady.nothing
  · intro c text mark
    simp only [List.mem_cons, List.not_mem_nil, or_false] at mark
    obtain rfl | rfl := mark <;> rfl
  · intro text none
    unfold readSign
    split
    · exact absurd (none '+' rfl) (by decide)
    · exact absurd (none '-' rfl) (by decide)
    · rfl

theorem readExponent_steady (words : marks.all (!endsWord ·) = true) :
    Steady (readExponent marks) := by
  have digits : Steady fun text => (readSign text).andThen (readDigits Char.isDigit) :=
    readSign_steady.andThen (readDigits_steady isDigit_of_endsWord) (readDigits_whole _)
  apply Steady.optional marks _ _ words digits
  · intro c text mark
    rw [readExponent, if_pos mark]
  · intro text none
    cases text with
    | nil => rfl
    | cons c text =>
      have mark : c ∉ marks := by simpa using none
      rw [readExponent, if_neg mark]

/-- The digits, the fraction and the exponent are found again, so that the number is a fraction as
before. -/
theorem readMantissa_steady (words : ∀ c, endsWord c = true → digit c = false)
    (words' : marks.all (!endsWord ·) = true) {text rest : List Char}
    (replaces : Replaces rest (readMantissa digit marks text).2.rest) :
    readMantissa digit marks ((readMantissa digit marks text).2.taken ++ rest)
      = ((readMantissa digit marks text).1, ⟨(readMantissa digit marks text).2.taken, rest⟩) := by
  have replaces : Replaces rest
      (readExponent marks (readFraction digit (readDigits digit text).rest).rest).rest := replaces
  have replaces' := replaces.putBack (readExponent_whole marks _)
  have replaces'' := replaces'.putBack (readFraction_whole digit _)
  have whole := readDigits_steady words text _ replaces''
  have fraction := readFraction_steady words _ _ replaces'
  have exponent := readExponent_steady words' _ _ replaces
  simp only [readMantissa, List.append_assoc, whole, fraction, exponent]

end Parts

/-! ## Numbers -/

/-- The letters of the bases, after a zero. -/
def baseLetters : List Char := ['x', 'X', 'b', 'B', 'o', 'O']

theorem readReal_hex {c : Char} {text : List Char} (h : c = 'x' ∨ c = 'X') :
    readReal ('0' :: c :: text) = ((readMantissa (isDigitIn 16) ['p', 'P'] text).1,
      (readMantissa (isDigitIn 16) ['p', 'P'] text).2.after ['0', c]) := by
  simp [readReal, h]

theorem readReal_based {c : Char} {text : List Char} (h : c = 'b' ∨ c = 'B' ∨ c = 'o' ∨ c = 'O') :
    readReal ('0' :: c :: text) = (false, (readDigits Char.isDigit text).after ['0', c]) := by
  have hex : ¬ (c = 'x' ∨ c = 'X') := by
    obtain rfl | rfl | rfl | rfl := h <;> decide
  simp [readReal, hex, h]

/-- The text is no zero with the letter of a base after it. -/
def IsUnbased (text : List Char) : Prop :=
  ∀ more, text = '0' :: more → ∀ c ∈ more.head?, baseLetters.contains c = false

theorem readReal_unbased {text : List Char} (h : IsUnbased text) :
    readReal text = readMantissa Char.isDigit ['e', 'E'] text := by
  unfold readReal
  split
  · rename_i c rest
    have plain := h (c :: rest) rfl c rfl
    simp only [baseLetters, List.contains_cons, List.contains_nil, Bool.or_eq_false_iff,
      beq_eq_false_iff_ne] at plain
    simp [plain]
  · rfl

theorem IsUnbased.replace {taken text rest : List Char} (h : IsUnbased (taken ++ rest))
    (some_taken : taken ≠ []) (replaces : Replaces text rest) : IsUnbased (taken ++ text) := by
  cases taken with
  | nil => exact absurd rfl some_taken
  | cons c taken =>
    intro more eq
    obtain ⟨rfl, rfl⟩ := List.cons.inj eq
    exact (replaces.append taken).not_mem (not_contains_of_endsWord (by decide)) (h _ rfl)

theorem readReal_steady {text rest : List Char} (starts : startsNumber text = true)
    (replaces : Replaces rest (readReal text).2.rest) :
    readReal ((readReal text).2.taken ++ rest)
      = ((readReal text).1, ⟨(readReal text).2.taken, rest⟩) := by
  by_cases based : ∃ c more, text = '0' :: c :: more ∧ c ∈ baseLetters
  · obtain ⟨c, text, rfl, letter⟩ := based
    obtain hex | based : (c = 'x' ∨ c = 'X') ∨ c = 'b' ∨ c = 'B' ∨ c = 'o' ∨ c = 'O' := by
      simpa [baseLetters, or_assoc] using letter
    · rw [readReal_hex hex] at replaces ⊢
      have again := readMantissa_steady isDigitIn_of_endsWord (by decide) replaces
      show readReal ('0' :: c :: ((readMantissa (isDigitIn 16) ['p', 'P'] text).2.taken ++ rest)) = _
      rw [readReal_hex hex, again]
      rfl
    · rw [readReal_based based] at replaces ⊢
      have again := readDigits_steady isDigit_of_endsWord _ _ replaces
      show readReal ('0' :: c :: ((readDigits Char.isDigit text).taken ++ rest)) = _
      rw [readReal_based based, again]
      rfl
  · have unbased : IsUnbased text := by
      intro more eq c hc
      rw [Bool.eq_false_iff]
      intro letter
      cases more with
      | nil => cases hc
      | cons d more =>
        cases hc
        exact based ⟨c, more, eq, List.contains_iff_mem.mp letter⟩
    have whole : (readMantissa Char.isDigit ['e', 'E'] text).2.whole = text := readMantissa_whole ..
    rw [readReal_unbased unbased] at replaces ⊢
    rw [← whole] at unbased
    rw [readReal_unbased (unbased.replace (readMantissa_taken starts) replaces)]
    exact readMantissa_steady isDigit_of_endsWord (by decide) replaces

theorem readNumber_imaginary {text rest : List Char} {isFloat : Bool} {m : Split}
    (real : readReal text = (isFloat, m)) (mark : m.rest = 'i' :: rest) :
    readNumber text = (.imaginary (String.ofList (m.taken ++ ['i'])), ⟨m.taken ++ ['i'], rest⟩) := by
  simp only [readNumber, real, mark]

theorem readNumber_real {text : List Char} {isFloat : Bool} {m : Split}
    (real : readReal text = (isFloat, m)) (no_mark : m.rest.head? ≠ some 'i') :
    readNumber text
      = (if isFloat then .float (String.ofList m.taken) else .integer (String.ofList m.taken), m) := by
  simp only [readNumber, real]
  split
  · rename_i mark
    exact absurd (by rw [mark]; rfl) no_mark
  · rfl

theorem readReal_starts (text : List Char) :
    (readReal text).2.taken <+: (readNumber text).2.taken := by
  cases real : readReal text with
  | mk isFloat m =>
    by_cases mark : m.rest.head? = some 'i'
    · obtain ⟨more, mark⟩ := List.head?_eq_some_iff.mp mark
      rw [readNumber_imaginary real mark]
      exact List.prefix_append ..
    · rw [readNumber_real real mark]

/-- A number that starts with a point takes the digit after it. -/
theorem readNumber_point {d : Char} {text : List Char} (digit : d.isDigit = true) :
    ['.', d] <+: (readNumber ('.' :: d :: text)).2.taken := by
  have real : ['.', d] <+: (readReal ('.' :: d :: text)).2.taken := by
    have not_digit : Char.isDigit '.' = false := by decide
    simp [readReal, readMantissa, readDigits, Split.whileTrue, readFraction, Split.after, digit,
      not_digit]
  exact real.trans (readReal_starts _)

theorem startsNumber_cons {c : Char} (digit : c.isDigit = true) (text : List Char) :
    startsNumber (c :: text) = true := by
  unfold startsNumber
  split
  · rename_i eq
    cases eq
    cases digit
  · rename_i eq
    cases eq
    exact digit
  · rename_i eq
    cases eq

/-- A number starts with a digit, or with a point and a digit. -/
theorem startsNumber_cases {text : List Char} (starts : startsNumber text = true) :
    (∃ c more, text = c :: more ∧ c.isDigit = true) ∨
      ∃ d more, text = '.' :: d :: more ∧ d.isDigit = true := by
  unfold startsNumber at starts
  split at starts
  · exact .inr ⟨_, _, rfl, starts⟩
  · exact .inl ⟨_, _, rfl, starts⟩
  · cases starts

/-- What is taken as a number starts one, whatever follows it. -/
theorem startsNumber_taken {text : List Char} (starts : startsNumber text = true)
    (rest : List Char) : startsNumber ((readNumber text).2.taken ++ rest) = true := by
  obtain ⟨c, more, rfl, digit⟩ | ⟨d, more, rfl, digit⟩ := startsNumber_cases starts
  · have whole := readNumber_whole (c :: more)
    cases taken : (readNumber (c :: more)).2.taken with
    | nil => exact absurd taken (readNumber_taken starts)
    | cons d word =>
      rw [Split.whole, taken] at whole
      obtain rfl := (List.cons.inj whole).1
      exact startsNumber_cons digit _
  · have point : ['.', d] <+: (readNumber ('.' :: d :: more)).2.taken := readNumber_point digit
    obtain ⟨word, eq⟩ := point
    rw [← eq]
    exact digit

/-- **A number is read again** before what ends words. -/
theorem readNumber_again {text rest : List Char} (starts : startsNumber text = true)
    (ends : ∀ c ∈ rest.head?, endsWord c = true) :
    readNumber ((readNumber text).2.taken ++ rest)
      = ((readNumber text).1, ⟨(readNumber text).2.taken, rest⟩) := by
  cases real : readReal text with
  | mk isFloat m =>
    have steady : ∀ rest, Replaces rest m.rest →
        readReal (m.taken ++ rest) = (isFloat, ⟨m.taken, rest⟩) := by
      intro rest replaces
      have again := @readReal_steady text rest starts
      rw [real] at again
      exact again replaces
    by_cases mark : m.rest.head? = some 'i'
    · obtain ⟨more, mark⟩ := List.head?_eq_some_iff.mp mark
      rw [readNumber_imaginary real mark]
      have again := steady ('i' :: rest) (by rw [mark]; exact .inl rfl)
      have imaginary := readNumber_imaginary again rfl
      rwa [← List.singleton_append, ← List.append_assoc] at imaginary
    · rw [readNumber_real real mark]
      have no_mark : rest.head? ≠ some 'i' := by
        intro mark
        exact absurd (ends 'i' mark) (by decide)
      exact readNumber_real (steady rest (.inr ends)) no_mark

/-- The token of a number that was read with these characters. -/
def IsNumber (kind : TokenKind) (word : List Char) : Prop :=
  ∃ text, startsNumber text = true ∧ (readNumber text).1 = kind ∧ (readNumber text).2.taken = word

theorem isBlank_of_isDigit {c : Char} (digit : c.isDigit = true) : isBlank c = false := by
  apply isBlank_of_isNamePart
  have := isDigit_iff.mp digit
  have ascii : c.toNat < 128 := by omega
  simp [isNamePart, isNumeric, ascii, digit]

/-- Neither a digit nor a point is a blank, or starts a name or a comment. -/
theorem startsNumber_head {c : Char} {text : List Char} (starts : startsNumber (c :: text) = true) :
    isNameStart c = false ∧ isBlank c = false ∧ c ≠ '/' := by
  obtain ⟨d, more, eq, digit⟩ | ⟨d, more, eq, -⟩ := startsNumber_cases starts
  · cases eq
    refine ⟨?_, isBlank_of_isDigit digit, ?_⟩
    · rw [Bool.eq_false_iff]
      intro start
      rw [isDigit_of_isNameStart start] at digit
      cases digit
    · rintro rfl
      cases digit
  · cases eq
    decide

/-- **A number stands as a word** before what ends words. -/
theorem IsNumber.readsAs {kind : TokenKind} {word rest : List Char} (h : IsNumber kind word)
    (ends : ∀ c ∈ rest.head?, endsWord c = true) : Lexeme.ReadsAs word rest kind := by
  obtain ⟨text, starts, rfl, rfl⟩ := h
  have again := readNumber_again starts ends
  have starts' := startsNumber_taken starts rest
  generalize eq : (readNumber text).2.taken ++ rest = whole at again starts'
  cases whole with
  | nil => cases starts'
  | cons c more =>
    obtain ⟨start, blank, slash⟩ := startsNumber_head starts'
    refine ⟨c, more, eq, readFront_word blank fun e => absurd e slash, ?_⟩
    rw [Lexeme.read, if_neg (by simp [start]), if_pos starts', again]

/-! ## The words of a text -/

/-- A name is an identifier, and a number was read with its own characters. -/
def TokenKind.IsScanned : TokenKind → Prop
  | name s => IsIdentifier s
  | integer s => IsNumber (integer s) s.toList
  | float s => IsNumber (float s) s.toList
  | imaginary s => IsNumber (imaginary s) s.toList
  | _ => True

theorem IsNumber.isScanned {kind : TokenKind} {word : List Char} (h : IsNumber kind word)
    (spells : Spells kind word) : kind.IsScanned := by
  cases spells with
  | name identifier => exact identifier
  | integer s | float s | imaginary s => exact h
  | _ => trivial

theorem wordKind_isScanned {word : List Char} (spells : Spells (wordKind word) word) :
    (wordKind word).IsScanned := by
  cases kind : Keyword.ofText? (String.ofList word) with
  | some k =>
    have keyword : wordKind word = .keyword k := by simp [wordKind, kind]
    rw [keyword]
    trivial
  | none =>
    have name : wordKind word = .name (String.ofList word) := by simp [wordKind, kind]
    rw [name] at spells ⊢
    exact spells.isIdentifier

theorem Lexeme.read_isScanned {c : Char} {text : List Char} {l : Lexeme}
    (h : Lexeme.read c text = .ok l) : l.kind.IsScanned := by
  have spells := read_spells h
  unfold read at h
  split at h
  · cases h
    exact wordKind_isScanned spells
  split at h
  · rename_i starts
    cases h
    exact IsNumber.isScanned ⟨_, starts, rfl, rfl⟩ spells
  split at h
  · split at h <;> cases h
    trivial
  split at h
  · split at h <;> cases h
    trivial
  split at h
  · cases body : readRuneBody text with
    | error e => simp [body, bind, Except.bind] at h
    | ok r =>
      simp only [body, bind, Except.bind] at h
      split at h <;> cases h
      trivial
  split at h
  · cases h
    trivial
  split at h <;> cases h
  trivial

theorem Scanner.next_isScanned {s s' : Scanner} {t : Token} (h : s.next = .ok (t, s')) :
    t.kind.IsScanned := by
  obtain ⟨c, text, l, read, kind, -⟩ | ⟨semicolon, -⟩ | ended := next_read h
  · rw [kind]
    exact Lexeme.read_isScanned read
  · rw [semicolon]
    trivial
  · rw [ended]
    trivial

theorem scan_isScanned {source : String} {ts : List Token} (h : scan source = .ok ts) :
    ∀ t ∈ ts, t.kind.IsScanned :=
  Scanner.forall_tokens (fun _ _ _ next => Scanner.next_isScanned next) h

end EnumCodec
