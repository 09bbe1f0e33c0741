import EnumCodec.Proofs.TextLayout
import Mathlib

/-!
# Line feeds with carriage returns

A carriage return before each line feed of a text changes none of its words, if no raw string goes
over a line feed and no backslash takes one.

* `withReturns`, `KeepsFeeds` — the text with carriage returns, and the texts that this is said of.
* `Lexeme.read_withReturns` — one word.
* `gapRest?_withReturns` — one gap.
* `SameTokens` — tokens that differ only in the columns of the statement ends before line breaks.
* `Scanner.sameNext`, `Scanner.tokens_withReturns` — one token, and all of them.
* `scan_returnedSource` — so a text is cut into the same words.
-/

set_option autoImplicit false

namespace EnumCodec

open Text

/-! ## Texts -/

/-- The text with a carriage return before each line feed. -/
def withReturns (text : List Char) : List Char :=
  text.flatMap fun c => if c = '\n' then ['\r', '\n'] else [c]

@[simp] theorem withReturns_nil : withReturns [] = [] := rfl

@[simp] theorem withReturns_feed (text : List Char) :
    withReturns ('\n' :: text) = '\r' :: '\n' :: withReturns text := rfl

theorem withReturns_cons {c : Char} (h : c ≠ '\n') (text : List Char) :
    withReturns (c :: text) = c :: withReturns text := by
  simp [withReturns, h]

/-- A text starts as before, or with a carriage return. -/
theorem mem_head?_withReturns {d : Char} {text : List Char} (h : d ∈ (withReturns text).head?) :
    d = '\r' ∨ d ∈ text.head? := by
  cases text with
  | nil => cases h
  | cons c text =>
    by_cases feed : c = '\n'
    · subst feed
      exact .inl (Option.mem_some.mp h).symm
    · rw [withReturns_cons feed] at h
      exact .inr h

theorem withReturns_append (text more : List Char) :
    withReturns (text ++ more) = withReturns text ++ withReturns more :=
  List.flatMap_append

theorem mem_withReturns_iff {text : List Char} : '\n' ∈ withReturns text ↔ '\n' ∈ text := by
  constructor
  · intro h
    obtain ⟨c, hc, mem⟩ := List.mem_flatMap.mp h
    split at mem
    · rename_i feed
      exact feed ▸ hc
    · exact List.mem_singleton.mp mem ▸ hc
  · exact fun h => List.mem_flatMap.mpr ⟨'\n', h, by simp⟩

theorem withReturns_of_notMem {text : List Char} (h : '\n' ∉ text) : withReturns text = text := by
  induction text with
  | nil => rfl
  | cons c text ih =>
    rw [List.mem_cons, not_or] at h
    rw [withReturns_cons (Ne.symm h.1), ih h.2]

/-- Places are counted by line feeds, and no line goes on after a carriage return that comes before
one. -/
theorem Pos.advance_withReturns (pos : Pos) (text : List Char) :
    pos.advance (withReturns text) = pos.advance text := by
  induction text generalizing pos with
  | nil => rfl
  | cons c text ih =>
    by_cases feed : c = '\n'
    · subst feed
      exact ih _
    · rw [withReturns_cons feed]
      exact ih _

/-- No raw string is in the text, and no backslash takes a line feed with it. -/
structure KeepsFeeds (text : List Char) : Prop where
  raw : '\x60' ∉ text
  taken : ¬ ['\\', '\n'] <:+: text

theorem KeepsFeeds.of_suffix {text rest : List Char} (h : KeepsFeeds text) (suffix : rest <:+ text) :
    KeepsFeeds rest :=
  ⟨fun mem => h.raw (suffix.subset mem), fun infix_ => h.taken (infix_.trans suffix.isInfix)⟩

theorem KeepsFeeds.tail {c : Char} {text : List Char} (h : KeepsFeeds (c :: text)) :
    KeepsFeeds text := h.of_suffix (List.suffix_cons c text)

/-! ## Words -/

/-- The same part is taken, and what is left has carriage returns. -/
def Split.returned (s : Split) : Split := ⟨s.taken, withReturns s.rest⟩

/-- Neither a line feed nor a carriage return passes. -/
def StopsAtBreaks (p : Char → Bool) : Prop := p '\n' = false ∧ p '\r' = false

theorem Split.whileTrue_withReturns {p : Char → Bool} (h : StopsAtBreaks p) (text : List Char) :
    Split.whileTrue p (withReturns text) = (Split.whileTrue p text).returned := by
  induction text with
  | nil => rfl
  | cons c text ih =>
    by_cases feed : c = '\n'
    · subst feed
      simp [Split.whileTrue, Split.returned, h.1, h.2]
    · rw [withReturns_cons feed]
      cases pass : p c with
      | false => simp [Split.whileTrue, Split.returned, pass, withReturns_cons feed]
      | true =>
        simp only [Split.whileTrue, Split.returned, Split.mk.injEq] at ih ⊢
        simp [pass, ih]

section Numbers

variable {digit : Char → Bool} {marks : List Char}

theorem readDigits_withReturns (h : StopsAtBreaks digit) (text : List Char) :
    readDigits digit (withReturns text) = (readDigits digit text).returned :=
  Split.whileTrue_withReturns ⟨by simp [h.1], by simp [h.2]⟩ text

theorem readFraction_withReturns (h : StopsAtBreaks digit) (text : List Char) :
    readFraction digit (withReturns text) = (readFraction digit text).returned := by
  cases text with
  | nil => rfl
  | cons c text =>
    by_cases feed : c = '\n'
    · subst feed
      rfl
    rw [withReturns_cons feed]
    by_cases point : c = '.'
    · subst point
      simp only [readFraction, readDigits_withReturns h]
      rfl
    · simp [readFraction, point, Split.returned, withReturns_cons feed]

theorem readSign_withReturns (text : List Char) :
    readSign (withReturns text) = (readSign text).returned := by
  cases text with
  | nil => rfl
  | cons c text =>
    by_cases feed : c = '\n'
    · subst feed
      rfl
    rw [withReturns_cons feed]
    by_cases plus : c = '+'
    · subst plus
      rfl
    by_cases minus : c = '-'
    · subst minus
      rfl
    simp [readSign, plus, minus, Split.returned, withReturns_cons feed]

theorem readExponent_withReturns (h : '\n' ∉ marks) (h' : '\r' ∉ marks) (text : List Char) :
    readExponent marks (withReturns text) = (readExponent marks text).returned := by
  cases text with
  | nil => rfl
  | cons c text =>
    by_cases feed : c = '\n'
    · subst feed
      simp [readExponent, h, h', Split.returned]
    rw [withReturns_cons feed]
    have stops : StopsAtBreaks Char.isDigit := ⟨by decide, by decide⟩
    by_cases mark : c ∈ marks
    · simp only [readExponent, mark, if_true, readSign_withReturns, Split.andThen, Split.returned,
        readDigits_withReturns stops, Split.after]
    · simp [readExponent, mark, Split.returned, withReturns_cons feed]

theorem readMantissa_withReturns (hd : StopsAtBreaks digit) (h : '\n' ∉ marks) (h' : '\r' ∉ marks)
    (text : List Char) :
    readMantissa digit marks (withReturns text)
      = ((readMantissa digit marks text).1, (readMantissa digit marks text).2.returned) := by
  simp only [readMantissa, readDigits_withReturns hd, Split.returned, readFraction_withReturns hd,
    readExponent_withReturns h h']

theorem startsNumber_withReturns (c : Char) (text : List Char) :
    startsNumber (c :: withReturns text) = startsNumber (c :: text) := by
  cases text with
  | nil => rfl
  | cons d text =>
    by_cases feed : d = '\n'
    · subst feed
      by_cases point : c = '.'
      · subst point
        rfl
      · simp [startsNumber, point]
    · rw [withReturns_cons feed]
      by_cases point : c = '.' <;> simp [startsNumber, point]

/-- A number without a mark for its base. -/
theorem readReal_of_unmarked {text : List Char}
    (h : ∀ c rest, text = '0' :: c :: rest → c ∉ ['x', 'X', 'b', 'B', 'o', 'O']) :
    readReal text = readMantissa Char.isDigit ['e', 'E'] text := by
  unfold readReal
  split
  · rename_i c rest
    have := h c rest rfl
    simp_all
  · rfl

theorem readReal_withReturns (text : List Char) :
    readReal (withReturns text) = ((readReal text).1, (readReal text).2.returned) := by
  have decimal : StopsAtBreaks Char.isDigit := ⟨by decide, by decide⟩
  have plain : readMantissa Char.isDigit ['e', 'E'] (withReturns text) = _ :=
    readMantissa_withReturns decimal (by decide) (by decide) text
  by_cases marked : ∃ c rest, text = '0' :: c :: rest ∧ c ≠ '\n'
  · obtain ⟨c, rest, rfl, feed⟩ := marked
    rw [withReturns_cons (by decide), withReturns_cons feed] at plain ⊢
    have hexadecimal : StopsAtBreaks (isDigitIn 16) := ⟨by decide, by decide⟩
    simp only [readReal]
    split
    · rw [readMantissa_withReturns hexadecimal (by decide) (by decide)]
      rfl
    split
    · rw [readDigits_withReturns decimal]
      rfl
    · exact plain
  · have unmarked : ∀ c rest, text = '0' :: c :: rest → c = '\n' := fun c rest eq =>
      by_contra fun feed => marked ⟨c, rest, eq, feed⟩
    rw [readReal_of_unmarked fun c rest eq => ?_, readReal_of_unmarked fun c rest eq => ?_, plain]
    · rw [unmarked c rest eq]
      decide
    · cases text with
      | nil => cases eq
      | cons d text =>
        by_cases feed : d = '\n'
        · subst feed
          cases eq
        · rw [withReturns_cons feed] at eq
          obtain ⟨rfl, eq⟩ := List.cons.inj eq
          cases text with
          | nil => cases eq
          | cons d text =>
            obtain rfl := unmarked d text rfl
            cases eq
            decide

theorem readNumber_withReturns (text : List Char) :
    readNumber (withReturns text) = ((readNumber text).1, (readNumber text).2.returned) := by
  simp only [readNumber, readReal_withReturns]
  obtain ⟨isFloat, taken, rest⟩ := readReal text
  cases rest with
  | nil => rfl
  | cons c rest =>
    by_cases feed : c = '\n'
    · subst feed
      rfl
    by_cases imaginary : c = 'i'
    · subst imaginary
      rfl
    · simp [Split.returned, withReturns_cons feed, imaginary]

end Numbers

section Quotes

variable {text : List Char}

theorem readStringBody_withReturns (h : ¬ ['\\', '\n'] <:+: text) :
    readStringBody (withReturns text) = (readStringBody text).map Split.returned := by
  fun_induction readStringBody text with
  | case1 => rfl
  | case2 text => rfl
  | case3 text => rfl
  | case4 c text ih =>
    have feed : c ≠ '\n' := by
      rintro rfl
      exact h ⟨[], text, rfl⟩
    rw [withReturns_cons (by decide), withReturns_cons feed, readStringBody,
      ih fun later => h (later.trans ⟨['\\', c], [], by simp⟩), Option.map_map, Option.map_map]
    rfl
  | case5 c text feed quote taken ih =>
    have later := ih fun later => h (later.trans (List.suffix_cons c text).isInfix)
    rw [withReturns_cons feed, readStringBody, later, Option.map_map, Option.map_map]
    · rfl
    · exact feed
    · exact quote
    · -- a backslash at the end of the text takes nothing
      rintro d more rfl eq
      cases text with
      | nil => cases eq
      | cons d text => exact taken d text rfl rfl

/-- The first characters of a text, if there is no line feed among them. -/
theorem take_withReturns {n : Nat} (h : '\n' ∉ text.take n) :
    (withReturns text).take n = text.take n ∧
      (withReturns text).drop n = withReturns (text.drop n) := by
  induction n generalizing text with
  | zero => exact ⟨rfl, rfl⟩
  | succ n ih =>
    cases text with
    | nil => exact ⟨rfl, rfl⟩
    | cons c text =>
      rw [List.take_succ_cons, List.mem_cons, not_or] at h
      rw [withReturns_cons (Ne.symm h.1)]
      simpa using ih h.2

/-- With a line feed among the first characters, there is a carriage return among them. -/
theorem mem_take_withReturns {n : Nat} (h : '\n' ∈ text.take n) :
    '\r' ∈ (withReturns text).take n := by
  induction n generalizing text with
  | zero => cases h
  | succ n ih =>
    cases text with
    | nil => cases h
    | cons c text =>
      by_cases feed : c = '\n'
      · subst feed
        exact List.mem_cons_self
      · rw [withReturns_cons feed]
        have later : '\n' ∈ text.take n := by simpa [Ne.symm feed] using h
        exact List.mem_cons_of_mem _ (ih later)

/-- What has a character that is no digit stands for no number. -/
theorem positional?_eq_none {base : Nat} {c : Char} {digits : List Char} (h : c ∈ digits)
    (bad : digitIn? base c = none) : positional? base digits = none := by
  unfold positional?
  generalize 0 = n
  induction digits generalizing n with
  | nil => cases h
  | cons d digits ih =>
    rw [List.foldlM_cons]
    obtain rfl | later := List.mem_cons.mp h
    · rw [bad]
      rfl
    · cases digitIn? base d with
      | none => rfl
      | some value => exact ih later _

theorem readEscape_of_badDigit {c d : Char} {base count : Nat} {front : List Char}
    (simple : simpleEscape? c = none) (number : numberEscape? c = some (base, front, count))
    (hd : d ∈ text.take count) (bad : digitIn? base d = none) :
    readEscape (c :: text) = .error .badEscapeDigit := by
  have none : positional? base (front ++ text.take count) = none :=
    positional?_eq_none (List.mem_append_right _ hd) bad
  simp only [readEscape, simple, number, none, ite_self]

theorem readEscape_withReturns (c : Char) (text : List Char) :
    readEscape (c :: withReturns text)
      = (readEscape (c :: text)).map fun (code, s) => (code, s.returned) := by
  cases simple : simpleEscape? c with
  | some code =>
    simp only [readEscape, simple]
    rfl
  | none =>
    cases number : numberEscape? c with
    | none =>
      simp only [readEscape, simple, number]
      rfl
    | some escape =>
      obtain ⟨base, front, count⟩ := escape
      by_cases feed : '\n' ∈ text.take count
      · rw [readEscape_of_badDigit simple number feed rfl,
          readEscape_of_badDigit simple number (mem_take_withReturns feed) rfl]
        rfl
      · obtain ⟨taken, left⟩ := take_withReturns feed
        simp only [readEscape, simple, number, taken, left]
        split
        · rfl
        split
        · rfl
        split <;> rfl

/-- The character between quotes, if it is no line feed. -/
theorem readRuneBody_withReturns (h : ¬ ['\\', '\n'] <:+: text) (feed : text.head? ≠ some '\n') :
    readRuneBody (withReturns text)
      = (readRuneBody text).map fun (code, s) => (code, s.returned) := by
  cases text with
  | nil => rfl
  | cons c text =>
    have hc : c ≠ '\n' := by simpa using feed
    rw [withReturns_cons hc]
    by_cases quote : c = '\''
    · subst quote
      rfl
    by_cases backslash : c = '\\'
    · subst backslash
      cases text with
      | nil => rfl
      | cons d text =>
        have hd : d ≠ '\n' := by
          rintro rfl
          exact h ⟨[], text, rfl⟩
        simp only [withReturns_cons hd, readRuneBody, readEscape_withReturns]
        cases readEscape (d :: text) <;> rfl
    · rw [readRuneBody, readRuneBody] <;> first | rfl | assumption

end Quotes

theorem afterStart?_withReturns {start : List Char} (h : '\n' ∉ start) (h' : '\r' ∉ start)
    (text : List Char) :
    afterStart? start (withReturns text) = (afterStart? start text).map withReturns := by
  induction start generalizing text with
  | nil => rfl
  | cons a start ih =>
    rw [List.mem_cons, not_or] at h h'
    cases text with
    | nil => rfl
    | cons c text =>
      by_cases feed : c = '\n'
      · subst feed
        simp [afterStart?, Ne.symm h.1, Ne.symm h'.1]
      · rw [withReturns_cons feed, afterStart?, afterStart?, ih h.2 h'.2]
        split <;> rfl

theorem readSymbol?_withReturns (text : List Char) :
    readSymbol? (withReturns text)
      = (readSymbol? text).map fun (symbol, s) => (symbol, s.returned) := by
  have visible : ∀ p ∈ Symbol.spellings, '\n' ∉ p.1 ∧ '\r' ∉ p.1 := by decide
  unfold readSymbol?
  rw [List.map_findSome?, ← List.head?_filterMap, ← List.head?_filterMap]
  refine congrArg List.head? (List.filterMap_congr fun p hp => ?_)
  simp only [afterStart?_withReturns (visible p hp).1 (visible p hp).2, Function.comp_apply,
    Option.map_map]
  rfl

/-- The same word, before the rest with carriage returns. -/
def Lexeme.returned (l : Lexeme) : Lexeme := { l with rest := withReturns l.rest }

/-- **One word** is the same, or it is refused for the same reason. -/
theorem Lexeme.read_withReturns {c : Char} {text : List Char} (h : KeepsFeeds (c :: text))
    (feed : c ≠ '\n') :
    Lexeme.read c (withReturns text) = (Lexeme.read c text).map Lexeme.returned := by
  have part : StopsAtBreaks isNamePart := ⟨by decide +kernel, by decide +kernel⟩
  unfold Lexeme.read
  rw [← withReturns_cons feed, Split.whileTrue_withReturns part, withReturns_cons feed,
    startsNumber_withReturns]
  split
  · rfl
  split
  · rw [← withReturns_cons feed, readNumber_withReturns]
    rfl
  split
  · rw [readStringBody_withReturns h.tail.taken]
    cases readStringBody text <;> rfl
  split
  · rename_i raw
    subst raw
    exact absurd List.mem_cons_self h.raw
  split
  · by_cases hd : text.head? = some '\n'
    · -- neither the line feed nor the carriage return is a character between quotes
      obtain ⟨more, rfl⟩ := List.head?_eq_some_iff.mp hd
      rfl
    · rw [readRuneBody_withReturns h.tail.taken hd]
      obtain problem | ⟨code, taken, rest⟩ := readRuneBody text
      · rfl
      simp only [Except.map, Split.returned, bind, Except.bind]
      cases rest with
      | nil => rfl
      | cons d rest =>
        by_cases feed' : d = '\n'
        · subst feed'
          rfl
        rw [withReturns_cons feed']
        by_cases quote : d = '\''
        · subst quote
          rfl
        · simp [quote]
  split
  · rfl
  · rw [← withReturns_cons feed, readSymbol?_withReturns]
    cases readSymbol? (c :: text) <;> rfl

/-! ## Gaps -/

/-- What follows the gap at the front of a text, if all of its comments end. -/
def gapRest? (text : List Char) : Option (List Char) := (readGap text).toOption.map Prod.snd

theorem gapRest?_word {text : List Char} (h : readFront text = .word) :
    gapRest? text = some text := by
  unfold gapRest? readGap
  split <;> simp_all [Except.toOption]

theorem gapRest?_unclosed {text : List Char} (h : readFront text = .unclosedComment) :
    gapRest? text = none := by
  unfold gapRest? readGap
  split <;> simp_all [Except.toOption]

theorem gapRest?_blank {text blank rest : List Char} (h : readFront text = .blank blank rest) :
    gapRest? text = gapRest? rest := by
  rw [gapRest?, readGap_blank h, gapRest?]
  cases readGap rest <;> rfl

theorem readCommentBody_withReturns (text : List Char) :
    readCommentBody (withReturns text)
      = (readCommentBody text).map fun (taken, rest) => (withReturns taken, withReturns rest) := by
  fun_induction readCommentBody text with
  | case1 => rfl
  | case2 text => rfl
  | case3 c text closes ih =>
    by_cases feed : c = '\n'
    · subst feed
      rw [withReturns_feed, readCommentBody, readCommentBody, ih]
      · cases readCommentBody text <;> rfl
      · simp
      · simp
    · rw [withReturns_cons feed, readCommentBody, ih]
      · cases readCommentBody text with
        | none => rfl
        | some read => simp [withReturns_cons feed]
      · rintro more star eq
        have first : '/' ∈ (withReturns text).head? := by simp [eq]
        obtain bad | slash := mem_head?_withReturns first
        · cases bad
        obtain ⟨more, rfl⟩ := List.head?_eq_some_iff.mp slash
        exact closes more star rfl

/-- A comment to the end of a line ends after the carriage return. -/
theorem dropWhile_withReturns (text : List Char) :
    (withReturns text).dropWhile (· != '\n') =
      match text.dropWhile (· != '\n') with
      | [] => []
      | _ :: rest => '\n' :: withReturns rest := by
  induction text with
  | nil => rfl
  | cons c text ih =>
    by_cases feed : c = '\n'
    · subst feed
      rfl
    · rw [withReturns_cons feed]
      simpa [feed] using ih

theorem readFront_of_isBlank {c : Char} (h : isBlank c = true) (text : List Char) :
    readFront (c :: text) = .blank [c] text := by
  have slash : c ≠ '/' := by
    rintro rfl
    cases h
  rw [readFront, if_pos h]
  · exact fun _ eq => absurd eq slash
  · exact fun _ eq => absurd eq slash

/-- **The gap at the front of a text** ends at the same word. -/
theorem gapRest?_withReturns (text : List Char) :
    gapRest? (withReturns text) = (gapRest? text).map withReturns := by
  -- by induction on the length of the text, one blank after the other
  induction hn : text.length using Nat.strongRecOn generalizing text with
  | _ n ih =>
    have further : ∀ rest : List Char, rest.length < text.length →
        gapRest? (withReturns rest) = (gapRest? rest).map withReturns :=
      fun rest shorter => ih rest.length (hn ▸ shorter) rest rfl
    have feeds : ∀ rest, gapRest? ('\n' :: rest) = gapRest? rest := fun rest =>
      gapRest?_blank (readFront_of_isBlank (c := '\n') rfl rest)
    fun_cases readFront text with
    | case1 text =>
      have line : ∀ text, gapRest? ('/' :: '/' :: text) = gapRest? (text.dropWhile (· != '\n')) :=
        fun text => gapRest?_blank rfl
      rw [withReturns_cons (by decide), withReturns_cons (by decide), line, line,
        dropWhile_withReturns]
      cases left : text.dropWhile (· != '\n') with
      | nil => exact further [] (by simp)
      | cons d rest =>
        obtain rfl : d = '\n' := by
          have := List.head?_dropWhile_not (· != '\n') text
          simpa [left] using this
        have shorter := (List.dropWhile_suffix (l := text) (· != '\n')).length_le
        rw [left, List.length_cons] at shorter
        dsimp only
        rw [feeds, feeds]
        exact further rest (by simp only [List.length_cons]; omega)
    | case2 text unclosed =>
      rw [withReturns_cons (by decide), withReturns_cons (by decide), gapRest?_unclosed,
        gapRest?_unclosed]
      · rfl
      · simp only [readFront, unclosed]
      · simp only [readFront, readCommentBody_withReturns, unclosed, Option.map_none]
    | case3 text body rest closed =>
      have comment : readFront ('/' :: '*' :: text) = .blank ('/' :: '*' :: body) rest := by
        simp only [readFront, closed]
      have comment' : readFront ('/' :: '*' :: withReturns text) =
          .blank ('/' :: '*' :: withReturns body) (withReturns rest) := by
        simp only [readFront, readCommentBody_withReturns, closed, Option.map_some]
      have shorter := congrArg List.length (readCommentBody_split closed)
      rw [List.length_append] at shorter
      rw [withReturns_cons (by decide), withReturns_cons (by decide), gapRest?_blank comment,
        gapRest?_blank comment']
      exact further rest (by simp only [List.length_cons]; omega)
    | case4 c text line bracket blank =>
      have step : ∀ text, gapRest? (c :: text) = gapRest? text :=
        fun text => gapRest?_blank (readFront_of_isBlank blank text)
      by_cases feed : c = '\n'
      · subst feed
        have return_ := gapRest?_blank (readFront_of_isBlank (c := '\r') (by decide)
          ('\n' :: withReturns text))
        rw [withReturns_feed, return_, feeds, feeds]
        exact further text (by simp)
      · rw [withReturns_cons feed, step, step]
        exact further text (by simp)
    | case5 c text line bracket visible =>
      rw [Bool.not_eq_true] at visible
      have feed : c ≠ '\n' := by
        rintro rfl
        cases visible
      have comment : c = '/' → ∀ d ∈ text.head?, d ≠ '/' ∧ d ≠ '*' := by
        rintro slash d hd
        obtain ⟨more, rfl⟩ := List.head?_eq_some_iff.mp hd
        exact ⟨fun e => line more slash (by rw [e]), fun e => bracket more slash (by rw [e])⟩
      have comment' : c = '/' → ∀ d ∈ (withReturns text).head?, d ≠ '/' ∧ d ≠ '*' := by
        rintro slash d hd
        obtain rfl | hd := mem_head?_withReturns hd
        · decide
        · exact comment slash d hd
      rw [withReturns_cons feed, gapRest?_word (readFront_word visible comment'),
        gapRest?_word (readFront_word visible comment), Option.map_some, withReturns_cons feed]
    | case6 =>
      rw [withReturns_nil, gapRest?_word rfl]
      rfl

/-! ## Tokens -/

/-- The tokens are the same, but that an implied statement end before a line break may stand in
another column. -/
inductive SameTokens : List Token → List Token → Prop
  | nil : SameTokens [] []
  | same {ts ts' : List Token} (t : Token) (more : SameTokens ts ts') :
      SameTokens (t :: ts) (t :: ts')
  | lineEnd {line column column' : Nat} {t t' : Token} {ts ts' : List Token}
      (later : line < t.pos.line) (more : SameTokens (t :: ts) (t' :: ts')) :
      SameTokens (⟨.semicolon, ⟨line, column⟩, []⟩ :: t :: ts)
        (⟨.semicolon, ⟨line, column'⟩, []⟩ :: t' :: ts')

theorem Pos.line_advance (pos : Pos) (text : List Char) :
    (pos.advance text).line = pos.line + text.count '\n' := by
  induction text generalizing pos with
  | nil => rfl
  | cons c text ih =>
    rw [Pos.advance, List.foldl_cons, ← Pos.advance, ih]
    by_cases feed : c = '\n'
    · subst feed
      simp [step]
      omega
    · simp [step, feed]

/-- A line break is on the line that the blanks start on. -/
theorem line_lineBreak {pos place : Pos} {blanks : List (List Char)}
    (h : lineBreak? pos blanks = some place) : place.line = pos.line := by
  induction blanks generalizing pos with
  | nil => cases h
  | cons blank blanks ih =>
    rw [lineBreak?] at h
    split at h
    · cases h
      rfl
    · rename_i same
      have none : blank.count '\n' = 0 := List.count_eq_zero.mpr (by simpa [breaksLine] using same)
      rw [ih h, Pos.line_advance, none, Nat.add_zero]

namespace Scanner

/-- The same place, with carriage returns in what follows. -/
def returned (s : Scanner) : Scanner := { s with rest := withReturns s.rest }

/-- What a scanner gives, and what it gives with carriage returns: a word, or the statement end before a
line break. -/
inductive SameNext (s : Scanner) : Prop
  | error {e e' : LexicalError} (next : s.next = .error e) (next' : s.returned.next = .error e')
  | same {t : Token} {after : Scanner} (next : s.next = .ok (t, after))
      (next' : s.returned.next = .ok (t, after.returned))
  | lineEnd {line column column' : Nat} {after : Scanner}
      (next : s.next = .ok (⟨.semicolon, ⟨line, column⟩, []⟩, after))
      (next' : s.returned.next = .ok (⟨.semicolon, ⟨line, column'⟩, []⟩, after.returned))
      (later : line < after.pos.line)

/-- The gap before the next word takes the same place. -/
theorem readGap_withReturns {s : Scanner} {blanks : List (List Char)} {rest : List Char}
    (h : readGap s.rest = .ok (blanks, rest)) : ∃ blanks',
      readGap s.returned.rest = .ok (blanks', withReturns rest) ∧
        blanks'.flatten = withReturns blanks.flatten := by
  have gap := gapRest?_withReturns s.rest
  rw [gapRest?, gapRest?, h] at gap
  cases h' : readGap (withReturns s.rest) with
  | error before => simp [h', Except.toOption] at gap
  | ok read =>
    obtain ⟨blanks', rest'⟩ := read
    obtain rfl : rest' = withReturns rest := by simpa [h', Except.toOption] using gap
    refine ⟨blanks', h', ?_⟩
    have split := readGap_split h'
    rw [← readGap_split h, withReturns_append] at split
    exact List.append_cancel_right split

theorem word_withReturns {pos : Pos} {rest : List Char} (h : KeepsFeeds rest)
    (feed : rest.head? ≠ some '\n') :
    word pos (withReturns rest) = (word pos rest).map fun (t, after) => (t, after.returned) := by
  cases rest with
  | nil => rfl
  | cons c text =>
    have hc : c ≠ '\n' := by simpa using feed
    rw [withReturns_cons hc, word, word, Lexeme.read_withReturns h hc]
    cases Lexeme.read c text <;> rfl

/-- A statement end before a line break is on the line on which the gap starts. -/
theorem impliedEnd?_of_feed {s : Scanner} {blanks : List (List Char)} (pending : s.pending = true)
    (feed : '\n' ∈ blanks.flatten) (rest : List Char) :
    ∃ column, s.impliedEnd? blanks rest = some ⟨s.pos.line, column⟩ := by
  cases found : lineBreak? s.pos blanks with
  | none => exact absurd feed (lineBreak?_eq_none_iff.mp found)
  | some place =>
    refine ⟨place.column, ?_⟩
    rw [← line_lineBreak found]
    simp only [impliedEnd?, pending, found, if_true]

/-- Without a line feed in the gap, a statement end is implied as it was. -/
theorem impliedEnd?_of_noFeed {s : Scanner} {blanks blanks' : List (List Char)} {rest : List Char}
    (h : ¬ (s.pending = true ∧ '\n' ∈ blanks.flatten))
    (flat : blanks'.flatten = withReturns blanks.flatten) :
    s.returned.impliedEnd? blanks' (withReturns rest) = s.impliedEnd? blanks rest := by
  cases pending : s.pending with
  | false => simp only [impliedEnd?, returned, pending, Bool.false_eq_true, if_false]
  | true =>
    have none : '\n' ∉ blanks.flatten := fun feed => h ⟨pending, feed⟩
    have same : blanks'.flatten = blanks.flatten := by rw [flat, withReturns_of_notMem none]
    have none' : '\n' ∉ blanks'.flatten := by rwa [same]
    have empty : (withReturns rest).isEmpty = rest.isEmpty := by
      cases rest with
      | nil => rfl
      | cons c rest => by_cases feed : c = '\n' <;> simp [withReturns, feed]
    simp only [impliedEnd?, returned, pending, if_true, lineBreak?_eq_none_iff.mpr none,
      lineBreak?_eq_none_iff.mpr none', same, empty]

/-- **One token** stays, but for the column of a statement end before a line break. -/
theorem sameNext {s : Scanner} (h : KeepsFeeds s.rest) : s.SameNext := by
  cases gap : readGap s.rest with
  | error before =>
    have none : gapRest? s.returned.rest = none := by
      rw [returned, gapRest?_withReturns, gapRest?, gap]
      rfl
    cases gap' : readGap s.returned.rest with
    | ok read => simp [gapRest?, gap', Except.toOption] at none
    | error before' => exact .error (by simp only [next, gap]; rfl) (by simp only [next, gap']; rfl)
  | ok read =>
    obtain ⟨blanks, rest⟩ := read
    obtain ⟨blanks', gap', flat⟩ := readGap_withReturns gap
    have place : s.returned.pos.advance blanks'.flatten = s.pos.advance blanks.flatten := by
      rw [flat]
      exact Pos.advance_withReturns ..
    have first := next_of_gap gap
    have second := next_of_gap gap'
    rw [place] at second
    by_cases due : s.pending = true ∧ '\n' ∈ blanks.flatten
    · obtain ⟨column, implied⟩ := impliedEnd?_of_feed due.1 due.2 rest
      have feed' : '\n' ∈ blanks'.flatten := by
        rw [flat]
        exact mem_withReturns_iff.mpr due.2
      obtain ⟨column', implied'⟩ := impliedEnd?_of_feed (s := s.returned) due.1 feed' (withReturns rest)
      rw [implied] at first
      rw [implied'] at second
      refine .lineEnd first second ?_
      dsimp only
      rw [Pos.line_advance]
      exact Nat.lt_add_of_pos_right (List.count_pos_iff.mpr due.2)
    · rw [impliedEnd?_of_noFeed due flat] at second
      cases implied : s.impliedEnd? blanks rest with
      | some end_ =>
        rw [implied] at first second
        exact .same first second
      | none =>
        have suffix : rest <:+ s.rest := ⟨blanks.flatten, readGap_split gap⟩
        have feed : rest.head? ≠ some '\n' := by
          intro hd
          obtain ⟨more, rfl⟩ := List.head?_eq_some_iff.mp hd
          have blank := readGap_rest gap
          rw [readGap_blank (readFront_of_isBlank (c := '\n') (by decide) more)] at blank
          cases more_gap : readGap more <;> simp [more_gap] at blank
        simp only [implied, word_withReturns (h.of_suffix suffix) feed] at first second
        cases read : word (s.pos.advance blanks.flatten) rest with
        | error e =>
          rw [read] at first second
          exact .error first second
        | ok read' =>
          rw [read] at first second
          exact .same first second

/-- What a scanner has before it after a token, and where the token stands. -/
theorem next_suffix {s after : Scanner} {t : Token} (h : s.next = .ok (t, after)) :
    after.rest <:+ s.rest ∧ s.pos.line ≤ t.pos.line := by
  cases gap : readGap s.rest with
  | error before => simp [next, gap] at h
  | ok read =>
    obtain ⟨blanks, rest⟩ := read
    have suffix : rest <:+ s.rest := ⟨blanks.flatten, readGap_split gap⟩
    have forward : s.pos.line ≤ (s.pos.advance blanks.flatten).line := by
      rw [Pos.line_advance]
      exact Nat.le_add_right ..
    rw [next_of_gap gap] at h
    split at h
    · rename_i place due
      cases h
      refine ⟨suffix, ?_⟩
      unfold impliedEnd? at due
      split at due
      · split at due
        · rename_i found
          cases due
          exact (line_lineBreak found).ge
        · split at due <;> cases due
          exact forward
      · cases due
    · unfold word at h
      split at h
      · cases h
        exact ⟨suffix, forward⟩
      · split at h
        · cases h
        · rename_i l read
          cases h
          exact ⟨List.IsSuffix.trans ⟨l.text, Lexeme.read_split read⟩ suffix, forward⟩

/-- **All tokens** stay, but for the columns of the statement ends before line breaks, or the text is
refused with and without carriage returns. -/
theorem tokens_withReturns {s : Scanner} (h : KeepsFeeds s.rest) :
    (∃ e e', s.tokens = .error e ∧ s.returned.tokens = .error e') ∨
      ∃ ts ts', s.tokens = .ok ts ∧ s.returned.tokens = .ok ts' ∧ SameTokens ts ts' := by
  -- by induction on what is left to read
  induction load : s.load using Nat.strongRecOn generalizing s with
  | _ n ih =>
    have further : ∀ {t after}, s.next = .ok (t, after) → t.kind ≠ .endOfText →
        (∃ e e', after.tokens = .error e ∧ after.returned.tokens = .error e') ∨
          ∃ ts ts', after.tokens = .ok ts ∧ after.returned.tokens = .ok ts' ∧ SameTokens ts ts' :=
      fun next inner => ih _ (load ▸ next_load_lt next inner) (h.of_suffix (next_suffix next).1) rfl
    rw [tokens_eq s, tokens_eq s.returned]
    cases sameNext h with
    | error next next' => exact .inl ⟨_, _, by simp only [next]; rfl, by simp only [next']; rfl⟩
    | @same t after next next' =>
      rw [next, next']
      dsimp only
      by_cases last : t.kind = .endOfText
      · rw [if_pos last, if_pos last]
        exact .inr ⟨_, _, rfl, rfl, .same t .nil⟩
      · rw [if_neg last, if_neg last]
        obtain ⟨e, e', more, more'⟩ | ⟨ts, ts', more, more', same⟩ := further next last
        · exact .inl ⟨e, e', by simp only [more], by simp only [more']⟩
        · exact .inr ⟨t :: ts, t :: ts', by simp only [more], by simp only [more'], .same t same⟩
    | @lineEnd line column column' after next next' later =>
      rw [next, next']
      dsimp only
      rw [if_neg (by simp), if_neg (by simp)]
      obtain ⟨e, e', more, more'⟩ | ⟨ts, ts', more, more', same⟩ := further next (by simp)
      · exact .inl ⟨e, e', by simp only [more], by simp only [more']⟩
      · refine .inr ⟨_, _, by simp only [more]; rfl, by simp only [more']; rfl, ?_⟩
        obtain ⟨t, after', next_after, heads⟩ := tokens_inv more
        have later' := Nat.lt_of_lt_of_le later (next_suffix next_after).2
        obtain ⟨ts, rfl⟩ : ∃ ts₀, ts = t :: ts₀ := by
          obtain ⟨-, eq⟩ | ⟨-, ts, -, eq⟩ := heads <;> exact ⟨_, eq⟩
        cases same with
        | same _ same => exact .lineEnd later' (.same _ same)
        | lineEnd later_still same => exact .lineEnd later' (.lineEnd later_still same)

end Scanner

theorem Scanner.ofText_withReturns (text : List Char) :
    Scanner.ofText (withReturns text) = (Scanner.ofText text).returned := by
  cases text with
  | nil => rfl
  | cons c text =>
    by_cases feed : c = '\n'
    · subst feed
      rfl
    · rw [withReturns_cons feed]
      by_cases mark : c = Scanner.byteOrderMark
      · simp [Scanner.ofText, Scanner.returned, mark]
      · simp [Scanner.ofText, Scanner.returned, mark, withReturns_cons feed]

/-- The source text with a carriage return before each line feed. -/
def returnedSource (source : String) : String := String.ofList (withReturns source.toList)

/-- **The words of a text** stay, and so do their places. -/
theorem scan_returnedSource {source : String} (h : KeepsFeeds source.toList) :
    (∃ e e', scan source = .error e ∧ scan (returnedSource source) = .error e') ∨
      ∃ ts ts', scan source = .ok ts ∧ scan (returnedSource source) = .ok ts' ∧ SameTokens ts ts' := by
  obtain ⟨mark, -, split⟩ := Scanner.ofText_split source.toList
  have suffix : (Scanner.ofText source.toList).rest <:+ source.toList := ⟨mark, split.symm⟩
  rw [scan, scan, returnedSource, String.toList_ofList, Scanner.ofText_withReturns]
  exact Scanner.tokens_withReturns (h.of_suffix suffix)

end EnumCodec
