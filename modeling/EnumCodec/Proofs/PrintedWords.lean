import EnumCodec.Proofs.Spelling
import EnumCodec.Token.Gap

/-!
# Words that are printed one after the other

A `Chunk` is a word or a run of blanks; `Chunk.fits` says which chunk may follow which, and depends in
no way on the names among them, so that it can be evaluated for a template.

* `isBlank_of_isNamePart` — no white space goes on a name.
* `Lexeme.readsAs_chunk` — a word is read off the front of what follows it, if the two do not run
  together.
* `Chunk.before_of_fits`, `Chunk.before_lineEnd` — a chunk that fits, and the end of a line, do not
  run together with what stands before them.
-/

set_option autoImplicit false

namespace EnumCodec

open Text

/-! ## Classes of characters -/

/-- No code point lies in a range of both lists. -/
def rangesApart (first second : List CodeRange) : Bool :=
  first.all fun a => second.all fun b => a.2 < b.1 || b.2 < a.1

theorem inRanges_of_apart {first second : List CodeRange} (h : rangesApart first second = true)
    {c : Char} (hc : inRanges first c = true) : inRanges second c = false := by
  obtain ⟨a, ha, low, high⟩ := inRanges_iff.mp hc
  rw [Bool.eq_false_iff]
  intro hs
  obtain ⟨b, hb, low', high'⟩ := inRanges_iff.mp hs
  have := List.all_eq_true.mp (List.all_eq_true.mp h a ha) b hb
  simp only [Bool.or_eq_true, decide_eq_true_eq] at this
  omega

theorem isDigit_iff {c : Char} : c.isDigit = true ↔ 0x30 ≤ c.toNat ∧ c.toNat ≤ 0x39 := by
  simp only [Char.isDigit, Bool.and_eq_true, decide_eq_true_eq, ge_iff_le, UInt32.le_iff_toNat_le]
  rfl

theorem isAlpha_iff {c : Char} :
    c.isAlpha = true ↔ 0x41 ≤ c.toNat ∧ c.toNat ≤ 0x5a ∨ 0x61 ≤ c.toNat ∧ c.toNat ≤ 0x7a := by
  have letter : c.isAlpha = (c.isUpper || c.isLower) := rfl
  have upper : c.isUpper = decide (0x41 ≤ c.val ∧ c.val ≤ 0x5a) := rfl
  have lower : c.isLower = (decide (0x61 ≤ c.val) && decide (c.val ≤ 0x7a)) := rfl
  simp only [letter, upper, lower, Bool.or_eq_true, Bool.and_eq_true, decide_eq_true_eq,
    UInt32.le_iff_toNat_le]
  rfl

/-- No white space goes on a name. -/
theorem isBlank_of_isNamePart {c : Char} (h : isNamePart c = true) : isBlank c = false := by
  have ascii : 0x30 ≤ c.toNat → c.toNat ≤ 0x7a → isBlank c = false := fun low high =>
    @inRanges_of_apart [(0x30, 0x7a)] _ (by decide) c (inRanges_iff.mpr ⟨(0x30, 0x7a), by simp, low, high⟩)
  simp only [isNamePart, isNameStart, isAlphabetic, isNumeric, Bool.or_eq_true, beq_iff_eq] at h
  rcases h with (rfl | h) | h
  · decide
  · split at h
    · have := isAlpha_iff.mp h
      exact ascii (by omega) (by omega)
    · exact inRanges_of_apart (by decide +kernel) h
  · split at h
    · have := isDigit_iff.mp h
      exact ascii (by omega) (by omega)
    · exact inRanges_of_apart (by decide +kernel) h

theorem isNamePart_of_isNameStart {c : Char} (h : isNameStart c = true) : isNamePart c = true := by
  simp [isNamePart, h]

/-- No digit starts a name. -/
theorem isDigit_of_isNameStart {c : Char} (h : isNameStart c = true) : c.isDigit = false := by
  rw [Bool.eq_false_iff]
  intro digit
  have small := isDigit_iff.mp digit
  simp only [isNameStart, isAlphabetic, Bool.or_eq_true, beq_iff_eq] at h
  rcases h with rfl | h
  · revert small; decide
  · rw [if_pos (by omega)] at h
    have := isAlpha_iff.mp h
    omega

/-! ## Chunks -/

/-- A run of blanks within a line, or a word. -/
inductive Chunk
  | blanks (text : String)
  | name (s : String)
  | keyword (k : Keyword)
  | symbol (s : Symbol)
  | string (body : String)
  | semicolon

namespace Chunk

/-- The characters of a chunk. -/
def text : Chunk → List Char
  | blanks s => s.toList
  | name s => s.toList
  | keyword k => k.text.toList
  | symbol s => s.text.toList
  | string body => '"' :: body.toList ++ ['"']
  | semicolon => [';']

/-- The token of a word. -/
def kind? : Chunk → Option TokenKind
  | blanks _ => none
  | name s => some (.name s)
  | keyword k => some (.keyword k)
  | symbol s => some (.symbol s)
  | string body => some (.string body)
  | semicolon => some .semicolon

/-- The chunk is what it is said to be; a string holds no quote, backslash or line feed. -/
def Sound : Chunk → Prop
  | blanks s => s ≠ "" ∧ ∀ c ∈ s.toList, c = ' ' ∨ c = '\t'
  | name s => IsIdentifier s
  | keyword _ | semicolon => True
  | symbol s => (s.text.toList, s) ∈ Symbol.spellings
  | string body => ∀ c ∈ body.toList, c ≠ '"' ∧ c ≠ '\\' ∧ c ≠ '\n'

/-- The characters that can make a longer word of a symbol, or a comment. -/
def goesOn (c : Char) : Bool :=
  c ∈ ['=', '<', '>', '^', '.', '&', '|', '-', '+', '*', '/'] || c.isDigit

/-- Whether no longer word starts with the symbol, whatever follows. -/
def isClosed (s : Symbol) : Bool :=
  s ∉ [.slash, .dot] &&
    Symbol.spellings.all fun p => !s.text.toList.isPrefixOf p.1 || p.1 == s.text.toList

/-- Whether the chunk is a name or a reserved word. -/
def isNameLike : Chunk → Bool
  | name _ | keyword _ => true
  | _ => false

/-- Whether the second chunk can stand directly after the first. -/
def fits : Chunk → Chunk → Bool
  | symbol s, symbol s' => isClosed s || !(s'.text.toList.head?.any goesOn)
  | c, d => !(c.isNameLike && d.isNameLike)

/-- What can follow a chunk. -/
def Before (c : Chunk) (rest : List Char) : Prop :=
  match c with
  | name _ | keyword _ => ∀ d ∈ rest.head?, isNamePart d = false
  | symbol s => isClosed s = true ∨ ∀ d ∈ rest.head?, goesOn d = false
  | blanks _ | string _ | semicolon => True

end Chunk

/-- The characters that make a longer symbol of a symbol. -/
def Symbol.extensions (s : Symbol) : List Char :=
  Symbol.spellings.filterMap fun p =>
    if s.text.toList.isPrefixOf p.1 then (p.1.drop s.text.toList.length).head? else none

/-! ## One word -/

theorem whileTrue_append {p : Char → Bool} {taken rest : List Char} (h : taken.all p = true)
    (stop : ∀ d ∈ rest.head?, p d = false) : Split.whileTrue p (taken ++ rest) = ⟨taken, rest⟩ := by
  have all : ∀ d ∈ taken, p d = true := List.all_eq_true.mp h
  have none : rest.takeWhile p = [] ∧ rest.dropWhile p = rest := by
    cases rest with
    | nil => exact ⟨rfl, rfl⟩
    | cons d rest => simp [stop d rfl]
  rw [Split.whileTrue, List.takeWhile_append_of_pos all, List.dropWhile_append_of_pos all, none.1,
    none.2, List.append_nil]

namespace Lexeme

/-- The word is read off the front of a text, and neither white space nor a comment stands there. -/
def ReadsAs (word rest : List Char) (kind : TokenKind) : Prop :=
  ∃ c text, word ++ rest = c :: text ∧ readFront (c :: text) = .word ∧
    read c text = .ok ⟨kind, word, rest⟩

theorem readsAs_word {word rest : List Char} (start : word.head?.any isNameStart = true)
    (parts : word.all isNamePart = true) (stop : ∀ d ∈ rest.head?, isNamePart d = false) :
    ReadsAs word rest (wordKind word) := by
  cases word with
  | nil => simp at start
  | cons c word =>
    have start : isNameStart c = true := by simpa using start
    refine ⟨c, word ++ rest, rfl, readFront_word ?_ ?_, ?_⟩
    · exact isBlank_of_isNamePart (isNamePart_of_isNameStart start)
    · exact fun e => absurd start (by rw [e]; decide)
    · rw [read, if_pos start]
      have split := whileTrue_append parts stop
      rw [List.cons_append] at split
      rw [split]

theorem readStringBody_plain {body rest : List Char}
    (h : ∀ c ∈ body, c ≠ '"' ∧ c ≠ '\\' ∧ c ≠ '\n') :
    readStringBody (body ++ '"' :: rest) = some ⟨body, rest⟩ := by
  induction body with
  | nil => rfl
  | cons c body ih =>
    obtain ⟨quote, back, feed⟩ := h c List.mem_cons_self
    have ih := ih fun d hd => h d (List.mem_cons_of_mem _ hd)
    rw [List.cons_append, readStringBody, ih]
    · rfl
    all_goals simp_all

theorem read_quote (text : List Char) : read '"' text =
    match readStringBody text with
    | none => .error .unclosedString
    | some s => .ok ⟨.string (String.ofList s.taken), '"' :: s.taken ++ ['"'], s.rest⟩ := by
  rw [read, if_neg (by decide), if_neg (by simp [startsNumber])]
  exact if_pos rfl

theorem readsAs_string {body : String} {rest : List Char}
    (h : ∀ c ∈ body.toList, c ≠ '"' ∧ c ≠ '\\' ∧ c ≠ '\n') :
    ReadsAs ('"' :: body.toList ++ ['"']) rest (.string body) := by
  refine ⟨'"', body.toList ++ '"' :: rest, by simp, readFront_word (by decide) (by simp), ?_⟩
  rw [read_quote, readStringBody_plain h]
  simp

/-- The character starts no word but a symbol. -/
def startsMark (c : Char) : Bool :=
  !isNamePart c && !isBlank c && !c.isDigit && !(['"', '\x60', '\'', ';'].contains c)

/-- The first character of a symbol starts no other word. -/
theorem symbol_head : ∀ p ∈ Symbol.spellings, p.1.head?.all startsMark = true := by
  decide

theorem startsMark_of_symbol {s : Symbol} (spelled : (s.text.toList, s) ∈ Symbol.spellings)
    {c : Char} (hc : c ∈ s.text.toList.head?) : startsMark c = true := by
  have := symbol_head _ spelled
  rw [Option.mem_def.mp hc] at this
  exact this

theorem mem_extensions {s : Symbol} {p : List Char × Symbol} (hp : p ∈ Symbol.spellings) {d : Char}
    {more : List Char} (eq : p.1 = s.text.toList ++ d :: more) : d ∈ s.extensions := by
  apply List.mem_filterMap.mpr
  refine ⟨p, hp, ?_⟩
  have starts : s.text.toList.isPrefixOf p.1 = true := by
    rw [eq]
    exact List.isPrefixOf_iff_prefix.mpr (List.prefix_append ..)
  rw [if_pos starts, eq, List.drop_left]
  rfl

/-- Only characters that go on make a longer symbol of one, and none does of a closed one. -/
theorem extensions_goOn (s : Symbol) : s.extensions.all Chunk.goesOn = true ∧
    (Chunk.isClosed s = true → s.extensions = []) := by
  cases s <;> decide +kernel

theorem spelling_unique : ∀ w ∈ Symbol.spellings, ∀ p ∈ Symbol.spellings,
    p.1 = w.1 → p.2 = w.2 := by
  decide +kernel

theorem symbol_slash (s : Symbol) : s.text.toList.head? = some '/' → s = .slash := by
  cases s <;> decide

theorem symbol_dot (s : Symbol) : s.text.toList.head? = some '.' → s = .dot ∨ s = .ellipsis := by
  cases s <;> decide

/-- A symbol is read where no longer one starts. -/
theorem readSymbol?_alone {s : Symbol} {rest : List Char}
    (spelled : (s.text.toList, s) ∈ Symbol.spellings)
    (alone : ∀ d ∈ rest.head?, d ∉ s.extensions) :
    readSymbol? (s.text.toList ++ rest) = some (s, ⟨s.text.toList, rest⟩) := by
  have some_read : (readSymbol? (s.text.toList ++ rest)).isSome = true := by
    rw [readSymbol?, List.findSome?_isSome_iff]
    exact ⟨_, spelled, by simp [afterStart?_eq_some_iff.mpr rfl]⟩
  obtain ⟨⟨symbol, split⟩, read⟩ := Option.isSome_iff_exists.mp some_read
  obtain ⟨whole, found⟩ := readSymbol?_eq read
  have taken_prefix : split.taken <+: s.text.toList ++ rest := ⟨split.rest, whole⟩
  have longest := readSymbol?_longest read spelled (List.prefix_append ..)
  have word_prefix : s.text.toList <+: split.taken :=
    List.prefix_of_prefix_length_le (List.prefix_append ..) taken_prefix longest
  have same : split.taken = s.text.toList := by
    obtain ⟨more, eq⟩ := word_prefix
    cases more with
    | nil => rw [← eq, List.append_nil]
    | cons d more =>
      -- the longer symbol would go on with the first character of the rest
      rw [← eq, List.prefix_append_right_inj] at taken_prefix
      obtain ⟨tail, rfl⟩ := taken_prefix
      exact absurd (mem_extensions found eq.symm) (alone d rfl)
  have rest_eq : split.rest = rest := by
    have := whole
    rw [Split.whole, same, List.append_cancel_left_eq] at this
    exact this
  obtain rfl : symbol = s := spelling_unique _ spelled _ found same
  rw [read, ← same, ← rest_eq]

theorem alone_of_before {s : Symbol} {rest : List Char} (before : (Chunk.symbol s).Before rest) :
    ∀ d ∈ rest.head?, d ∉ s.extensions := by
  intro d hd longer
  obtain ⟨goOn, closed⟩ := extensions_goOn s
  rcases before with none | stop
  · rw [closed none] at longer
    cases longer
  · have further := List.all_eq_true.mp goOn d longer
    rw [stop d hd] at further
    cases further

theorem startsNumber_of_not_isDigit {c : Char} {text : List Char} (digit : c.isDigit = false)
    (dot : c = '.' → ∀ d ∈ text.head?, d.isDigit = false) : startsNumber (c :: text) = false := by
  unfold startsNumber
  split
  · rename_i h
    cases h
    exact dot rfl _ rfl
  · rename_i h
    cases h
    exact digit
  · rfl

theorem not_isDigit_of_goesOn {c : Char} (h : Chunk.goesOn c = false) : c.isDigit = false :=
  (Bool.or_eq_false_iff.mp h).2

/-- A symbol stands as a word where no longer one, no comment and no number starts. -/
theorem readsAs_symbol_alone {s : Symbol} {rest : List Char}
    (spelled : (s.text.toList, s) ∈ Symbol.spellings) (alone : ∀ d ∈ rest.head?, d ∉ s.extensions)
    (slash : s = .slash → ∀ d ∈ rest.head?, d ≠ '/' ∧ d ≠ '*')
    (dot : s = .dot → ∀ d ∈ rest.head?, d.isDigit = false) :
    ReadsAs s.text.toList rest (.symbol s) := by
  have printed := readSymbol?_alone spelled alone
  obtain ⟨c, more, text⟩ := List.exists_cons_of_ne_nil (spelling_ne_nil _ spelled)
  have head : s.text.toList.head? = some c := by
    rw [show s.text.toList = c :: more from text]
    rfl
  have mark := startsMark_of_symbol spelled head
  simp only [startsMark, Bool.and_eq_true, Bool.not_eq_true', List.contains_cons,
    List.contains_nil, Bool.or_eq_false_iff, beq_eq_false_iff_ne] at mark
  obtain ⟨⟨⟨part, blank⟩, digit⟩, quote, raw, rune, semicolon, -⟩ := mark
  have start : isNameStart c = false := by
    rw [Bool.eq_false_iff]
    intro start
    rw [isNamePart_of_isNameStart start] at part
    cases part
  refine ⟨c, more ++ rest, by rw [← List.cons_append, ← text], readFront_word blank ?_, ?_⟩
  · rintro rfl d hd
    -- a slash stands alone, and the rest does not make a comment of it
    obtain rfl := symbol_slash s head
    cases text
    exact slash rfl d hd
  · have number : startsNumber (c :: (more ++ rest)) = false := by
      refine startsNumber_of_not_isDigit digit fun point d hd => ?_
      subst point
      rcases symbol_dot s head with rfl | rfl
      · cases text
        exact dot rfl d hd
      · cases text
        cases hd
        decide
    rw [read, if_neg (by simp [start]), if_neg (by simp [number]), if_neg quote, if_neg raw,
      if_neg rune, if_neg semicolon, ← List.cons_append, ← show s.text.toList = c :: more from text,
      printed]

theorem readsAs_symbol {s : Symbol} {rest : List Char}
    (spelled : (s.text.toList, s) ∈ Symbol.spellings) (before : (Chunk.symbol s).Before rest) :
    ReadsAs s.text.toList rest (.symbol s) := by
  apply readsAs_symbol_alone spelled (alone_of_before before)
  · rintro rfl d hd
    rcases before with closed | stop
    · exact absurd closed (by decide)
    · have := stop d hd
      constructor <;> rintro rfl <;> revert this <;> decide
  · rintro rfl d hd
    rcases before with closed | stop
    · exact absurd closed (by decide)
    · exact not_isDigit_of_goesOn (stop d hd)

theorem readsAs_semicolon (rest : List Char) : ReadsAs [';'] rest .semicolon := by
  refine ⟨';', rest, rfl, readFront_word (by decide) (by simp), ?_⟩
  rw [read, if_neg (by decide), if_neg (by simp [startsNumber]), if_neg (by decide),
    if_neg (by decide), if_neg (by decide), if_pos rfl]

theorem wordKind_name {s : String} (h : IsIdentifier s) : wordKind s.toList = .name s := by
  simp [wordKind, h.unreserved]

theorem keyword_text (k : Keyword) : k.text.toList.head?.any isNameStart = true ∧
    k.text.toList.all isNamePart = true ∧ wordKind k.text.toList = .keyword k := by
  cases k <;> decide

/-- **A word is read off the front of a text**, if it does not run together with what follows. -/
theorem readsAs_chunk {c : Chunk} {kind : TokenKind} {rest : List Char} (sound : c.Sound)
    (word : c.kind? = some kind) (before : c.Before rest) : ReadsAs c.text rest kind := by
  cases c with
  | blanks s => cases word
  | name s =>
    cases word
    rw [← wordKind_name sound]
    exact readsAs_word sound.starts sound.parts before
  | keyword k =>
    cases word
    obtain ⟨start, parts, kind⟩ := keyword_text k
    rw [← kind]
    exact readsAs_word start parts before
  | symbol s =>
    cases word
    exact readsAs_symbol sound before
  | string body =>
    cases word
    exact readsAs_string sound
  | semicolon =>
    cases word
    exact readsAs_semicolon rest

end Lexeme

/-! ## What follows a chunk -/

namespace Chunk

theorem text_ne_nil {c : Chunk} (h : c.Sound) : c.text ≠ [] := by
  cases c with
  | blanks s => simpa [text] using h.1
  | name s => exact fun e => by simpa [show s.toList = [] from e] using h.starts
  | keyword k => cases k <;> decide
  | symbol s => exact spelling_ne_nil _ h
  | string body => simp [text]
  | semicolon => simp [text]

theorem goesOn_of_isNameStart {c : Char} (h : isNameStart c = true) : goesOn c = false := by
  have digit := isDigit_of_isNameStart h
  have marks : ['=', '<', '>', '^', '.', '&', '|', '-', '+', '*', '/'].all (!isNameStart ·) = true := by
    decide
  rw [goesOn, digit, Bool.or_false, decide_eq_false_iff_not]
  intro mem
  have := List.all_eq_true.mp marks c mem
  simp [h] at this

/-- The first character of a name or a reserved word starts names. -/
theorem head_of_name {c : Char} {text : List Char} (start : text.head?.any isNameStart = true)
    (hc : c ∈ text.head?) : isNameStart c = true := by
  rw [Option.mem_def.mp hc] at start
  exact start

/-- The first character of a chunk other than a name does not go on with a name. -/
theorem head_after_name {d : Chunk} (sound : d.Sound) (h : d.isNameLike = false) :
    ∀ x ∈ d.text.head?, isNamePart x = false := by
  intro x hx
  cases d with
  | blanks s => rcases sound.2 x (List.mem_of_head? hx) with rfl | rfl <;> decide
  | symbol s =>
    have mark := Lexeme.startsMark_of_symbol sound hx
    simp only [Lexeme.startsMark, Bool.and_eq_true, Bool.not_eq_true'] at mark
    exact mark.1.1.1
  | string body | semicolon =>
    cases hx
    decide
  | name s | keyword k => cases h

/-- The first character of a chunk that follows a symbol does not make a longer word of it. -/
theorem head_after_symbol {s : Symbol} {d : Chunk} (sound : d.Sound)
    (h : (Chunk.symbol s).fits d = true) :
    isClosed s = true ∨ ∀ x ∈ d.text.head?, goesOn x = false := by
  cases d with
  | blanks text =>
    refine .inr fun x hx => ?_
    rcases sound.2 x (List.mem_of_head? hx) with rfl | rfl <;> decide
  | name text => exact .inr fun x hx => goesOn_of_isNameStart (head_of_name sound.starts hx)
  | keyword k =>
    exact .inr fun x hx => goesOn_of_isNameStart (head_of_name (Lexeme.keyword_text k).1 hx)
  | symbol s' =>
    rcases Bool.or_eq_true_iff.mp h with closed | stop
    · exact .inl closed
    · refine .inr fun x hx => ?_
      rw [show s'.text.toList.head? = some x from hx] at stop
      simpa using stop
  | string body | semicolon =>
    refine .inr fun x hx => ?_
    cases hx
    decide

/-- A chunk that fits can follow. -/
theorem before_of_fits {c d : Chunk} (sound : d.Sound) (h : c.fits d = true) (rest : List Char) :
    c.Before (d.text ++ rest) := by
  have head : (d.text ++ rest).head? = d.text.head? := by
    obtain ⟨x, more, eq⟩ := List.exists_cons_of_ne_nil (text_ne_nil sound)
    simp [eq]
  cases c with
  | blanks s => trivial
  | string body => trivial
  | semicolon => trivial
  | name s =>
    rw [Before, head]
    exact head_after_name sound (by cases d <;> first | rfl | cases h)
  | keyword k =>
    rw [Before, head]
    exact head_after_name sound (by cases d <;> first | rfl | cases h)
  | symbol s =>
    rw [Before, head]
    exact head_after_symbol sound h

/-- The end of a line can follow every chunk. -/
theorem before_lineEnd (c : Chunk) (rest : List Char) : c.Before ('\n' :: rest) := by
  cases c with
  | blanks s => trivial
  | string body => trivial
  | semicolon => trivial
  | name s | keyword k =>
    intro d hd
    cases hd
    decide
  | symbol s =>
    refine .inr fun d hd => ?_
    cases hd
    decide

end Chunk

end EnumCodec
