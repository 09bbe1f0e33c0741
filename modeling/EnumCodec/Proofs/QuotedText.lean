import EnumCodec.Proofs.CarriageReturns
import EnumCodec.Proofs.PrintedText

/-!
# Line feeds between quotes

A string and a character end on their line: a line feed before the closing quote is an error at the
opening one.  In a string there is one exception, a line feed that a backslash takes with it.

* `insideQuotes?` — where a place is, some characters after the opening quote.
* `StringBody.lineFeed`, `RuneBody.not_mem_lineFeed` — the line feeds of what is read.
* `Lexeme.read_quote_lineFeed`, `Lexeme.read_apostrophe_lineFeed` — the line feeds that are refused.
* `Scanner.ComesTo` — the words that a scanner comes to, whether it can read them or not.
* `scan_lineFeeds` — all this, for the words of a text.
-/

set_option autoImplicit false

namespace EnumCodec

open Text

/-! ## Between quotes -/

/-- Whether a backslash takes the character that comes after the text, if the closing quote has not come
by then; the flag tells whether one takes the first character of the text. -/
def insideQuotes? (quote : Char) : Bool → List Char → Option Bool
  | escaped, [] => some escaped
  | true, _ :: text => insideQuotes? quote false text
  | false, c :: text => if c = quote then none else insideQuotes? quote (c == '\\') text

section

variable {quote : Char} {escaped : Bool} {text before after : List Char}

theorem insideQuotes?_append : insideQuotes? quote escaped (before ++ after) =
    (insideQuotes? quote escaped before).bind fun escaped => insideQuotes? quote escaped after := by
  fun_induction insideQuotes? quote escaped before with
  | case1 => rfl
  | case2 c text ih => exact ih
  | case3 text =>
    rw [List.cons_append, insideQuotes?, if_pos rfl]
    rfl
  | case4 c text inner ih => rw [List.cons_append, insideQuotes?, if_neg inner, ih]

theorem insideQuotes?_of_plain (h : ∀ c ∈ text, c ≠ quote ∧ c ≠ '\\') :
    insideQuotes? quote false text = some false := by
  induction text with
  | nil => rfl
  | cons c text ih =>
    obtain ⟨⟨inner, plain⟩, more⟩ := List.forall_mem_cons.mp h
    rw [insideQuotes?, if_neg inner, beq_false_of_ne plain, ih more]

/-- A line feed before the closing quote is among the characters between the quotes. -/
theorem exists_of_insideQuotes? {body rest : List Char} (other : quote ≠ '\n')
    (whole : before ++ '\n' :: after = body ++ quote :: rest)
    (closed : insideQuotes? quote false body = some false)
    (inside : insideQuotes? quote false before = some escaped) :
    ∃ more, body = before ++ '\n' :: more := by
  obtain ⟨more, rfl, feed⟩ | ⟨more, rfl, feed⟩ := List.append_eq_append_iff.mp whole
  · cases more with
    | nil => exact absurd (List.cons.inj feed).1.symm other
    | cons c more =>
      cases feed
      exact ⟨more, rfl⟩
  · -- the closing quote would come before the line feed
    cases more with
    | nil => exact absurd (List.cons.inj feed).1 other
    | cons c more =>
      cases feed
      rw [insideQuotes?_append, closed, Option.bind_some, insideQuotes?, if_pos rfl] at inside
      cases inside

end

theorem ne_of_notMem {c x y z : Char} (h : c ∉ [x, y, z]) : c ≠ x ∧ c ≠ y ∧ c ≠ z := by
  simpa using h

/-! ## Strings -/

/-- What stands between the quotes of a string: a line feed only right after a backslash. -/
inductive StringBody : List Char → Prop
  | nil : StringBody []
  | plain {c : Char} {body : List Char} (h : c ∉ ['"', '\\', '\n']) (more : StringBody body) :
      StringBody (c :: body)
  | escape {c : Char} {body : List Char} (more : StringBody body) : StringBody ('\\' :: c :: body)

theorem readStringBody_body {text : List Char} {s : Split} (h : readStringBody text = some s) :
    StringBody s.taken := by
  fun_induction readStringBody text generalizing s with
  | case1 => cases h
  | case2 => cases h
  | case3 text =>
    cases h
    exact .nil
  | case4 c text ih =>
    obtain ⟨u, read, rfl⟩ := Option.map_eq_some_iff.mp h
    exact .escape (ih read)
  | case5 c text feed quote back ih =>
    obtain ⟨u, read, rfl⟩ := Option.map_eq_some_iff.mp h
    refine .plain (fun special => ?_) (ih read)
    simp only [List.mem_cons, List.not_mem_nil, or_false] at special
    obtain rfl | rfl | rfl := special
    · exact quote rfl
    · -- a backslash that nothing follows is in no string
      cases text with
      | nil => cases read
      | cons d text => exact back d text rfl rfl
    · exact feed rfl

namespace StringBody

variable {body : List Char}

theorem closed (h : StringBody body) : insideQuotes? '"' false body = some false := by
  induction h with
  | nil => rfl
  | plain special _ ih =>
    obtain ⟨inner, unescaped, -⟩ := ne_of_notMem special
    rw [insideQuotes?, if_neg inner, beq_false_of_ne unescaped, ih]
  | escape _ ih => exact ih

/-- The line feeds of a string are those that a backslash takes. -/
theorem lineFeed (h : StringBody body) {before after : List Char}
    (feed : body = before ++ '\n' :: after) : insideQuotes? '"' false before = some true := by
  induction h generalizing before with
  | nil => cases before <;> cases feed
  | plain special _ ih =>
    obtain ⟨inner, unescaped, other⟩ := ne_of_notMem special
    cases before with
    | nil =>
      cases feed
      exact absurd rfl other
    | cons c before =>
      obtain ⟨rfl, later⟩ := List.cons.inj feed
      rw [insideQuotes?, if_neg inner, beq_false_of_ne unescaped, ih later]
  | escape _ ih =>
    match before with
    | [] => cases feed
    | [c] =>
      cases feed
      rfl
    | c :: d :: before =>
      simp only [List.cons_append, List.cons.injEq] at feed
      obtain ⟨rfl, rfl, later⟩ := feed
      have taken : insideQuotes? '"' false before = some true := ih later
      exact taken

end StringBody

/-! ## Characters -/

namespace RuneBody

variable {code : CharNumber} {body : List Char}

/-- Quotes, backslashes and line feeds are no digits. -/
theorem not_special_of_positional? {base value : Nat} {digits : List Char}
    (read : positional? base digits = some value) : ∀ d ∈ digits, d ∉ ['\'', '\\', '\n'] := by
  intro d mem special
  have bad : digitIn? base d = none := by
    simp only [List.mem_cons, List.not_mem_nil, or_false] at special
    obtain rfl | rfl | rfl := special <;> rfl
  rw [positional?_eq_none mem bad] at read
  cases read

/-- An escape by number has characters after its backslash, letters and digits all of them. -/
theorem exists_escape {lead digits : List Char} {base count value : Nat}
    (form : (lead, base, count) ∈ numberEscapes) (length : digits.length = count)
    (read : positional? base digits = some value) :
    ∃ c tail, lead ++ digits = c :: tail ∧ ∀ d ∈ c :: tail, d ∉ ['\'', '\\', '\n'] := by
  have plain := not_special_of_positional? read
  simp only [numberEscapes, List.mem_cons, Prod.mk.injEq, List.not_mem_nil, or_false] at form
  obtain ⟨rfl, -, rfl⟩ | ⟨rfl, -, -⟩ | ⟨rfl, -, -⟩ | ⟨rfl, -, -⟩ := form
  · obtain ⟨c, tail, rfl⟩ := List.exists_cons_of_length_eq_add_one length
    exact ⟨c, tail, rfl, plain⟩
  all_goals exact ⟨_, digits, rfl, List.forall_mem_cons.mpr ⟨by decide, plain⟩⟩

theorem closed (h : RuneBody code body) : insideQuotes? '\'' false body = some false := by
  cases h with
  | plain special =>
    obtain ⟨inner, unescaped, -⟩ := ne_of_notMem special
    rw [insideQuotes?, if_neg inner, beq_false_of_ne unescaped, insideQuotes?]
  | letter => rfl
  | number form length value =>
    obtain ⟨c, tail, eq, plain⟩ := exists_escape form length value
    have digits : insideQuotes? '\'' false tail = some false := by
      refine insideQuotes?_of_plain fun d mem => ?_
      obtain ⟨inner, unescaped, -⟩ := ne_of_notMem (plain d (List.mem_cons_of_mem c mem))
      exact ⟨inner, unescaped⟩
    rw [List.cons_append, eq]
    exact digits

theorem not_mem_lineFeed (h : RuneBody code body) : '\n' ∉ body := by
  cases h with
  | plain special => simpa using (ne_of_notMem special).2.2.symm
  | @letter c _ simple =>
    have other : '\n' ≠ c := by
      rintro rfl
      cases simple
    simp [other]
  | number form length value =>
    obtain ⟨c, tail, eq, plain⟩ := exists_escape form length value
    rw [List.cons_append, eq]
    intro mem
    obtain escape | mem := List.mem_cons.mp mem
    · cases escape
    · exact plain _ mem (by simp)

end RuneBody

/-! ## Words -/

theorem Spells.not_mem_lineFeed {code : CharNumber} {word : List Char}
    (h : Spells (.rune code) word) : '\n' ∉ word := by
  cases h with
  | rune body => simpa using body.not_mem_lineFeed

namespace Lexeme

variable {text before after : List Char} {l : Lexeme}

/-- What is read at an apostrophe is a character between two of them. -/
theorem exists_runeBody (h : read '\'' text = .ok l) :
    ∃ code body, RuneBody code body ∧ text = body ++ '\'' :: l.rest := by
  rw [read, if_neg (by decide), if_neg (by simp [startsNumber]), if_neg (by decide),
    if_neg (by decide), if_pos rfl] at h
  cases read : readRuneBody text with
  | error problem =>
    rw [read] at h
    cases h
  | ok result =>
    obtain ⟨code, taken, rest⟩ := result
    have whole := readRuneBody_whole read
    rw [read] at h
    simp only [bind, Except.bind] at h
    split at h
    · cases h
      exact ⟨code, taken, readRuneBody_body read, whole.symm⟩
    · cases h

/-- The line feeds of a word that starts with a quote are those that a backslash takes. -/
theorem insideQuotes?_of_read {c : Char} (h : read c text = .ok l)
    (feed : l.text = '"' :: before ++ '\n' :: after) : insideQuotes? '"' false before = some true := by
  have whole := read_split h
  rw [feed] at whole
  obtain rfl : '"' = c := (List.cons.inj whole).1
  rw [read_quote] at h
  cases body : readStringBody text with
  | none =>
    rw [body] at h
    cases h
  | some s =>
    rw [body] at h
    cases h
    have eq : s.taken ++ ['"'] = before ++ '\n' :: after := (List.cons.inj feed).2
    -- the last character is the closing quote, and so the line feed comes before it
    obtain rfl | ⟨more, last, rfl⟩ := List.eq_nil_or_concat' after
    · cases (List.append_inj' eq rfl).2
    · rw [← List.cons_append, ← List.append_assoc] at eq
      exact (readStringBody_body body).lineFeed (List.append_inj' eq rfl).1

/-- A line feed before the closing quote, which no backslash takes. -/
theorem read_quote_lineFeed (inside : insideQuotes? '"' false before = some false) :
    read '"' (before ++ '\n' :: after) = .error .unclosedString := by
  rw [read_quote]
  cases read : readStringBody (before ++ '\n' :: after) with
  | none => rfl
  | some s =>
    have string := readStringBody_body read
    obtain ⟨more, feed⟩ :=
      exists_of_insideQuotes? (by decide) (readStringBody_eq read) string.closed inside
    rw [string.lineFeed feed] at inside
    cases inside

/-- A line feed before the closing apostrophe. -/
theorem read_apostrophe_lineFeed {escaped : Bool}
    (inside : insideQuotes? '\'' false before = some escaped) :
    ∃ problem, read '\'' (before ++ '\n' :: after) = .error problem := by
  cases read : read '\'' (before ++ '\n' :: after) with
  | error problem => exact ⟨problem, rfl⟩
  | ok l =>
    obtain ⟨code, body, rune, whole⟩ := exists_runeBody read
    obtain ⟨more, feed⟩ := exists_of_insideQuotes? (by decide) whole rune.closed inside
    exact absurd (by simp [feed]) rune.not_mem_lineFeed

end Lexeme

/-! ## The words of a text -/

namespace Scanner

/-- The scanner comes to a place where the characters are what is left of the text and start a word, if
there are any. -/
inductive ComesTo : Scanner → Pos → List Char → Prop
  | here {s : Scanner} {blanks : List (List Char)} {rest : List Char}
      (gap : readGap s.rest = .ok (blanks, rest)) : ComesTo s (s.pos.advance blanks.flatten) rest
  | later {s s' : Scanner} {t : Token} {pos : Pos} {rest : List Char} (next : s.next = .ok (t, s'))
      (inner : t.kind ≠ .endOfText) (more : ComesTo s' pos rest) : ComesTo s pos rest

/-- The line feeds of a character and of a string between quotes. -/
theorem next_lineFeeds {s s' : Scanner} {t : Token} (h : s.next = .ok (t, s')) :
    (∀ code, t.kind = .rune code → '\n' ∉ t.lexeme) ∧
    ∀ body before after, t.kind = .string body → t.lexeme = '"' :: before ++ '\n' :: after →
      insideQuotes? '"' false before = some true := by
  obtain ⟨c, text, l, read, kind, lexeme⟩ | ⟨semicolon, -⟩ | ended := next_read h
  · refine ⟨fun code rune => ?_, fun body before after _ feed => ?_⟩
    · have spells := Lexeme.read_spells read
      rw [← kind, rune] at spells
      rw [lexeme]
      exact spells.not_mem_lineFeed
    · exact Lexeme.insideQuotes?_of_read read (lexeme ▸ feed)
  · simp [semicolon]
  · simp [ended]

/-- A word that cannot be read is what is wrong with the text. -/
theorem tokens_of_comesTo {s : Scanner} {pos : Pos} {c : Char} {text : List Char}
    {problem : LexicalProblem} (h : s.ComesTo pos (c :: text))
    (unread : Lexeme.read c text = .error problem) : s.tokens = .error ⟨problem, pos⟩ := by
  generalize rest : c :: text = rest at h
  induction h with
  | @here s blanks rest' gap =>
    subst rest
    have word : word (s.pos.advance blanks.flatten) (c :: text) =
        .error ⟨problem, s.pos.advance blanks.flatten⟩ := by rw [Scanner.word, unread]
    rw [tokens_eq, next_of_gap gap]
    cases s.impliedEnd? blanks (c :: text) with
    | none => simp only [word]
    | some place =>
      -- first comes a statement end, and then the word
      have again : tokens ⟨c :: text, s.pos.advance blanks.flatten, false⟩ =
          .error ⟨problem, s.pos.advance blanks.flatten⟩ := by
        rw [tokens_eq, next_of_gap (readGap_rest gap)]
        simp [impliedEnd?, word]
      simp [again]
  | later next inner more ih =>
    rw [tokens_eq, next]
    simp only [if_neg inner, ih rest]

end Scanner

/-- **Line feeds between quotes.**  In the words of a text, no character between apostrophes has a line
feed, and a string between quotes has one only where a backslash takes it.  Any other line feed that
comes after an opening quote and before the closing one is an error at the opening quote; after an
apostrophe, one that a backslash takes is an error too. -/
theorem scan_lineFeeds (source : String) :
    (∀ ts, scan source = .ok ts → ∀ t ∈ ts,
      (∀ code, t.kind = .rune code → '\n' ∉ t.lexeme) ∧
      ∀ body before after, t.kind = .string body → t.lexeme = '"' :: before ++ '\n' :: after →
        insideQuotes? '"' false before = some true) ∧
    (∀ pos before after, (Scanner.ofText source.toList).ComesTo pos ('"' :: before ++ '\n' :: after) →
      insideQuotes? '"' false before = some false →
        scan source = .error ⟨.unclosedString, pos⟩) ∧
    (∀ pos before after escaped,
      (Scanner.ofText source.toList).ComesTo pos ('\'' :: before ++ '\n' :: after) →
      insideQuotes? '\'' false before = some escaped →
        ∃ problem, scan source = .error ⟨problem, pos⟩) := by
  refine ⟨fun ts scanned => ?_, fun pos before after comes inside => ?_,
    fun pos before after escaped comes inside => ?_⟩
  · exact Scanner.forall_tokens (fun _ _ _ next => Scanner.next_lineFeeds next) scanned
  · exact Scanner.tokens_of_comesTo comes (Lexeme.read_quote_lineFeed inside)
  · obtain ⟨problem, unread⟩ := Lexeme.read_apostrophe_lineFeed inside
    exact ⟨problem, Scanner.tokens_of_comesTo comes unread⟩

/-- A string over two lines. -/
def foldedString : String := "\"a\\\nb\""

theorem readsAs_foldedString : Lexeme.ReadsAs foldedString.toList [] (.string "a\\\nb") :=
  ⟨'"', ['a', '\\', '\n', 'b', '"'], rfl, rfl, by rw [Lexeme.read_quote]; rfl⟩

/-- The scanner comes to the quote at the start of a text. -/
theorem comesTo_quote :
    (Scanner.ofText "\"a\n".toList).ComesTo ⟨1, 1⟩ ('"' :: ['a'] ++ '\n' :: []) :=
  .here (readGap_word rfl)

/-- The scanner comes to an apostrophe after a name. -/
theorem comesTo_apostrophe :
    (Scanner.ofText "x'\\\n".toList).ComesTo ⟨1, 2⟩ ('\'' :: ['\\'] ++ '\n' :: []) := by
  have name : (Scanner.ofText "x'\\\n".toList).next =
      .ok (⟨.name "x", ⟨1, 1⟩, ['x']⟩, ⟨['\'', '\\', '\n'], ⟨1, 2⟩, true⟩) :=
    (Scanner.next_of_gap (readGap_word rfl)).trans rfl
  exact .later name (by decide) (.here (readGap_word rfl))

theorem scan_lineFeeds_opened :
    insideQuotes? '"' false ['a', '\\'] = some true ∧
    ((Scanner.ofText "\"a\n".toList).ComesTo ⟨1, 1⟩ ('"' :: ['a'] ++ '\n' :: []) ∧
      scan "\"a\n" = .error ⟨.unclosedString, ⟨1, 1⟩⟩) ∧
    (Scanner.ofText "x'\\\n".toList).ComesTo ⟨1, 2⟩ ('\'' :: ['\\'] ++ '\n' :: []) ∧
      ∃ problem, scan "x'\\\n" = .error ⟨problem, ⟨1, 2⟩⟩ := by
  have folded := scan_of_readsAs readsAs_foldedString (by decide) rfl
  have string := ((scan_lineFeeds foldedString).1 _ folded _ List.mem_cons_self).2
  exact ⟨string "a\\\nb" ['a', '\\'] ['b', '"'] rfl rfl,
    ⟨comesTo_quote, (scan_lineFeeds _).2.1 ⟨1, 1⟩ ['a'] [] comesTo_quote rfl⟩,
    comesTo_apostrophe, (scan_lineFeeds _).2.2 ⟨1, 2⟩ ['\\'] [] true comesTo_apostrophe rfl⟩

/-- A string can go on after a line feed. -/
theorem scan_foldedString : '\n' ∈ foldedString.toList ∧
    scan foldedString = .ok [⟨.string "a\\\nb", ⟨1, 1⟩, foldedString.toList⟩,
      ⟨.semicolon, ⟨2, 3⟩, []⟩, ⟨.endOfText, ⟨2, 3⟩, []⟩] :=
  ⟨by decide, scan_of_readsAs readsAs_foldedString (by decide) rfl⟩

end EnumCodec
