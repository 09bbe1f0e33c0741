import EnumCodec.Token.Lexeme

/-!
# How tokens are written

`Spells kind text` says that the characters are a spelling of the token: a name, a reserved word and
a number are their own text, a string stands between its quotes, a character between quotes is
itself or an escape, and a symbol has the spellings of the table.

* `Lexeme.read_spells` — a word that is read spells its token.
* `Lexeme.read_longest` — no longer symbol starts where a symbol is read.
-/

set_option autoImplicit false

namespace EnumCodec

open Text

/-- The text is a name: a letter or an underscore, then letters, underscores and numbers, and not a
reserved word. -/
structure IsIdentifier (s : String) : Prop where
  starts : s.toList.head?.any isNameStart = true
  parts : s.toList.all isNamePart = true
  unreserved : Keyword.ofText? s = none

instance (s : String) : Decidable (IsIdentifier s) :=
  decidable_of_iff (s.toList.head?.any isNameStart = true ∧ s.toList.all isNamePart = true ∧
      Keyword.ofText? s = none)
    ⟨fun h => ⟨h.1, h.2.1, h.2.2⟩, fun h => ⟨h.starts, h.parts, h.unreserved⟩⟩

/-- The escapes that give a character by its number: the letter, the base and the number of digits.
Octal digits follow the backslash at once. -/
def numberEscapes : List (List Char × Nat × Nat) :=
  [([], 8, 3), (['x'], 16, 2), (['u'], 16, 4), (['U'], 16, 8)]

/-- What stands between the quotes of a character literal. -/
inductive RuneBody : CharNumber → List Char → Prop
  | plain {c : Char} (h : c ∉ ['\'', '\\', '\n']) : RuneBody c.val.toFin [c]
  | letter {c : Char} {code : CharNumber} (h : simpleEscape? c = some code) :
      RuneBody code ['\\', c]
  | number {lead digits : List Char} {base count : Nat} {code : CharNumber}
      (form : (lead, base, count) ∈ numberEscapes) (length : digits.length = count)
      (value : positional? base digits = some code.val) (scalar : isScalar code.val = true) :
      RuneBody code ('\\' :: lead ++ digits)

/-- The characters are a spelling of the token. -/
inductive Spells : TokenKind → List Char → Prop
  | name {s : String} (h : IsIdentifier s) : Spells (.name s) s.toList
  | keyword (k : Keyword) : Spells (.keyword k) k.text.toList
  | integer (s : String) : Spells (.integer s) s.toList
  | float (s : String) : Spells (.float s) s.toList
  | imaginary (s : String) : Spells (.imaginary s) s.toList
  | rune {code : CharNumber} {body : List Char} (h : RuneBody code body) :
      Spells (.rune code) ('\'' :: body ++ ['\''])
  | quoted (s : String) : Spells (.string s) ('"' :: s.toList ++ ['"'])
  | raw (s : String) : Spells (.string s) ('\x60' :: s.toList ++ ['\x60'])
  | symbol {spelling : List Char} {s : Symbol} (h : (spelling, s) ∈ Symbol.spellings) :
      Spells (.symbol s) spelling
  | semicolon : Spells .semicolon [';']

/-! ## Names and numbers -/

theorem Spells.isIdentifier {s : String} {word : List Char} (h : Spells (.name s) word) :
    IsIdentifier s := by
  cases h with
  | name identifier => exact identifier

theorem Keyword.text_of_ofText? {s : String} {k : Keyword} (h : Keyword.ofText? s = some k) :
    k.text = s := by
  simpa using List.find?_some h

theorem wordKind_spells {text : List Char} (hstart : text.head?.any isNameStart = true)
    (hparts : text.all isNamePart = true) : Spells (wordKind text) text := by
  have htext : (String.ofList text).toList = text := String.toList_ofList
  unfold wordKind
  cases hk : Keyword.ofText? (String.ofList text) with
  | none =>
    have hname : IsIdentifier (String.ofList text) := ⟨by rwa [htext], by rwa [htext], hk⟩
    simpa [hk, htext] using Spells.name hname
  | some k =>
    have := Keyword.text_of_ofText? hk
    simpa [hk, this, htext] using Spells.keyword k

theorem readNumber_spells (text : List Char) :
    Spells (readNumber text).1 (readNumber text).2.taken := by
  unfold readNumber
  cases readReal text with
  | mk isFloat m =>
    simp only
    split
    · simpa using Spells.imaginary (String.ofList (m.taken ++ ['i']))
    · cases isFloat
      · simpa using Spells.integer (String.ofList m.taken)
      · simpa using Spells.float (String.ofList m.taken)

/-! ## Characters between quotes -/

theorem numberEscape?_eq_some {c : Char} {base count : Nat} {front : List Char}
    (h : numberEscape? c = some (base, front, count)) :
    ∃ lead, (lead, base, front.length + count) ∈ numberEscapes ∧ c :: [] = lead ++ front := by
  unfold numberEscape? at h
  split at h
  · cases h
    exact ⟨[], by simp [numberEscapes], rfl⟩
  split at h
  · rename_i hc
    cases h
    exact ⟨['x'], by simp [numberEscapes], by simp [hc]⟩
  split at h
  · rename_i hc
    cases h
    exact ⟨['u'], by simp [numberEscapes], by simp [hc]⟩
  split at h
  · rename_i hc
    cases h
    exact ⟨['U'], by simp [numberEscapes], by simp [hc]⟩
  · cases h

theorem readEscape_body {text : List Char} {code : CharNumber} {s : Split}
    (h : readEscape text = .ok (code, s)) : RuneBody code ('\\' :: s.taken) := by
  unfold readEscape at h
  split at h
  · cases h
  · rename_i c text
    split at h
    · rename_i code' hsimple
      cases h
      exact .letter hsimple
    · split at h
      · cases h
      · rename_i base front count hescape
        obtain ⟨lead, hform, hlead⟩ := numberEscape?_eq_some hescape
        simp only at h
        split at h
        · cases h
        · rename_i hcount
          split at h
          · cases h
          · rename_i value hvalue
            split at h
            · rename_i hscalar
              cases h
              have hlength : (front ++ text.take count).length = front.length + count := by
                rw [List.length_append]
                have := List.length_take_le count text
                omega
              have hbody : c :: text.take count = lead ++ (front ++ text.take count) := by
                rw [← List.append_assoc, ← hlead, List.singleton_append]
              rw [hbody, ← List.cons_append]
              exact .number hform hlength hvalue hscalar
            · cases h

theorem readRuneBody_body {text : List Char} {code : CharNumber} {s : Split}
    (h : readRuneBody text = .ok (code, s)) : RuneBody code s.taken := by
  unfold readRuneBody at h
  split at h
  · cases h
  · cases h
  · cases h
  · rename_i text
    cases he : readEscape text with
    | error e => simp [he, bind, Except.bind] at h
    | ok r =>
      obtain ⟨code', s'⟩ := r
      simp only [he, bind, Except.bind] at h
      cases h
      exact readEscape_body he
  · rename_i c text hfeed hquote hback
    cases h
    refine .plain fun hc => ?_
    simp only [List.mem_cons, List.not_mem_nil, or_false] at hc
    rcases hc with rfl | rfl | rfl
    · exact hquote rfl
    · exact hback rfl
    · exact hfeed rfl

/-! ## Words -/

/-- A word that is read spells its token. -/
theorem Lexeme.read_spells {c : Char} {text : List Char} {l : Lexeme}
    (h : Lexeme.read c text = .ok l) : Spells l.kind l.text := by
  unfold Lexeme.read at h
  split at h
  · rename_i hc
    cases h
    refine wordKind_spells ?_ (List.all_takeWhile)
    have hpart : isNamePart c = true := by simp [isNamePart, hc]
    simp [Split.whileTrue, hpart, hc]
  split at h
  · cases h
    exact readNumber_spells _
  split at h
  · split at h
    · cases h
    · rename_i s _
      cases h
      simpa using Spells.quoted (String.ofList s.taken)
  split at h
  · split at h
    · cases h
    · rename_i s _
      cases h
      simpa using Spells.raw (String.ofList s.taken)
  split at h
  · cases hb : readRuneBody text with
    | error e => simp [hb, bind, Except.bind] at h
    | ok r =>
      obtain ⟨code, s⟩ := r
      simp only [hb, bind, Except.bind] at h
      split at h
      · cases h
        exact .rune (readRuneBody_body hb)
      · cases h
  split at h
  · rename_i hc
    cases h
    rw [hc]
    exact .semicolon
  split at h
  · rename_i symbol s hs
    cases h
    exact .symbol (readSymbol?_eq hs).2
  · cases h

/-! ## The longest symbol -/

/-- Spellings never come before longer ones. -/
theorem spellings_sorted : Symbol.spellings.Pairwise fun p q => q.1.length ≤ p.1.length := by
  decide

theorem readSymbol?_longest {text : List Char} {symbol : Symbol} {s : Split}
    (h : readSymbol? text = some (symbol, s)) {p : List Char × Symbol}
    (hp : p ∈ Symbol.spellings) (hstart : p.1 <+: text) : p.1.length ≤ s.taken.length := by
  obtain ⟨before, q, after, hsplit, hq, hbefore⟩ := List.findSome?_eq_some_iff.1 h
  obtain ⟨rest, -, he⟩ := Option.map_eq_some_iff.1 hq
  simp only [Prod.mk.injEq] at he
  obtain ⟨-, rfl⟩ := he
  have hsorted := spellings_sorted
  rw [hsplit] at hp hsorted
  rcases List.mem_append.1 hp with hmem | hmem
  · -- a spelling before the one that was found does not start the text
    obtain ⟨rest', hrest⟩ := hstart
    have hnone := hbefore p hmem
    rw [Option.map_eq_none_iff] at hnone
    rw [afterStart?_eq_some_iff.2 hrest.symm] at hnone
    cases hnone
  · rcases List.mem_cons.1 hmem with rfl | hmem
    · exact Nat.le_refl _
    · exact (List.pairwise_cons.1 (List.pairwise_append.1 hsorted).2.1).1 p hmem

/-- The token is an operator or a delimiter. -/
def TokenKind.isMark : TokenKind → Bool
  | .symbol _ | .semicolon => true
  | _ => false

theorem wordKind_isMark (text : List Char) : (wordKind text).isMark = false := by
  simp only [wordKind]
  cases Keyword.ofText? (String.ofList text) <;> rfl

theorem readNumber_isMark (text : List Char) : (readNumber text).1.isMark = false := by
  unfold readNumber
  split
  split
  · rfl
  · rename_i isFloat m _ _ _
    cases isFloat <;> rfl

/-- No longer symbol starts where an operator or a delimiter is read. -/
theorem Lexeme.read_longest {c : Char} {text : List Char} {l : Lexeme}
    (h : Lexeme.read c text = .ok l) (hl : l.kind.isMark = true) {p : List Char × Symbol}
    (hp : p ∈ Symbol.spellings) (hstart : p.1 <+: c :: text) : p.1.length ≤ l.text.length := by
  unfold Lexeme.read at h
  split at h
  · cases h
    exact absurd ((wordKind_isMark _).symm.trans hl) Bool.false_ne_true
  split at h
  · cases h
    exact absurd ((readNumber_isMark (c :: text)).symm.trans hl) Bool.false_ne_true
  split at h
  · split at h <;> cases h
    cases hl
  split at h
  · split at h <;> cases h
    cases hl
  split at h
  · cases hb : readRuneBody text with
    | error e => simp [hb, bind, Except.bind] at h
    | ok r =>
      simp only [hb, bind, Except.bind] at h
      split at h <;> cases h
      cases hl
  split at h
  · -- no symbol starts with a semicolon
    rename_i hc
    have hhead : ∀ q ∈ Symbol.spellings, q.1.head? ≠ some ';' := by decide
    obtain ⟨rest, hrest⟩ := hstart
    cases hq : p.1 with
    | nil => exact Nat.zero_le _
    | cons d ds =>
      rw [hq, List.cons_append, List.cons.injEq] at hrest
      exact absurd (by rw [hq, hrest.1, hc]; rfl) (hhead p hp)
  split at h
  · rename_i symbol s hs
    cases h
    exact readSymbol?_longest hs hp hstart
  · cases h

end EnumCodec
