import EnumCodec.Proofs.Spelling
import EnumCodec.Token.Scanner
import Mathlib

/-!
# How a text is laid out

A text that can be scanned is a row of words with gaps between them, and its tokens are the words
with the statement ends that line breaks and the end of the text stand for.

* `IsGap` — what a gap is: white space and whole comments; `readGap_isGap`.
* `Pos.place` — the line and the column after a text; `Pos.advance_start`.
* `Scanner.tokens_step` — what a scanner gives up to the next word.
* `Scanner.tokens_layout` — what it gives up to the end of the text.
* `scan_layout` — the words of a text, their spellings and their places.
* `Scanner.pull_tokens` — what `next` gives when it is called again and again.
-/

set_option autoImplicit false

namespace EnumCodec

open Text

/-! ## Gaps -/

/-- The characters are white space or a whole comment, where the second text follows: a comment to
the end of a line stops at a line feed or at the end of the text, and one between brackets at its
first closing bracket. -/
inductive IsBlankText : List Char → List Char → Prop
  | space {c : Char} {rest : List Char} (h : isBlank c = true) : IsBlankText [c] rest
  | line {body rest : List Char} (h : '\n' ∉ body) (stop : ∀ c ∈ rest.head?, c = '\n') :
      IsBlankText ('/' :: '/' :: body) rest
  | block {body rest : List Char} (h : ¬ ['*', '/'] <:+: body) :
      IsBlankText ('/' :: '*' :: body ++ ['*', '/']) rest

/-- The blanks, one after the other, are white space and whole comments, where the second text
follows. -/
inductive IsGap : List (List Char) → List Char → Prop
  | nil {rest : List Char} : IsGap [] rest
  | cons {blank rest : List Char} {blanks : List (List Char)}
      (first : IsBlankText blank (blanks.flatten ++ rest)) (more : IsGap blanks rest) :
      IsGap (blank :: blanks) rest

theorem readCommentBody_eq {text taken rest : List Char}
    (h : readCommentBody text = some (taken, rest)) :
    ∃ body, taken = body ++ ['*', '/'] ∧ ¬ ['*', '/'] <:+: body := by
  fun_induction readCommentBody text generalizing taken rest with
  | case1 => cases h
  | case2 text =>
    cases h
    exact ⟨[], rfl, by simp⟩
  | case3 c text hopen ih =>
    obtain ⟨⟨t, r⟩, hu, he⟩ := Option.map_eq_some_iff.1 h
    simp only [Prod.mk.injEq] at he
    obtain ⟨rfl, rfl⟩ := he
    obtain ⟨body, rfl, hbody⟩ := ih hu
    refine ⟨c :: body, rfl, fun hinfix => ?_⟩
    rcases List.infix_cons_iff.1 hinfix with hstart | hlater
    · -- the two characters would have been taken as the closing bracket
      obtain ⟨more, hmore⟩ := hstart
      simp only [List.cons_append, List.nil_append, List.cons.injEq] at hmore
      have htext := readCommentBody_split hu
      rw [← hmore.2] at htext
      exact hopen _ hmore.1.symm (by simpa using htext.symm)
    · exact hbody hlater

theorem readFront_isBlankText {text blank rest : List Char}
    (h : readFront text = .blank blank rest) : IsBlankText blank rest := by
  unfold readFront at h
  split at h
  · rename_i text
    cases h
    refine .line (fun hmem => ?_) fun c hc => ?_
    · simpa using List.all_eq_true.1 List.all_takeWhile _ hmem
    · have := List.head?_dropWhile_not (· != '\n') text
      rw [Option.mem_def] at hc
      rw [hc] at this
      simpa using this
  · split at h
    · cases h
    · rename_i body _ hbody
      cases h
      obtain ⟨inner, rfl, hinner⟩ := readCommentBody_eq hbody
      exact .block hinner
  · split at h
    · cases h
      exact .space ‹_›
    · cases h
  · cases h

/-- What is read as a gap is one. -/
theorem readGap_isGap {text rest : List Char} {blanks : List (List Char)}
    (h : readGap text = .ok (blanks, rest)) : IsGap blanks rest := by
  fun_induction readGap text generalizing blanks rest with
  | case1 =>
    cases h
    exact .nil
  | case2 => cases h
  | case3 => cases h
  | case4 text blank rest' hf blanks' rest'' hg ih =>
    cases h
    refine .cons ?_ (ih hg)
    rw [readGap_split hg]
    exact readFront_isBlankText hf

/-- There is no gap after a gap. -/
theorem readGap_rest {text rest : List Char} {blanks : List (List Char)}
    (h : readGap text = .ok (blanks, rest)) : readGap rest = .ok ([], rest) := by
  fun_induction readGap text generalizing blanks rest with
  | case1 text hf =>
    cases h
    unfold readGap
    split <;> simp_all
  | case2 => cases h
  | case3 => cases h
  | case4 text blank rest' hf blanks' rest'' hg ih =>
    cases h
    exact ih hg

theorem readGap_word {text : List Char} (h : readFront text = .word) :
    readGap text = .ok ([], text) := by
  rw [readGap]
  split <;> rename_i h' <;> rw [h] at h' <;> cases h'

theorem readGap_blank {text blank rest : List Char} (h : readFront text = .blank blank rest) :
    readGap text = match readGap rest with
      | .error before => .error (blank ++ before)
      | .ok (blanks, rest) => .ok (blank :: blanks, rest) := by
  rw [readGap]
  split <;> rename_i h' <;> rw [h] at h' <;> cases h'
  cases readGap rest <;> rfl

/-! ## Places -/

namespace Pos

/-- The place after a text: the line feeds are counted, and the characters since the last one. -/
def place (text : List Char) : Pos :=
  ⟨1 + text.count '\n', 1 + (text.reverse.takeWhile (· != '\n')).length⟩

theorem place_snoc (text : List Char) (c : Char) :
    place (text ++ [c]) = (place text).step c := by
  by_cases hc : c = '\n'
  · subst hc
    simp [place, step, Nat.add_assoc]
  · simp [place, step, hc, Nat.add_assoc]

theorem advance_start (text : List Char) : start.advance text = place text := by
  induction text using List.reverseRecOn with
  | nil => rfl
  | append_singleton text c ih =>
    rw [place_snoc, ← ih, advance_append]
    rfl

end Pos

/-! ## Up to the next word -/

/-- The token is a statement end that no character stands for. -/
def Token.IsImpliedEnd (t : Token) : Prop := t.kind = .semicolon ∧ t.lexeme = []

theorem Lexeme.read_kind_ne {c : Char} {text : List Char} {l : Lexeme}
    (h : Lexeme.read c text = .ok l) : l.kind ≠ .endOfText := by
  intro he
  have := Lexeme.read_spells h
  rw [he] at this
  cases this

namespace Scanner

variable {s : Scanner} {ts : List Token}

/-- A token is a word that was read, a statement end that is due, or the end of the text. -/
theorem next_read {s' : Scanner} {t : Token} (h : s.next = .ok (t, s')) :
    (∃ c text l, Lexeme.read c text = .ok l ∧ t.kind = l.kind ∧ t.lexeme = l.text) ∨
      t.IsImpliedEnd ∨ t.kind = .endOfText := by
  unfold next at h
  split at h
  · cases h
  · rename_i blanks rest gap
    dsimp only at h
    split at h
    · cases h
      exact .inr (.inl ⟨rfl, rfl⟩)
    · unfold word at h
      split at h
      · cases h
        exact .inr (.inr rfl)
      · split at h
        · cases h
        · rename_i l read
          cases h
          exact .inl ⟨_, _, l, read, rfl, rfl⟩

theorem tokens_inv (h : s.tokens = .ok ts) :
    ∃ t s', s.next = .ok (t, s') ∧
      (t.kind = .endOfText ∧ ts = [t] ∨
        t.kind ≠ .endOfText ∧ ∃ ts', s'.tokens = .ok ts' ∧ ts = t :: ts') := by
  rw [tokens] at h
  split at h
  · cases h
  · rename_i t s' hnext
    refine ⟨t, s', hnext, ?_⟩
    split at h
    · rename_i ht
      cases h
      exact .inl ⟨ht, rfl⟩
    · rename_i ht
      split at h
      · cases h
      · rename_i ts' hts
        cases h
        exact .inr ⟨ht, ts', hts, rfl⟩

/-- What holds of the next token, wherever a scanner stands, holds of all its tokens. -/
theorem forall_tokens {p : Token → Prop} (next_token : ∀ s s' t, next s = .ok (t, s') → p t)
    {s : Scanner} {ts : List Token} (h : s.tokens = .ok ts) : ∀ t ∈ ts, p t := by
  obtain ⟨t, s', next, rest⟩ := tokens_inv h
  have first := next_token s s' t next
  obtain ⟨-, rfl⟩ | ⟨inner, more, tokens, rfl⟩ := rest
  · exact List.forall_mem_singleton.mpr first
  · have less := next_load_lt next inner
    exact List.forall_mem_cons.mpr ⟨first, forall_tokens next_token tokens⟩
termination_by s.load

/-- The next token, and those after it. -/
theorem tokens_eq (s : Scanner) :
    s.tokens = match s.next with
      | .error e => .error e
      | .ok (t, s') =>
        if t.kind = .endOfText then .ok [t]
        else
          match s'.tokens with
          | .error e => .error e
          | .ok ts => .ok (t :: ts) := by
  rw [tokens]
  split
  · rename_i next
    rw [next]
  · rename_i t s' next
    by_cases last : t.kind = .endOfText
    · simp only [next, dif_pos last, if_pos last]
    · cases more : s'.tokens <;> simp only [next, dif_neg last, if_neg last, more]

/-- The tokens from a place where a word, or the end of the text, comes next. -/
inductive FromWord (pos : Pos) : List Char → List Token → Prop
  | done : FromWord pos [] [⟨.endOfText, pos, []⟩]
  | word {c : Char} {text : List Char} {l : Lexeme} {ts : List Token}
      (read : Lexeme.read c text = .ok l)
      (more : tokens ⟨l.rest, pos.advance l.text, l.kind.endsStatement⟩ = .ok ts) :
      FromWord pos (c :: text) (⟨l.kind, pos, l.text⟩ :: ts)

theorem tokens_fromWord {pos : Pos} {rest : List Char} (hnext : s.next = word pos rest)
    (h : s.tokens = .ok ts) : FromWord pos rest ts := by
  obtain ⟨t, s', ht, hcases⟩ := tokens_inv h
  rw [hnext] at ht
  cases rest with
  | nil =>
    cases ht
    rcases hcases with ⟨-, rfl⟩ | ⟨hk, -⟩
    · exact .done
    · exact absurd rfl hk
  | cons c text =>
    simp only [word] at ht
    split at ht
    · cases ht
    · rename_i l hl
      cases ht
      rcases hcases with ⟨hk, -⟩ | ⟨-, ts', hts, rfl⟩
      · exact absurd hk (Lexeme.read_kind_ne hl)
      · exact .word hl hts

theorem next_of_gap {blanks : List (List Char)} {rest : List Char}
    (h : readGap s.rest = .ok (blanks, rest)) :
    s.next =
      match s.impliedEnd? blanks rest with
      | some place => .ok (⟨.semicolon, place, []⟩, ⟨rest, s.pos.advance blanks.flatten, false⟩)
      | none => word (s.pos.advance blanks.flatten) rest := by
  cases due : s.impliedEnd? blanks rest <;> simp only [next, h, due]

theorem impliedEnd?_isSome {blanks : List (List Char)} {rest : List Char} :
    (s.impliedEnd? blanks rest).isSome = true ↔
      s.pending = true ∧ ('\n' ∈ blanks.flatten ∨ rest = []) := by
  unfold impliedEnd?
  cases s.pending with
  | false => simp
  | true =>
    cases hb : lineBreak? s.pos blanks with
    | none =>
      have hno := lineBreak?_eq_none_iff.1 hb
      cases rest <;> simp [hno]
    | some place =>
      have hyes : '\n' ∈ blanks.flatten := by
        by_contra hno
        rw [lineBreak?_eq_none_iff.2 hno] at hb
        cases hb
      simp [hyes]

/-- **What a scanner gives up to the next word**: a statement end, if one is due and there is a line
feed in the gap or nothing after it, and then the word or the end of the text. -/
theorem tokens_step (h : s.tokens = .ok ts) :
    ∃ blanks rest ends more, readGap s.rest = .ok (blanks, rest) ∧ ts = ends ++ more ∧
      (∀ t ∈ ends, t.IsImpliedEnd) ∧
      ends.length = (if s.pending = true ∧ ('\n' ∈ blanks.flatten ∨ rest = []) then 1 else 0) ∧
      FromWord (s.pos.advance blanks.flatten) rest more := by
  obtain ⟨t, s', hnext, hcases⟩ := tokens_inv h
  have hn := hnext
  unfold next at hn
  split at hn
  · cases hn
  · rename_i blanks rest hgap
    simp only at hn
    cases hend : s.impliedEnd? blanks rest with
    | some place =>
      rw [hend] at hn
      cases hn
      rcases hcases with ⟨hk, -⟩ | ⟨-, ts', hts, rfl⟩
      · cases hk
      refine ⟨blanks, rest, [⟨.semicolon, place, []⟩], ts', hgap, rfl, ?_, ?_, ?_⟩
      · simp [Token.IsImpliedEnd]
      · rw [if_pos (impliedEnd?_isSome.1 (by rw [hend]; rfl))]
        rfl
      · -- the gap has been passed, and no statement end is due any more
        refine tokens_fromWord ?_ hts
        simp [next, readGap_rest hgap, impliedEnd?]
    | none =>
      refine ⟨blanks, rest, [], ts, hgap, rfl, by simp, ?_, tokens_fromWord ?_ h⟩
      · rw [if_neg fun hp => ?_]
        · rfl
        · have := impliedEnd?_isSome.2 hp
          rw [hend] at this
          cases this
      · simp only [next, hgap, hend]

end Scanner

/-! ## Up to the end of the text -/

/-- A word of a text, the gap before it, and the statement ends that are implied after it. -/
structure Piece where
  gap : List (List Char)
  word : Token
  ends : List Token

namespace Piece

/-- The characters of the gap and of the word. -/
def text (p : Piece) : List Char := p.gap.flatten ++ p.word.lexeme

/-- The word and the statement ends after it. -/
def tokens (p : Piece) : List Token := p.word :: p.ends

end Piece

/-- The words and the gaps of a text that starts at a place, `ends` being the statement ends before
its first word; a statement end may be due there or not. -/
def Laid : Pos → Bool → List Token → List Piece → List (List Char) → Prop
  | _, pending, ends, [], tail =>
    (∀ t ∈ ends, t.IsImpliedEnd) ∧ ends.length = (if pending then 1 else 0) ∧ IsGap tail []
  | pos, pending, ends, p :: pieces, tail =>
    ((∀ t ∈ ends, t.IsImpliedEnd) ∧
      ends.length = if pending = true ∧ '\n' ∈ p.gap.flatten then 1 else 0) ∧
    (∃ c text l, Lexeme.read c text = .ok l ∧
      p.word = ⟨l.kind, pos.advance p.gap.flatten, l.text⟩ ∧
      l.rest = pieces.flatMap Piece.text ++ tail.flatten ∧
      IsGap p.gap (c :: text)) ∧
    Laid (pos.advance p.text) p.word.kind.endsStatement p.ends pieces tail

/-- **All that a scanner gives is laid out** over the text before it. -/
theorem Scanner.tokens_layout {s : Scanner} {ts : List Token} (h : s.tokens = .ok ts) :
    ∃ ends pieces tail final, Laid s.pos s.pending ends pieces tail ∧
      s.rest = pieces.flatMap Piece.text ++ tail.flatten ∧
      ts = ends ++ pieces.flatMap Piece.tokens ++ [⟨.endOfText, final, []⟩] := by
  -- by induction on what is left of the text
  induction hn : s.rest.length using Nat.strongRecOn generalizing s ts with
  | _ n ih =>
    obtain ⟨blanks, rest, ends, more, hgap, rfl, himplied, hcount, hmore⟩ := tokens_step h
    have htext := readGap_split hgap
    have hblanks := readGap_isGap hgap
    cases hmore with
    | done =>
      refine ⟨ends, [], blanks, s.pos.advance blanks.flatten, ⟨himplied, ?_, hblanks⟩, ?_, ?_⟩
      · simpa using hcount
      · simpa using htext.symm
      · rw [List.flatMap_nil, List.append_nil]
    | @word c text l ts' hread hts =>
      have hlen := Lexeme.rest_length_lt hread
      obtain ⟨ends', pieces, tail, final, hlaid, hrest, rfl⟩ :=
        ih l.rest.length (by rw [← hn, ← htext, List.length_append]; omega) hts rfl
      change l.rest = _ at hrest
      refine ⟨ends, ⟨blanks, ⟨l.kind, s.pos.advance blanks.flatten, l.text⟩, ends'⟩ :: pieces,
        tail, final,
        ⟨⟨himplied, by simpa using hcount⟩, ⟨c, text, l, hread, rfl, hrest, hblanks⟩, ?_⟩, ?_, ?_⟩
      · simpa [Piece.text] using hlaid
      · rw [← htext, ← Lexeme.read_split hread, hrest]
        simp [Piece.text]
      · simp [Piece.tokens]

/-! ## The layout of a text -/

/-- Where a piece stands in a text: after some characters and before others. -/
structure Piece.Fits (p : Piece) (before after : List Char) : Prop where
  /-- A word has characters. -/
  written : p.word.lexeme ≠ []
  /-- The characters of a word are a spelling of its token. -/
  spells : Spells p.word.kind p.word.lexeme
  /-- Before a word there are white space and whole comments only. -/
  gap : IsGap p.gap (p.word.lexeme ++ after)
  /-- A token has the line and the column of its first character. -/
  place : p.word.pos = Pos.place (before ++ p.gap.flatten)
  /-- No longer symbol starts where an operator or a delimiter stands. -/
  longest : p.word.kind.isMark = true → ∀ s ∈ Symbol.spellings,
    s.1 <+: p.word.lexeme ++ after → s.1.length ≤ p.word.lexeme.length
  /-- No character stands for the statement ends that follow. -/
  ends : ∀ t ∈ p.ends, t.IsImpliedEnd

/-- The pieces, one after the other, are the text and its tokens.  A byte-order mark may come before
them; after them come the gap that ends the text and the token for its end. -/
structure Layout (source : String) (ts : List Token) (mark : List Char) (pieces : List Piece)
    (tail : List (List Char)) (final : Token) : Prop where
  text_eq : source.toList = mark ++ pieces.flatMap Piece.text ++ tail.flatten
  mark_eq : mark = [] ∨ mark = [Scanner.byteOrderMark]
  tokens_eq : ts = pieces.flatMap Piece.tokens ++ [final]
  final_kind : final.kind = .endOfText
  tail_gap : IsGap tail []
  fits : ∀ before p after, pieces = before ++ p :: after →
    p.Fits (before.flatMap Piece.text) (after.flatMap Piece.text ++ tail.flatten)

namespace Laid

variable {pos : Pos} {pending : Bool} {ends : List Token} {pieces : List Piece}
  {tail : List (List Char)}

theorem isGap_tail (h : Laid pos pending ends pieces tail) : IsGap tail [] := by
  induction pieces generalizing pos pending ends with
  | nil => exact h.2.2
  | cons p pieces ih => exact ih h.2.2

/-- What is laid out goes on being so from every piece. -/
theorem drop {before : List Piece} {p : Piece} {after : List Piece}
    (h : Laid pos pending ends (before ++ p :: after) tail) :
    ∃ pending' ends',
      Laid (pos.advance (before.flatMap Piece.text)) pending' ends' (p :: after) tail := by
  induction before generalizing pos pending ends with
  | nil => exact ⟨pending, ends, h⟩
  | cons q before ih => simpa using ih h.2.2

theorem implied (h : Laid pos pending ends pieces tail) : ∀ t ∈ ends, t.IsImpliedEnd := by
  cases pieces with
  | nil => exact h.1
  | cons p pieces => exact h.1.1

/-- Every piece of what is laid out from the start of a text fits there. -/
theorem fits {before : List Piece} {p : Piece} {after : List Piece}
    (h : Laid Pos.start pending ends (before ++ p :: after) tail) :
    p.Fits (before.flatMap Piece.text) (after.flatMap Piece.text ++ tail.flatten) := by
  obtain ⟨_, _, -, ⟨c, text, l, hread, hword, hrest, hgap⟩, hmore⟩ := drop h
  have hlexeme : p.word.lexeme = l.text := by rw [hword]
  have hkind : p.word.kind = l.kind := by rw [hword]
  have htext : p.word.lexeme ++ (after.flatMap Piece.text ++ tail.flatten) = c :: text := by
    rw [hlexeme, ← hrest, Lexeme.read_split hread]
  exact {
    written := hlexeme ▸ Lexeme.read_nonempty hread
    spells := by rw [hkind, hlexeme]; exact Lexeme.read_spells hread
    gap := by rw [htext]; exact hgap
    place := by rw [hword, ← Pos.advance_append, Pos.advance_start]
    longest := fun hmark s hs hstart => by
      rw [htext] at hstart
      rw [hlexeme]
      exact Lexeme.read_longest hread (hkind ▸ hmark) hs hstart
    ends := hmore.implied }

end Laid

/-- A scanner starts with the first character, or after a byte-order mark. -/
theorem Scanner.ofText_split (text : List Char) :
    ∃ mark, (mark = [] ∨ mark = [Scanner.byteOrderMark]) ∧
      text = mark ++ (Scanner.ofText text).rest := by
  unfold Scanner.ofText
  split
  · exact ⟨[], .inl rfl, rfl⟩
  · rename_i c text
    by_cases hc : c = Scanner.byteOrderMark
    · exact ⟨[c], .inr (by rw [hc]), by simp [hc]⟩
    · exact ⟨[], .inl rfl, by simp [hc]⟩

/-- A text that can be scanned is laid out from its first character, or from the one after a
byte-order mark; no statement end comes first. -/
theorem scan_laid {source : String} {ts : List Token} (h : scan source = .ok ts) :
    ∃ mark pieces tail final, Layout source ts mark pieces tail final ∧
      Laid Pos.start false [] pieces tail := by
  obtain ⟨ends, pieces, tail, final, hlaid, hrest, hts⟩ := Scanner.tokens_layout h
  obtain ⟨mark, hmark, htext⟩ := Scanner.ofText_split source.toList
  have hstart : Laid Pos.start false ends pieces tail := by
    unfold Scanner.ofText at hlaid
    split at hlaid <;> exact hlaid
  have hends : ends = [] := by
    apply List.eq_nil_of_length_eq_zero
    cases pieces with
    | nil => simpa using hstart.2.1
    | cons p pieces => simpa using hstart.1.2
  subst hends
  refine ⟨mark, pieces, tail, _, ⟨?_, hmark, hts, rfl, hstart.isGap_tail, ?_⟩, hstart⟩
  · rw [htext, hrest, List.append_assoc]
  · rintro before p after rfl
    exact hstart.fits

/-- **The tokens of a text are its words**, apart from those that no character stands for: in order,
each with its own characters, with nothing but white space and whole comments before, between and
after them, each as long a symbol as there is, and each at its line and column. -/
theorem scan_layout {source : String} {ts : List Token} (h : scan source = .ok ts) :
    ∃ mark pieces tail final, Layout source ts mark pieces tail final := by
  obtain ⟨mark, pieces, tail, final, hlayout, -⟩ := scan_laid h
  exact ⟨mark, pieces, tail, final, hlayout⟩

/-! ## One token at a time -/

namespace Scanner

/-- What a number of calls of `next` give. -/
def pull : Nat → Scanner → Except LexicalError (List Token)
  | 0, _ => .ok []
  | n + 1, s =>
    match s.next with
    | .error e => .error e
    | .ok (t, s') =>
      match s'.pull n with
      | .error e => .error e
      | .ok ts => .ok (t :: ts)

theorem pull_cons {n : Nat} {s s' : Scanner} {t : Token} {ts : List Token}
    (h : s.next = .ok (t, s')) (hmore : s'.pull n = .ok ts) :
    s.pull (n + 1) = .ok (t :: ts) := by
  simp only [pull, h, hmore]

/-- The end of the text comes again and again. -/
theorem next_endOfText {s s' : Scanner} {t : Token} (h : s.next = .ok (t, s'))
    (ht : t.kind = .endOfText) : s'.next = .ok (t, s') := by
  unfold next at h
  split at h
  · cases h
  · rename_i blanks rest hgap
    simp only at h
    split at h
    · cases h
      cases ht
    · cases rest with
      | nil =>
        cases h
        have hnil : readGap [] = .ok ([], []) := readGap_rest hgap
        simp [next, hnil, impliedEnd?, word]
      | cons c text =>
        simp only [word] at h
        split at h
        · cases h
        · rename_i l hl
          cases h
          exact absurd ht (Lexeme.read_kind_ne hl)

theorem pull_endOfText {s s' : Scanner} {t : Token} (h : s.next = .ok (t, s'))
    (ht : t.kind = .endOfText) (k : Nat) : s.pull k = .ok (List.replicate k t) := by
  have hagain := next_endOfText h ht
  have hpull : ∀ k, s'.pull k = .ok (List.replicate k t) := by
    intro k
    induction k with
    | zero => rfl
    | succ k ih => exact pull_cons hagain ih
  cases k with
  | zero => rfl
  | succ k => exact pull_cons h (hpull k)

/-- Calling `next` once for each token, and then more often, gives the tokens and then the last one
again. -/
theorem pull_tokens {s : Scanner} {ts : List Token} (h : s.tokens = .ok ts) :
    ∃ init final, ts = init ++ [final] ∧ final.kind = .endOfText ∧
      (∀ t ∈ init, t.kind ≠ .endOfText) ∧
      ∀ k, s.pull (init.length + k) = .ok (init ++ List.replicate k final) := by
  induction ts generalizing s with
  | nil =>
    obtain ⟨t, s', -, ⟨-, hts⟩ | ⟨-, ts', -, hts⟩⟩ := tokens_inv h <;> cases hts
  | cons t ts ih =>
    obtain ⟨t', s', hnext, ⟨hk, hts⟩ | ⟨hk, ts', hmore, hts⟩⟩ := tokens_inv h
    · cases hts
      exact ⟨[], t, rfl, hk, by simp, fun k => by simpa using pull_endOfText hnext hk k⟩
    · cases hts
      obtain ⟨init, final, rfl, hfinal, hinit, hpull⟩ := ih hmore
      refine ⟨t :: init, final, rfl, hfinal, ?_, fun k => ?_⟩
      · simpa using ⟨hk, hinit⟩
      · rw [List.length_cons, Nat.add_right_comm]
        exact pull_cons hnext (hpull k)

/-- What is pulled up to the first end of the text is all there is. -/
theorem tokens_of_pull {s : Scanner} {init : List Token} {final : Token}
    (hfinal : final.kind = .endOfText) (hinit : ∀ t ∈ init, t.kind ≠ .endOfText)
    (h : s.pull (init.length + 1) = .ok (init ++ [final])) : s.tokens = .ok (init ++ [final]) := by
  induction init generalizing s with
  | nil =>
    rw [List.length_nil, pull] at h
    split at h
    · cases h
    · rename_i t s' hnext
      cases h
      rw [tokens]
      split <;> rename_i hn <;> rw [hnext] at hn <;> cases hn
      rw [dif_pos hfinal]
      rfl
  | cons u init ih =>
    rw [List.length_cons, pull] at h
    split at h
    · cases h
    · rename_i t s' hnext
      split at h
      · cases h
      · rename_i ts hpull
        cases h
        have hmore := ih (fun t ht => hinit t (List.mem_cons_of_mem _ ht)) hpull
        rw [tokens]
        split <;> rename_i hn <;> rw [hnext] at hn <;> cases hn
        rw [dif_neg (hinit _ List.mem_cons_self), hmore]
        rfl

end Scanner

/-- A mark, a comment over two lines, a symbol that two others start, and a raw string. -/
def markedText : String := "\ufeffa /*\n*/&^=\t\x60b\x60"

/-- The tokens of `markedText`. -/
def markedTokens : List Token :=
  [⟨.name "a", ⟨1, 1⟩, ['a']⟩, ⟨.semicolon, ⟨1, 3⟩, []⟩,
   ⟨.symbol .operatorAssign, ⟨2, 3⟩, ['&', '^', '=']⟩,
   ⟨.string "b", ⟨2, 7⟩, ['\x60', 'b', '\x60']⟩, ⟨.semicolon, ⟨2, 10⟩, []⟩,
   ⟨.endOfText, ⟨2, 10⟩, []⟩]

theorem scan_markedText : scan markedText = .ok markedTokens := by
  have hinit : ∀ t ∈ markedTokens.dropLast, t.kind ≠ .endOfText := by decide
  have gap₁ : readGap "a /*\n*/&^=\t\x60b\x60".toList =
      .ok ([], "a /*\n*/&^=\t\x60b\x60".toList) := by cbv
  have gap₂ : readGap " /*\n*/&^=\t\x60b\x60".toList =
      .ok ([[' '], "/*\n*/".toList], "&^=\t\x60b\x60".toList) := by cbv
  have gap₃ : readGap "&^=\t\x60b\x60".toList = .ok ([], "&^=\t\x60b\x60".toList) := by cbv
  have gap₄ : readGap "\t\x60b\x60".toList = .ok ([['\t']], "\x60b\x60".toList) := by cbv
  have gap₅ : readGap [] = .ok ([], []) := by cbv
  have next₁ : (Scanner.ofText markedText.toList).next =
      .ok (⟨.name "a", ⟨1, 1⟩, ['a']⟩, ⟨" /*\n*/&^=\t\x60b\x60".toList, ⟨1, 2⟩, true⟩) :=
    (Scanner.next_of_gap gap₁).trans rfl
  have next₂ : Scanner.next ⟨" /*\n*/&^=\t\x60b\x60".toList, ⟨1, 2⟩, true⟩ =
      .ok (⟨.semicolon, ⟨1, 3⟩, []⟩, ⟨"&^=\t\x60b\x60".toList, ⟨2, 3⟩, false⟩) :=
    (Scanner.next_of_gap gap₂).trans rfl
  have next₃ : Scanner.next ⟨"&^=\t\x60b\x60".toList, ⟨2, 3⟩, false⟩ =
      .ok (⟨.symbol .operatorAssign, ⟨2, 3⟩, ['&', '^', '=']⟩,
        ⟨"\t\x60b\x60".toList, ⟨2, 6⟩, false⟩) :=
    (Scanner.next_of_gap gap₃).trans rfl
  have next₄ : Scanner.next ⟨"\t\x60b\x60".toList, ⟨2, 6⟩, false⟩ =
      .ok (⟨.string "b", ⟨2, 7⟩, ['\x60', 'b', '\x60']⟩, ⟨[], ⟨2, 10⟩, true⟩) :=
    (Scanner.next_of_gap gap₄).trans rfl
  have next₅ : Scanner.next ⟨[], ⟨2, 10⟩, true⟩ =
      .ok (⟨.semicolon, ⟨2, 10⟩, []⟩, ⟨[], ⟨2, 10⟩, false⟩) :=
    (Scanner.next_of_gap gap₅).trans rfl
  have next₆ : Scanner.next ⟨[], ⟨2, 10⟩, false⟩ =
      .ok (⟨.endOfText, ⟨2, 10⟩, []⟩, ⟨[], ⟨2, 10⟩, false⟩) :=
    (Scanner.next_of_gap gap₅).trans rfl
  have hpull : (Scanner.ofText markedText.toList).pull 6 = .ok markedTokens :=
    Scanner.pull_cons next₁ <| Scanner.pull_cons next₂ <| Scanner.pull_cons next₃ <|
      Scanner.pull_cons next₄ <| Scanner.pull_cons next₅ <| Scanner.pull_cons next₆ rfl
  exact Scanner.tokens_of_pull rfl hinit hpull

theorem scan_layout_markedText : scan markedText = .ok markedTokens ∧
    ∃ mark pieces tail final, Layout markedText markedTokens mark pieces tail final :=
  ⟨scan_markedText, scan_layout scan_markedText⟩

end EnumCodec
