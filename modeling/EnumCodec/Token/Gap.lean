import EnumCodec.Position
import EnumCodec.Text.Blank

/-!
# What stands between words

A gap is a row of blanks: white space characters, comments to the end of a line and comments
between brackets.  `readGap` reads the longest gap at the front of a text.  Main statements:

* `readGap_split` — the blanks, one after the other, and the rest are the text;
* `lineBreak?_eq_none_iff` — there is no line break exactly if no blank has a line feed.

In the generator this is `skip_trivia`, with `skip_block_comment`; `lineBreak?` is the position that
it gives.
-/

set_option autoImplicit false

namespace EnumCodec

open Text

/-- What stands at the front of a text. -/
inductive Front
  /-- A blank and the text after it. -/
  | blank (text rest : List Char)
  /-- A comment that has no end. -/
  | unclosedComment
  /-- A word, or nothing. -/
  | word

/-- The rest of a comment between brackets, closing bracket included, and the text after it. -/
def readCommentBody : List Char → Option (List Char × List Char)
  | [] => none
  | '*' :: '/' :: text => some (['*', '/'], text)
  | c :: text => (readCommentBody text).map fun (taken, rest) => (c :: taken, rest)

/-- Looks for one blank. -/
def readFront : List Char → Front
  | '/' :: '/' :: text =>
    .blank ('/' :: '/' :: text.takeWhile (· != '\n')) (text.dropWhile (· != '\n'))
  | '/' :: '*' :: text =>
    match readCommentBody text with
    | none => .unclosedComment
    | some (body, rest) => .blank ('/' :: '*' :: body) rest
  | c :: text => if isBlank c then .blank [c] text else .word
  | [] => .word

theorem readCommentBody_split {text taken rest : List Char}
    (h : readCommentBody text = some (taken, rest)) : taken ++ rest = text := by
  fun_induction readCommentBody text generalizing taken rest with
  | case1 => simp at h
  | case2 text => simp at h; simp [← h.1, ← h.2]
  | case3 c text _ ih =>
    obtain ⟨⟨t, r⟩, hu, he⟩ := Option.map_eq_some_iff.1 h
    simp only [Prod.mk.injEq] at he
    obtain ⟨rfl, rfl⟩ := he
    simp [ih hu]

theorem readFront_split {text blank rest : List Char} (h : readFront text = .blank blank rest) :
    blank ++ rest = text := by
  unfold readFront at h
  split at h
  · simp only [Front.blank.injEq] at h
    simp [← h.1, ← h.2]
  · split at h
    · simp at h
    · rename_i body r hb
      simp only [Front.blank.injEq] at h
      simp [← h.1, ← h.2, readCommentBody_split hb]
  · split at h
    · simp only [Front.blank.injEq] at h
      simp [← h.1, ← h.2]
    · simp at h
  · simp at h

theorem readFront_nonempty {text blank rest : List Char}
    (h : readFront text = .blank blank rest) : blank ≠ [] := by
  unfold readFront at h
  split at h
  · simp only [Front.blank.injEq] at h; simp [← h.1]
  · split at h
    · simp at h
    · simp only [Front.blank.injEq] at h; simp [← h.1]
  · split at h
    · simp only [Front.blank.injEq] at h; simp [← h.1]
    · simp at h
  · simp at h

theorem readFront_length {text blank rest : List Char} (h : readFront text = .blank blank rest) :
    rest.length < text.length := by
  rw [← readFront_split h, List.length_append]
  have := List.length_pos_iff.2 (readFront_nonempty h)
  omega

theorem readFront_word {c : Char} {text : List Char} (blank : isBlank c = false)
    (comment : c = '/' → ∀ d ∈ text.head?, d ≠ '/' ∧ d ≠ '*') :
    readFront (c :: text) = .word := by
  unfold readFront
  split
  · rename_i h
    cases h
    exact absurd rfl (comment rfl '/' rfl).1
  · rename_i h
    cases h
    exact absurd rfl (comment rfl '*' rfl).2
  · rename_i h
    cases h
    simp [blank]
  · rename_i h
    cases h

/-- The blanks at the front of a text and the text after them.  A comment without an end is
reported with the text that stands before it. -/
def readGap (text : List Char) : Except (List Char) (List (List Char) × List Char) :=
  match _h : readFront text with
  | .word => .ok ([], text)
  | .unclosedComment => .error []
  | .blank blank rest =>
    match readGap rest with
    | .error before => .error (blank ++ before)
    | .ok (blanks, rest) => .ok (blank :: blanks, rest)
termination_by text.length
decreasing_by exact readFront_length _h

theorem readGap_split {text rest : List Char} {blanks : List (List Char)}
    (h : readGap text = .ok (blanks, rest)) : blanks.flatten ++ rest = text := by
  fun_induction readGap text generalizing blanks rest with
  | case1 => simp at h; simp [h]
  | case2 => simp at h
  | case3 => simp at h
  | case4 text blank rest' hf blanks' rest'' hg ih =>
    simp only [Except.ok.injEq, Prod.mk.injEq] at h
    obtain ⟨rfl, rfl⟩ := h
    simp [ih hg, readFront_split hf]

/-- Whether the blank has a line feed. -/
def breaksLine (blank : List Char) : Bool := blank.contains '\n'

/-- The place of the first blank that has a line feed, for blanks that start at a place. -/
def lineBreak? : Pos → List (List Char) → Option Pos
  | _, [] => none
  | pos, blank :: blanks =>
    if breaksLine blank then some pos else lineBreak? (pos.advance blank) blanks

theorem lineBreak?_eq_none_iff {pos : Pos} {blanks : List (List Char)} :
    lineBreak? pos blanks = none ↔ '\n' ∉ blanks.flatten := by
  induction blanks generalizing pos with
  | nil => simp [lineBreak?]
  | cons blank blanks ih =>
    by_cases h : '\n' ∈ blank
    · simp [lineBreak?, breaksLine, h]
    · simp only [lineBreak?, breaksLine, List.contains_iff_mem, h, if_false, ih]
      simp [h]

end EnumCodec
