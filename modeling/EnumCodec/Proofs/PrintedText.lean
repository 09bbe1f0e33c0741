import EnumCodec.Proofs.PrintedWords
import EnumCodec.Proofs.TextLayout

/-!
# Reading printed text

A text that is put together from words and blanks, no two of which run together, is read back as these
words.

* `Reads` — the kinds of the tokens that a scanner gives for a text, wherever it stands; one rule for
  the end of the text, for blanks, line feeds, comments and words.
* `Reads.lines` — a text of printed lines has the tokens of its words, and a statement end after each
  line whose last word can end a statement.
-/

set_option autoImplicit false

namespace EnumCodec

open Text

/-! ## The tokens of a text -/

/-- A scanner gives tokens of these kinds for the text, wherever it stands; a statement end may be
pending. -/
def Reads (pending : Bool) (text : List Char) (kinds : List TokenKind) : Prop :=
  ∀ pos, ∃ ts, Scanner.tokens ⟨text, pos, pending⟩ = .ok ts ∧ ts.map Token.kind = kinds

theorem Lexeme.ReadsAs.kind_ne {word rest : List Char} {kind : TokenKind}
    (h : Lexeme.ReadsAs word rest kind) : kind ≠ .endOfText := by
  obtain ⟨_, _, -, -, read⟩ := h
  exact Lexeme.read_kind_ne read

namespace Scanner

variable {text blank rest : List Char} {pending : Bool}

/-- A blank is passed over; where a statement end is pending, one without a line feed. -/
theorem next_blank (h : readFront text = .blank blank rest)
    (feed : pending = true → '\n' ∉ blank) (pos : Pos) :
    next ⟨text, pos, pending⟩ = next ⟨rest, pos.advance blank, pending⟩ := by
  cases gap : readGap rest with
  | error before => simp only [next, readGap_blank h, gap, Pos.advance_append]
  | ok read =>
    obtain ⟨blanks, after⟩ := read
    have same : impliedEnd? ⟨text, pos, pending⟩ (blank :: blanks) after
        = impliedEnd? ⟨rest, pos.advance blank, pending⟩ blanks after := by
      cases pending with
      | false => rfl
      | true => simp [impliedEnd?, lineBreak?, breaksLine, feed rfl]
    simp only [next, readGap_blank h, gap, same, List.flatten_cons, Pos.advance_append]

theorem tokens_cons {s s' : Scanner} {t : Token} {ts : List Token} (next : s.next = .ok (t, s'))
    (more : s'.tokens = .ok ts) (inner : t.kind ≠ .endOfText) : s.tokens = .ok (t :: ts) := by
  rw [tokens_eq, next]
  simp only [more, if_neg inner]

/-- A line feed stands for the statement end that is pending. -/
theorem next_lineFeed (h : readFront text = .blank blank rest) (feed : '\n' ∈ blank)
    {ts : List Token} {pos : Pos} (more : tokens ⟨rest, pos.advance blank, false⟩ = .ok ts) :
    ∃ place s, next ⟨text, pos, true⟩ = .ok (⟨.semicolon, place, []⟩, s) ∧ s.tokens = .ok ts := by
  obtain ⟨blanks, after, -, -, gap, -⟩ := tokens_step more
  simp only at gap
  have due : (impliedEnd? ⟨text, pos, true⟩ (blank :: blanks) after).isSome = true :=
    impliedEnd?_isSome.mpr ⟨rfl, .inl (by simp [feed])⟩
  obtain ⟨place, due⟩ := Option.isSome_iff_exists.mp due
  refine ⟨place, ⟨after, pos.advance (blank :: blanks).flatten, false⟩, ?_, ?_⟩
  · simp only [next, readGap_blank h, gap, due]
  · rw [← more]
    rw [tokens_eq, tokens_eq ⟨rest, _, _⟩]
    simp [next, gap, readGap_rest gap, impliedEnd?]

/-- A word that stands in front is the next token. -/
theorem next_readsAs {word : List Char} {kind : TokenKind} (h : Lexeme.ReadsAs word rest kind)
    (pos : Pos) (pending : Bool) : next ⟨word ++ rest, pos, pending⟩ =
      .ok (⟨kind, pos, word⟩, ⟨rest, pos.advance word, kind.endsStatement⟩) := by
  obtain ⟨c, text, eq, front, read⟩ := h
  rw [eq, next_of_gap (readGap_word front)]
  simp [impliedEnd?, lineBreak?, Scanner.word, read]

/-- At the end of the text there is a statement end if one is due, and the end of the text. -/
theorem tokens_nil (pos : Pos) (pending : Bool) : tokens ⟨[], pos, pending⟩ =
    .ok ((if pending then [⟨.semicolon, pos, []⟩] else []) ++ [⟨.endOfText, pos, []⟩]) := by
  have gap : readGap [] = .ok ([], []) := readGap_word rfl
  have last : tokens ⟨[], pos, false⟩ = .ok [⟨.endOfText, pos, []⟩] := by
    rw [tokens_eq, next_of_gap gap]
    rfl
  cases pending with
  | false => exact last
  | true =>
    have due : next ⟨[], pos, true⟩ = .ok (⟨.semicolon, pos, []⟩, ⟨[], pos, false⟩) := by
      rw [next_of_gap gap]
      rfl
    exact tokens_cons due last (by simp)

end Scanner

/-- A text that is one word, with which a statement can end. -/
theorem scan_of_readsAs {word : String} {kind : TokenKind}
    (h : Lexeme.ReadsAs word.toList [] kind)
    (mark : word.toList.head? ≠ some Scanner.byteOrderMark) (last : kind.endsStatement = true) :
    scan word = .ok [⟨kind, Pos.start, word.toList⟩,
      ⟨.semicolon, Pos.start.advance word.toList, []⟩,
      ⟨.endOfText, Pos.start.advance word.toList, []⟩] := by
  have next := Scanner.next_readsAs h Pos.start false
  rw [List.append_nil, last] at next
  have start : Scanner.ofText word.toList = ⟨word.toList, Pos.start, false⟩ := by
    cases text : word.toList with
    | nil => rfl
    | cons c text' =>
      have other : c ≠ Scanner.byteOrderMark := by simpa [text] using mark
      rw [Scanner.ofText, if_neg other]
  rw [scan, start]
  exact Scanner.tokens_cons next (Scanner.tokens_nil _ true) h.kind_ne

namespace Reads

variable {pending : Bool} {text rest : List Char} {kinds : List TokenKind}

theorem endOfText : Reads false [] [.endOfText] := fun pos =>
  ⟨_, Scanner.tokens_nil pos false, rfl⟩

theorem skip {blank : List Char} (h : readFront text = .blank blank rest)
    (feed : pending = true → '\n' ∉ blank) (more : Reads pending rest kinds) :
    Reads pending text kinds := by
  intro pos
  obtain ⟨ts, tokens, kinds⟩ := more (pos.advance blank)
  refine ⟨ts, ?_, kinds⟩
  rw [Scanner.tokens_eq, Scanner.next_blank h feed pos, ← Scanner.tokens_eq]
  exact tokens

theorem lineFeed (more : Reads false rest kinds) :
    Reads pending ('\n' :: rest) ((if pending then [.semicolon] else []) ++ kinds) := by
  have front : readFront ('\n' :: rest) = .blank ['\n'] rest := by
    simp [readFront, show isBlank '\n' = true by decide]
  cases pending with
  | false => exact skip front (by simp) more
  | true =>
    intro pos
    obtain ⟨ts, tokens, rfl⟩ := more (pos.advance ['\n'])
    obtain ⟨place, s, next, tokens⟩ := Scanner.next_lineFeed front (by simp) tokens
    exact ⟨⟨.semicolon, place, []⟩ :: ts, Scanner.tokens_cons next tokens (by simp), rfl⟩

theorem word {word : List Char} {kind : TokenKind} (h : Lexeme.ReadsAs word rest kind)
    (more : Reads kind.endsStatement rest kinds) :
    Reads pending (word ++ rest) (kind :: kinds) := by
  intro pos
  obtain ⟨ts, tokens, rfl⟩ := more (pos.advance word)
  have next := Scanner.next_readsAs h pos pending
  exact ⟨⟨kind, pos, word⟩ :: ts, Scanner.tokens_cons next tokens h.kind_ne, rfl⟩

/-- A comment that goes to the end of its line. -/
theorem comment {body : List Char} (feed : '\n' ∉ body) (more : Reads pending ('\n' :: rest) kinds) :
    Reads pending ('/' :: '/' :: body ++ '\n' :: rest) kinds := by
  have inside : body.all (· != '\n') = true :=
    List.all_eq_true.mpr fun c hc => bne_iff_ne.mpr fun e => feed (e ▸ hc)
  have split : Split.whileTrue (· != '\n') (body ++ '\n' :: rest) = ⟨body, '\n' :: rest⟩ :=
    whileTrue_append inside (by simp)
  have front : readFront ('/' :: '/' :: body ++ '\n' :: rest)
      = .blank ('/' :: '/' :: body) ('\n' :: rest) := by
    rw [List.cons_append, List.cons_append, readFront]
    rw [Split.whileTrue, Split.mk.injEq] at split
    rw [split.1, split.2]
  exact skip front (fun _ => by simp [feed]) more

end Reads

/-! ## Lines -/

namespace Chunk

/-- Whether a statement end is pending after some chunks. -/
def pendingAfter (pending : Bool) : List Chunk → Bool
  | [] => pending
  | c :: chunks => pendingAfter ((c.kind?.map TokenKind.endsStatement).getD pending) chunks

/-- No two chunks of the line run together. -/
def allFit : List Chunk → Bool
  | c :: d :: line => c.fits d && allFit (d :: line)
  | _ => true

/-- The line can be read back. -/
structure Readable (line : List Chunk) : Prop where
  sound : ∀ c ∈ line, c.Sound
  fits : allFit line = true

end Chunk

namespace Reads

variable {pending : Bool} {rest : List Char} {kinds : List TokenKind}

/-- Blanks within a line are passed over. -/
theorem blanks {text : List Char} (h : ∀ c ∈ text, c = ' ' ∨ c = '\t')
    (more : Reads pending rest kinds) : Reads pending (text ++ rest) kinds := by
  induction text with
  | nil => exact more
  | cons c text ih =>
    have front : readFront (c :: text ++ rest) = .blank [c] (text ++ rest) ∧ c ≠ '\n' := by
      rcases h c List.mem_cons_self with rfl | rfl
      · exact ⟨rfl, by decide⟩
      · exact ⟨rfl, by decide⟩
    exact skip front.1 (fun _ => by simpa using front.2.symm)
      (ih fun d hd => h d (List.mem_cons_of_mem _ hd))

/-- A line is read word by word. -/
theorem line {line : List Chunk} (readable : Chunk.Readable line) (more : Reads false rest kinds) :
    Reads pending (line.flatMap Chunk.text ++ '\n' :: rest)
      (line.filterMap Chunk.kind? ++
        ((if Chunk.pendingAfter pending line then [.semicolon] else []) ++ kinds)) := by
  induction line generalizing pending with
  | nil => exact lineFeed more
  | cons c line ih =>
    have before : c.Before (line.flatMap Chunk.text ++ '\n' :: rest) := by
      cases line with
      | nil => exact Chunk.before_lineEnd c rest
      | cons d line =>
        rw [List.flatMap_cons, List.append_assoc]
        exact Chunk.before_of_fits (readable.sound d (by simp))
          (Bool.and_eq_true_iff.mp readable.fits).1 _
    have ih := @ih ((c.kind?.map TokenKind.endsStatement).getD pending)
      ⟨fun d hd => readable.sound d (List.mem_cons_of_mem _ hd), by
        cases line with
        | nil => rfl
        | cons d line => exact (Bool.and_eq_true_iff.mp readable.fits).2⟩
    rw [List.flatMap_cons, List.append_assoc]
    have sound := readable.sound c List.mem_cons_self
    cases kind : c.kind? with
    | none =>
      have blank : ∀ d ∈ c.text, d = ' ' ∨ d = '\t' := by
        cases c <;> first | exact sound.2 | cases kind
      rw [List.filterMap_cons_none kind, Chunk.pendingAfter, kind]
      rw [kind] at ih
      exact blanks blank ih
    | some kind' =>
      rw [List.filterMap_cons_some kind, Chunk.pendingAfter, kind]
      rw [kind] at ih
      exact word (Lexeme.readsAs_chunk sound kind before) ih

end Reads

/-- A line of printed text. -/
inductive PrintedLine
  | comment (body : String)
  | words (chunks : List Chunk)

namespace PrintedLine

/-- The characters of a line. -/
def text : PrintedLine → List Char
  | comment body => '/' :: '/' :: body.toList
  | words chunks => chunks.flatMap Chunk.text

/-- The tokens of a line: its words, and a statement end if its last word can end a statement. -/
def kinds : PrintedLine → List TokenKind
  | comment _ => []
  | words chunks =>
    chunks.filterMap Chunk.kind? ++ if Chunk.pendingAfter false chunks then [.semicolon] else []

/-- The line can be read back. -/
def Readable : PrintedLine → Prop
  | comment body => '\n' ∉ body.toList
  | words chunks => Chunk.Readable chunks

end PrintedLine

/-- **A text of printed lines is read line by line.** -/
theorem Reads.lines {lines : List PrintedLine} {rest : List Char} {kinds : List TokenKind}
    (readable : ∀ line ∈ lines, line.Readable) (more : Reads false rest kinds) :
    Reads false (lines.flatMap (fun line => line.text ++ ['\n']) ++ rest)
      (lines.flatMap PrintedLine.kinds ++ kinds) := by
  induction lines with
  | nil => exact more
  | cons first lines ih =>
    have ih := ih fun l hl => readable l (List.mem_cons_of_mem _ hl)
    have here := readable first List.mem_cons_self
    cases first with
    | comment body =>
      have h := comment here (@lineFeed false _ _ ih)
      simpa [PrintedLine.text, PrintedLine.kinds] using h
    | words chunks =>
      have h := @line false _ _ chunks here ih
      simpa [PrintedLine.text, PrintedLine.kinds] using h

end EnumCodec
