import EnumCodec.Proofs.TextLayout

/-!
# Where statements end

A line break, or the end of the text, stands for the end of a statement if the word before it can be
the last one of a statement.

* `TokenKind.endsStatement_iff` — the words that can be last.
* `Laid.ends_between`, `Laid.ends_last` — how many statement ends follow a word.
* `scan_statementEnds` — the statement ends of a text, and what comes after its end.
-/

set_option autoImplicit false

namespace EnumCodec

/-- The words with which a statement can end: names, literals, four reserved words, two operators
and closing brackets. -/
inductive CanBeLast : TokenKind → Prop
  | name (s : String) : CanBeLast (.name s)
  | integer (s : String) : CanBeLast (.integer s)
  | float (s : String) : CanBeLast (.float s)
  | imaginary (s : String) : CanBeLast (.imaginary s)
  | rune (code : Text.CharNumber) : CanBeLast (.rune code)
  | string (s : String) : CanBeLast (.string s)
  | keyword {k : Keyword} (h : k ∈ [.kwBreak, .kwContinue, .kwFallthrough, .kwReturn]) :
      CanBeLast (.keyword k)
  | symbol {s : Symbol}
      (h : s ∈ [.increment, .decrement, .rightParen, .rightBracket, .rightBrace]) :
      CanBeLast (.symbol s)

theorem TokenKind.endsStatement_iff {k : TokenKind} : k.endsStatement = true ↔ CanBeLast k := by
  constructor
  · intro h
    cases k with
    | name s => exact .name s
    | integer s => exact .integer s
    | float s => exact .float s
    | imaginary s => exact .imaginary s
    | rune code => exact .rune code
    | string s => exact .string s
    | keyword k =>
      refine .keyword ?_
      cases k <;> first | decide | cases h
    | symbol s =>
      refine .symbol ?_
      cases s <;> first | decide | cases h
    | semicolon => cases h
    | endOfText => cases h
  · intro h
    cases h with
    | keyword h =>
      simp only [List.mem_cons, List.not_mem_nil, or_false] at h
      rcases h with rfl | rfl | rfl | rfl <;> rfl
    | symbol h =>
      simp only [List.mem_cons, List.not_mem_nil, or_false] at h
      rcases h with rfl | rfl | rfl | rfl | rfl <;> rfl
    | _ => rfl

instance (k : TokenKind) : Decidable (CanBeLast k) :=
  decidable_of_iff (k.endsStatement = true) TokenKind.endsStatement_iff

namespace Laid

variable {pos : Pos} {pending : Bool} {ends : List Token} {before after : List Piece} {p q : Piece}
  {tail : List (List Char)}

/-- Between two words a statement ends where there is a line feed after a word that can be last. -/
theorem ends_between (h : Laid pos pending ends (before ++ p :: q :: after) tail) :
    p.ends.length = if CanBeLast p.word.kind ∧ '\n' ∈ q.gap.flatten then 1 else 0 := by
  obtain ⟨_, _, -, -, hnext⟩ := h.drop
  simpa only [TokenKind.endsStatement_iff] using hnext.1.2

/-- After the last word a statement ends if the word can be last. -/
theorem ends_last (h : Laid pos pending ends (before ++ [p]) tail) :
    p.ends.length = if CanBeLast p.word.kind then 1 else 0 := by
  obtain ⟨_, _, -, -, hnext⟩ := h.drop
  simpa only [TokenKind.endsStatement_iff] using hnext.2.1

end Laid

/-- **The statement ends of a text.**  None stands before the first word; one stands between two
words exactly if the first of them can be last and there is a line feed between them; one stands
after the last word exactly if that can be last; and the end of the text comes again as often as it
is asked for. -/
theorem scan_statementEnds {source : String} {ts : List Token} (h : scan source = .ok ts) :
    ∃ mark pieces tail final, Layout source ts mark pieces tail final ∧
      (∀ before p q after, pieces = before ++ p :: q :: after →
        p.ends.length = if CanBeLast p.word.kind ∧ '\n' ∈ q.gap.flatten then 1 else 0) ∧
      (∀ before p, pieces = before ++ [p] →
        p.ends.length = if CanBeLast p.word.kind then 1 else 0) ∧
      ∀ k, (Scanner.ofText source.toList).pull (ts.length + k) =
        .ok (ts ++ List.replicate k final) := by
  obtain ⟨mark, pieces, tail, final, hlayout, hlaid⟩ := scan_laid h
  refine ⟨mark, pieces, tail, final, hlayout, ?_, ?_, fun k => ?_⟩
  · rintro before p q after rfl
    exact hlaid.ends_between
  · rintro before p rfl
    exact hlaid.ends_last
  · obtain ⟨init, last, rfl, -, -, hpull⟩ := Scanner.pull_tokens h
    have hlast : last = final := by
      have := hlayout.tokens_eq
      exact (List.append_inj' this rfl).2 |> List.cons.inj |>.1
    have := hpull (k + 1)
    rw [List.length_append, List.length_singleton, Nat.add_right_comm, Nat.add_assoc, this, hlast,
      List.replicate_succ, List.append_assoc, List.singleton_append]

theorem scan_statementEnds_markedText : scan markedText = .ok markedTokens ∧
    ∃ mark pieces tail final, Layout markedText markedTokens mark pieces tail final ∧
      (∀ before p q after, pieces = before ++ p :: q :: after →
        p.ends.length = if CanBeLast p.word.kind ∧ '\n' ∈ q.gap.flatten then 1 else 0) ∧
      (∀ before p, pieces = before ++ [p] →
        p.ends.length = if CanBeLast p.word.kind then 1 else 0) ∧
      ∀ k, (Scanner.ofText markedText.toList).pull (markedTokens.length + k) =
        .ok (markedTokens ++ List.replicate k final) :=
  ⟨scan_markedText, scan_statementEnds scan_markedText⟩

end EnumCodec
