/-!
# Cutting a text

* `pieces` cuts a text at every separator; a text with `n` separators has `n + 1` pieces, empty ones
  included (`pieces_ne_nil`, `pieces_append`).
* `afterStart?` cuts a given start off a text (`afterStart?_eq_some_iff`).
-/

set_option autoImplicit false

namespace EnumCodec.Text

/-- The parts of the text between the separators. -/
def pieces (sep : Char) : List Char → List (List Char)
  | [] => [[]]
  | c :: rest =>
    if c == sep then [] :: pieces sep rest
    else
      match pieces sep rest with
      | [] => [[c]]
      | p :: ps => (c :: p) :: ps

theorem pieces_ne_nil (sep : Char) (text : List Char) : pieces sep text ≠ [] := by
  cases text with
  | nil => simp [pieces]
  | cons c rest =>
    simp only [pieces]
    split
    · simp
    · split <;> simp

theorem pieces_append (sep : Char) (first second : List Char) :
    pieces sep (first ++ sep :: second) = pieces sep first ++ pieces sep second := by
  induction first with
  | nil => simp [pieces]
  | cons c first ih =>
    obtain ⟨p, ps, eq⟩ := List.exists_cons_of_ne_nil (pieces_ne_nil sep first)
    by_cases hc : c = sep <;> simp [pieces, hc, ih, eq]

theorem pieces_of_notMem {sep : Char} {text : List Char} (h : sep ∉ text) :
    pieces sep text = [text] := by
  induction text with
  | nil => rfl
  | cons c text ih =>
    have hc : c ≠ sep := fun e => h (by simp [e])
    simp [pieces, hc, ih fun m => h (List.mem_cons_of_mem _ m)]

/-- What follows the given start of the text, if the text starts with it. -/
def afterStart? : (start text : List Char) → Option (List Char)
  | [], text => some text
  | _ :: _, [] => none
  | a :: start, c :: text => if a == c then afterStart? start text else none

theorem afterStart?_eq_some_iff {start text rest : List Char} :
    afterStart? start text = some rest ↔ text = start ++ rest := by
  induction start generalizing text with
  | nil => simp [afterStart?, eq_comm]
  | cons a start ih =>
    cases text with
    | nil => simp [afterStart?]
    | cons c text =>
      by_cases h : a = c
      · simp [afterStart?, h, ih]
      · have hc : c ≠ a := fun e => h e.symm
        simp [afterStart?, h, hc]

end EnumCodec.Text
