import EnumCodec.Text.Blank
import EnumCodec.Text.Pieces
import Mathlib.Data.List.DropRight

/-!
# Pieces of a text, and the blanks around them

* `length_pieces`, `getElem?_pieces_append` — the number of pieces, and the piece after a separator.
* `exists_trimmed`, `trimmed_eq` — trimming takes the blanks off both ends, and no more.
-/

set_option autoImplicit false

namespace EnumCodec.Text

/-! ## Pieces -/

theorem length_pieces (sep : Char) (text : List Char) :
    (pieces sep text).length = text.count sep + 1 := by
  induction text with
  | nil => rfl
  | cons c text ih =>
    obtain ⟨p, ps, eq⟩ := List.exists_cons_of_ne_nil (pieces_ne_nil sep text)
    rw [eq] at ih
    by_cases hc : c = sep
    · simp [pieces, hc, eq, ← ih]
    · simp [pieces, hc, eq, ← ih]

/-- Without a separator in front, the first piece is made longer. -/
theorem head_pieces_append {sep : Char} {front : List Char} (h : sep ∉ front) (text : List Char) :
    (pieces sep (front ++ text))[0]? = (pieces sep text)[0]?.map (front ++ ·) := by
  induction front with
  | nil => simp
  | cons c front ih =>
    have hc : c ≠ sep := fun e => h (by simp [e])
    have ih := ih fun m => h (List.mem_cons_of_mem _ m)
    obtain ⟨p, ps, eq⟩ := List.exists_cons_of_ne_nil (pieces_ne_nil sep (front ++ text))
    obtain ⟨q, qs, eq'⟩ := List.exists_cons_of_ne_nil (pieces_ne_nil sep text)
    rw [eq, eq'] at ih
    obtain rfl : p = front ++ q := by simpa using ih
    simp [pieces, hc, eq, eq']

/-- The piece after a separator is the first one of what follows. -/
theorem getElem?_pieces_append (sep : Char) (before text : List Char) :
    (pieces sep (before ++ sep :: text))[before.count sep + 1]? = (pieces sep text)[0]? := by
  rw [pieces_append, List.getElem?_append_right (length_pieces sep before).le, length_pieces,
    Nat.sub_self]

/-! ## Blanks -/

/-- The text has nothing but blanks. -/
def AllBlank (text : List Char) : Prop := ∀ c ∈ text, isBlank c = true

theorem trimmed_prefix (text : List Char) : trimmed text <+: text.dropWhile isBlank :=
  List.rdropWhile_prefix isBlank (text.dropWhile isBlank)

theorem AllBlank.append {text more : List Char} (h : AllBlank text) (h' : AllBlank more) :
    AllBlank (text ++ more) := by
  intro c hc
  exact (List.mem_append.mp hc).elim (h c) (h' c)

theorem allBlank_takeWhile (text : List Char) : AllBlank (text.takeWhile isBlank) :=
  fun _ hc => List.mem_takeWhile_imp hc

theorem dropWhile_of_allBlank {blanks text : List Char} (h : AllBlank blanks)
    (first : text.head?.any isBlank = false) : (blanks ++ text).dropWhile isBlank = text := by
  rw [List.dropWhile_append_of_pos h]
  cases text with
  | nil => rfl
  | cons c text => exact List.dropWhile_cons_of_neg (by simpa using first)

/-- A text is its trimming, with blanks before it and after it. -/
theorem exists_trimmed (text : List Char) :
    ∃ left right, AllBlank left ∧ AllBlank right ∧ text = left ++ trimmed text ++ right := by
  let inner := text.dropWhile isBlank
  refine ⟨text.takeWhile isBlank, (inner.reverse.takeWhile isBlank).reverse,
    allBlank_takeWhile text, fun c hc => allBlank_takeWhile _ c (List.mem_reverse.mp hc), ?_⟩
  calc text = text.takeWhile isBlank ++ inner := List.takeWhile_append_dropWhile.symm
    _ = text.takeWhile isBlank
          ++ (inner.reverse.takeWhile isBlank ++ inner.reverse.dropWhile isBlank).reverse := by
        rw [@List.takeWhile_append_dropWhile _ isBlank inner.reverse, List.reverse_reverse]
    _ = text.takeWhile isBlank ++ trimmed text ++ (inner.reverse.takeWhile isBlank).reverse := by
        rw [List.reverse_append, List.append_assoc]
        rfl

/-- Blanks around a text that neither starts nor ends with one are trimmed off. -/
theorem trimmed_eq {left core right : List Char} (hl : AllBlank left) (hr : AllBlank right)
    (first : core.head?.any isBlank = false) (last : core.getLast?.any isBlank = false)
    (some : core ≠ []) : trimmed (left ++ core ++ right) = core := by
  have start : (left ++ core ++ right).dropWhile isBlank = core ++ right := by
    rw [List.append_assoc]
    refine dropWhile_of_allBlank hl ?_
    rwa [List.head?_append_of_ne_nil core some]
  have stop : ((core ++ right).reverse).dropWhile isBlank = core.reverse := by
    rw [List.reverse_append]
    refine dropWhile_of_allBlank (fun c hc => hr c (List.mem_reverse.mp hc)) ?_
    rwa [List.head?_reverse]
  rw [trimmed, start, stop, List.reverse_reverse]

end EnumCodec.Text
