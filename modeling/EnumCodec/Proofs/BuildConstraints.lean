import EnumCodec.Package
import EnumCodec.Proofs.FileParts
import EnumCodec.Proofs.Lines
import EnumCodec.Proofs.TextLayout
import Mathlib

/-!
# Files that no build takes in

A file says so in a line that asks for the word `ignore`.  Such lines are looked for line by line,
up to the first line that starts with `package` and a space, and not up to the package clause.

* `ReadsAsIgnore`, `StartsClause` — the two kinds of line that are looked at.
* `isIgnoredIn_iff` — the search through the lines.
* `leadingGap`, `StartsInComment` — where the scanner sees the package clause and the comments
  before it.
* `not_startsClause_of_lt` — a line before the clause that does not start in a comment does not
  stop the search.
* `isBuildIgnored_iff` — which files are left out, and when these are the ones with a constraint
  ahead of their clause.
-/

set_option autoImplicit false

namespace EnumCodec

open Text

/-! ## Lines -/

/-- How a line with a build condition starts. -/
def conditionMarks : List (List Char) := ["//go:build ".toList, "// +build ".toList]

/-- The line asks for the word `ignore`, with any white space around it. -/
def ReadsAsIgnore (line : List Char) : Prop :=
  ∃ mark ∈ conditionMarks, ∃ left inner right, AllBlank left ∧ AllBlank inner ∧ AllBlank right ∧
    line = left ++ (mark ++ (inner ++ "ignore".toList)) ++ right

/-- The line starts with the word `package` and a space, white space in front apart. -/
def StartsClause (line : List Char) : Prop := "package ".toList <+: trimmed line

instance (line : List Char) : Decidable (StartsClause line) :=
  inferInstanceAs (Decidable ("package ".toList <+: trimmed line))

theorem exists_slash_of_mem {mark : List Char} (h : mark ∈ conditionMarks) :
    ∃ more, mark = '/' :: more := by
  have slash : ∀ mark ∈ conditionMarks, mark.head? = some '/' := by decide
  exact List.head?_eq_some_iff.mp (slash mark h)

theorem buildCondition?_eq_some_iff {line condition : List Char} :
    buildCondition? line = some condition ↔ ∃ mark ∈ conditionMarks, line = mark ++ condition := by
  unfold buildCondition? conditionMarks
  rw [List.exists_mem_cons_iff, List.exists_mem_cons_iff]
  cases modern : afterStart? "//go:build ".toList line with
  | some rest =>
    rw [← afterStart?_eq_some_iff, modern]
    refine ⟨.inl, fun h => h.elim id fun legacy => ?_⟩
    -- a line does not start in both ways
    obtain eq | ⟨_, none, _⟩ := legacy
    · rw [eq] at modern
      cases modern
    · cases none
  | none => rw [← afterStart?_eq_some_iff, modern, ← afterStart?_eq_some_iff]; simp

theorem readsAsIgnore_iff {line : List Char} :
    ReadsAsIgnore line ↔ (buildCondition? (trimmed line)).map trimmed = some "ignore".toList := by
  constructor
  · rintro ⟨mark, hmark, left, inner, right, hl, hi, hr, rfl⟩
    have first : (mark ++ (inner ++ "ignore".toList)).head?.any isBlank = false := by
      obtain ⟨more, rfl⟩ := exists_slash_of_mem hmark
      show isBlank '/' = false
      decide
    have last : (mark ++ (inner ++ "ignore".toList)).getLast?.any isBlank = false := by
      rw [← List.append_assoc, List.getLast?_append_of_ne_nil _ (by decide)]
      decide
    have word : trimmed (inner ++ "ignore".toList ++ []) = "ignore".toList :=
      trimmed_eq hi (List.forall_mem_nil _) (by decide) (by decide) (by decide)
    have some : mark ++ (inner ++ "ignore".toList) ≠ [] := by
      obtain ⟨more, rfl⟩ := exists_slash_of_mem hmark
      exact List.cons_ne_nil _ _
    rw [trimmed_eq hl hr first last some, buildCondition?_eq_some_iff.mpr ⟨mark, hmark, rfl⟩]
    rw [List.append_nil] at word
    exact congrArg Option.some word
  · intro h
    obtain ⟨condition, hcondition, word⟩ := Option.map_eq_some_iff.mp h
    obtain ⟨mark, hmark, eq⟩ := buildCondition?_eq_some_iff.mp hcondition
    obtain ⟨left, right, hl, hr, line_eq⟩ := exists_trimmed line
    obtain ⟨inner, after, hi, ha, condition_eq⟩ := exists_trimmed condition
    refine ⟨mark, hmark, left, inner, after ++ right, hl, hi, ha.append hr, ?_⟩
    rw [line_eq, eq, condition_eq, word]
    simp only [List.append_assoc]

instance (line : List Char) : Decidable (ReadsAsIgnore line) :=
  decidable_of_iff _ readsAsIgnore_iff.symm

/-- A line that starts the clause asks for nothing. -/
theorem ReadsAsIgnore.not_startsClause {line : List Char} (h : ReadsAsIgnore line) :
    ¬ StartsClause line := by
  obtain ⟨condition, hcondition, -⟩ := Option.map_eq_some_iff.mp (readsAsIgnore_iff.mp h)
  obtain ⟨mark, hmark, eq⟩ := buildCondition?_eq_some_iff.mp hcondition
  obtain ⟨rest, rfl⟩ := exists_slash_of_mem hmark
  rw [StartsClause, eq]
  exact fun start => absurd (List.cons_prefix_cons.mp start).1 (by decide)

theorem isIgnoredIn_cons {line : List Char} {lines : List (List Char)} :
    isIgnoredIn (line :: lines) = true ↔
      ¬ StartsClause line ∧ (ReadsAsIgnore line ∨ isIgnoredIn lines = true) := by
  rw [readsAsIgnore_iff, isIgnoredIn]
  split
  · rename_i start
    have clause : StartsClause line := List.isPrefixOf_iff_prefix.mp start
    simp only [clause, not_true, false_and, Bool.false_eq_true]
  rename_i start
  have clause : ¬ StartsClause line := fun clause => start (List.isPrefixOf_iff_prefix.mpr clause)
  cases buildCondition? (trimmed line) with
  | none => simp only [clause, Option.map_none, reduceCtorEq, not_false_iff, true_and, false_or]
  | some condition =>
    by_cases word : trimmed condition = "ignore".toList
    · simp only [clause, word, beq_self_eq_true, if_true, Option.map_some, not_false_iff, true_or,
        and_self]
    · simp only [clause, word, beq_iff_eq, if_false, Option.map_some, Option.some.injEq,
        not_false_iff, false_or, true_and]

/-- A file is left out if a line asks for it and no line before it starts the clause. -/
theorem isIgnoredIn_iff {lines : List (List Char)} :
    isIgnoredIn lines = true ↔ ∃ (n : Nat) (line : List Char), lines[n]? = some line ∧ ReadsAsIgnore line ∧
      ∀ m < n, ∀ earlier, lines[m]? = some earlier → ¬ StartsClause earlier := by
  induction lines with
  | nil => simp [isIgnoredIn]
  | cons line lines ih =>
    rw [isIgnoredIn_cons, ih]
    constructor
    · rintro ⟨clause, asks | ⟨n, later, at_n, asks, before⟩⟩
      · exact ⟨0, line, rfl, asks, by simp⟩
      · refine ⟨n + 1, later, by simpa using at_n, asks, fun m hm earlier at_m => ?_⟩
        cases m with
        | zero =>
          obtain rfl : line = earlier := by simpa using at_m
          exact clause
        | succ m => exact before m (by omega) earlier (by simpa using at_m)
    · rintro ⟨n, later, at_n, asks, before⟩
      cases n with
      | zero =>
        obtain rfl : line = later := by simpa using at_n
        exact ⟨asks.not_startsClause, .inl asks⟩
      | succ n =>
        refine ⟨before 0 (by omega) line rfl, .inr ⟨n, later, by simpa using at_n, asks, ?_⟩⟩
        exact fun m hm earlier at_m => before (m + 1) (by omega) earlier (by simpa using at_m)

/-! ## Where the clause is -/

/-- The blanks and comments before the first word of a text. -/
def leadingGap (source : String) : List (List Char) :=
  match readGap (Scanner.ofText source.toList).rest with
  | .ok (gap, _) => gap
  | .error _ => []

/-- The number of lines before the line of the first word. -/
def linesBefore (source : String) : Nat := (leadingGap source).flatten.count '\n'

/-- The line of a text with the given number, counted from zero. -/
def line? (source : String) (n : Nat) : Option (List Char) := (pieces '\n' source.toList)[n]?

/-- The line with the given number, counted from zero, starts in a comment between brackets: the
line feed that ends the line before is one of the comment. -/
def StartsInComment (gap : List (List Char)) (n : Nat) : Prop :=
  ∃ before comment after, gap = before ++ comment :: after ∧ ['/', '*'] <+: comment ∧
    before.flatten.count '\n' < n ∧ n ≤ before.flatten.count '\n' + comment.count '\n'

theorem not_startsInComment_nil {n : Nat} : ¬ StartsInComment [] n := by
  rintro ⟨before, comment, after, eq, -⟩
  cases before <;> cases eq

theorem startsInComment_cons {blank : List Char} {gap : List (List Char)} {n : Nat} :
    StartsInComment (blank :: gap) n ↔
      ['/', '*'] <+: blank ∧ 0 < n ∧ n ≤ blank.count '\n' ∨
        blank.count '\n' < n ∧ StartsInComment gap (n - blank.count '\n') := by
  constructor
  · rintro ⟨before, comment, after, eq, bracket, low, high⟩
    cases before with
    | nil =>
      obtain ⟨rfl, rfl⟩ := List.cons.inj eq
      exact .inl ⟨bracket, by simpa using low, by simpa using high⟩
    | cons _ before =>
      obtain ⟨rfl, rfl⟩ := List.cons.inj eq
      rw [List.flatten_cons, List.count_append] at low high
      exact .inr ⟨by omega, before, comment, after, rfl, bracket, by omega, by omega⟩
  · rintro (⟨bracket, low, high⟩ | ⟨past, before, comment, after, rfl, bracket, low, high⟩)
    · exact ⟨[], blank, gap, rfl, bracket, by simpa using low, by simpa using high⟩
    · refine ⟨blank :: before, comment, after, rfl, bracket, ?_, ?_⟩
      all_goals rw [List.flatten_cons, List.count_append]; omega

instance decidableStartsInComment : (gap : List (List Char)) → (n : Nat) →
    Decidable (StartsInComment gap n)
  | [], _ => .isFalse not_startsInComment_nil
  | blank :: gap, n =>
    have := decidableStartsInComment gap (n - blank.count '\n')
    decidable_of_iff _ startsInComment_cons.symm

/-- A line outside of comments that stands before the line of the first word asks for the file to be
left out. -/
def ConstrainedAhead (source : String) : Prop :=
  ∃ n line, n < linesBefore source ∧ ¬ StartsInComment (leadingGap source) n ∧
    line? source n = some line ∧ ReadsAsIgnore line

section

variable {source : String}

/-- The scanner finds the package clause behind the leading gap, on the line with the number of
lines before it. -/
theorem SourceFile.clause_of_ofText {path : String} {file : SourceFile}
    (h : SourceFile.ofText path source = .ok file) :
    (∃ rest, readGap (Scanner.ofText source.toList).rest = .ok (leadingGap source, rest)) ∧
      ∃ t ts, scan source = .ok (t :: ts) ∧ t.kind = .keyword .kwPackage ∧
        t.pos.line = linesBefore source + 1 := by
  unfold SourceFile.ofText at h
  split at h
  · cases h
  rename_i ts scanned
  obtain ⟨clause, segments, left, rfl, clause_written, -⟩ := readFile_ok h
  obtain ⟨word_kind, -, -, -, -⟩ := clause_written
  obtain ⟨gap, rest, ends, more, read, eq, -, due, words⟩ := Scanner.tokens_step scanned
  have start : (Scanner.ofText source.toList).pending = false ∧
      (Scanner.ofText source.toList).pos = Pos.start := by
    unfold Scanner.ofText
    split <;> exact ⟨rfl, rfl⟩
  have leading : leadingGap source = gap := by simp only [leadingGap, read]
  obtain rfl : ends = [] := List.eq_nil_of_length_eq_zero (by simpa [start] using due)
  refine ⟨⟨rest, by rw [leading, read]⟩, _, _, scanned, word_kind, ?_⟩
  rw [start.2] at words
  cases words with
  | done =>
    obtain ⟨rfl, -⟩ := List.cons.inj eq
    cases word_kind
  | word readWord =>
    obtain ⟨rfl, -⟩ := List.cons.inj eq
    rw [linesBefore, leading, Pos.advance_start, Nat.add_comm]
    rfl

/-- The blank that has a line feed with a given number. -/
theorem exists_blank_of_count {gap : List (List Char)} {n : Nat}
    (h : n < gap.flatten.count '\n') :
    ∃ before blank after, gap = before ++ blank :: after ∧
      before.flatten.count '\n' ≤ n ∧ n < before.flatten.count '\n' + blank.count '\n' := by
  induction gap generalizing n with
  | nil => simp at h
  | cons blank gap ih =>
    by_cases here : n < blank.count '\n'
    · exact ⟨[], blank, gap, rfl, by simp, by simpa using here⟩
    · rw [List.flatten_cons, List.count_append] at h
      obtain ⟨before, later, after, rfl, low, high⟩ := ih (n := n - blank.count '\n') (by omega)
      refine ⟨blank :: before, later, after, rfl, ?_, ?_⟩
      all_goals rw [List.flatten_cons, List.count_append]; omega

theorem IsGap.drop {before after : List (List Char)} {rest : List Char}
    (h : IsGap (before ++ after) rest) : IsGap after rest := by
  induction before with
  | nil => exact h
  | cons blank before ih =>
    cases h with
    | cons first more => exact ih more

/-- A line before the clause starts the text, starts in a comment, or follows a line feed between
comments. -/
theorem IsGap.line_start {gap : List (List Char)} {rest : List Char} (h : IsGap gap rest) {n : Nat}
    (hn : n < gap.flatten.count '\n') (outside : ¬ StartsInComment gap (n + 1)) :
    ∃ before after, gap = before ++ ['\n'] :: after ∧ before.flatten.count '\n' = n := by
  obtain ⟨before, blank, after, rfl, low, high⟩ := exists_blank_of_count hn
  cases h.drop with
  | cons first more =>
    cases first with
    | @space c =>
      by_cases hc : c = '\n'
      · subst hc
        have : ['\n'].count '\n' = 1 := rfl
        exact ⟨before, after, rfl, by omega⟩
      · have : [c].count '\n' = 0 := by simp [hc]
        omega
    | @line body _ no =>
      have : ('/' :: '/' :: body).count '\n' = 0 := List.count_eq_zero.mpr (by simpa using no)
      omega
    | block => exact absurd ⟨before, _, after, rfl, by simp, by omega, by omega⟩ outside

/-! ## The lines before the clause -/

/-- A line whose first character that is not blank is no `p` does not start the clause. -/
theorem not_startsClause {blanks rest : List Char} {c : Char} (h : AllBlank blanks)
    (visible : isBlank c = false) (hc : c ≠ 'p') : ¬ StartsClause (blanks ++ c :: rest) := by
  rintro ⟨more, eq⟩
  have start : (blanks ++ c :: rest).dropWhile isBlank = c :: rest :=
    dropWhile_of_allBlank h (by simpa using visible)
  have front := trimmed_prefix (blanks ++ c :: rest)
  rw [start, ← eq] at front
  exact hc (List.cons_prefix_cons.mp front).1.symm

/-- The line that a gap finishes does not start the clause. -/
theorem IsGap.head_not_startsClause {gap : List (List Char)} {rest : List Char} (h : IsGap gap rest)
    (ends : '\n' ∈ gap.flatten) {front : List Char} (blank : AllBlank front) (same : '\n' ∉ front) :
    ∀ line ∈ (pieces '\n' (front ++ (gap.flatten ++ rest)))[0]?, ¬ StartsClause line := by
  -- by induction on the gap, `front` being what there is of the line
  induction h generalizing front with
  | nil => simp at ends
  | @cons text rest gap first more ih =>
    have comment : ∀ text line, line ∈ (pieces '\n' (front ++ '/' :: text))[0]? →
        ¬ StartsClause line := by
      intro text line hline
      have same' : '\n' ∉ front ++ ['/'] := by simpa using same
      rw [List.append_cons, head_pieces_append same'] at hline
      obtain ⟨tail, -, rfl⟩ := Option.map_eq_some_iff.mp hline
      rw [List.append_assoc]
      exact not_startsClause blank (by decide) (by decide)
    cases first with
    | @space c _ hc =>
      by_cases feed : c = '\n'
      · subst feed
        have nothing : trimmed front = [] := by
          simp [trimmed, List.dropWhile_eq_nil_iff.mpr blank]
        simp [head_pieces_append same, pieces, StartsClause, nothing]
      · have blank' : AllBlank (front ++ [c]) := blank.append (by simpa [AllBlank] using hc)
        have same' : '\n' ∉ front ++ [c] := by simpa [same] using fun e => feed e.symm
        have ends' : '\n' ∈ gap.flatten := by simpa [Ne.symm feed] using ends
        simpa using ih ends' blank' same'
    | line => exact comment _
    | block => exact comment _

/-- **A line before the clause that does not start in a comment does not stop the search.** -/
theorem not_startsClause_of_lt {rest : List Char}
    (h : readGap (Scanner.ofText source.toList).rest = .ok (leadingGap source, rest)) {n : Nat}
    (hn : n < linesBefore source) (outside : ¬ StartsInComment (leadingGap source) n) :
    ∀ line ∈ line? source n, ¬ StartsClause line := by
  have gap := readGap_isGap h
  obtain ⟨mark, hmark, text⟩ := Scanner.ofText_split source.toList
  rw [← readGap_split h] at text
  unfold line?
  rw [text]
  unfold linesBefore at hn
  cases n with
  | zero =>
    obtain rfl | rfl := hmark
    · have feed : '\n' ∈ (leadingGap source).flatten := List.count_pos_iff.mp hn
      exact gap.head_not_startsClause feed (List.forall_mem_nil _) (List.not_mem_nil)
    · -- a byte-order mark is not white space
      rw [head_pieces_append (by decide)]
      intro line hline
      obtain ⟨tail, -, rfl⟩ := Option.map_eq_some_iff.mp hline
      exact not_startsClause (List.forall_mem_nil _) (by decide) (by decide)
  | succ n =>
    obtain ⟨before, after, eq, count⟩ := gap.line_start (by omega) outside
    rw [eq] at gap hn ⊢
    have start : (mark ++ before.flatten).count '\n' = n := by
      obtain rfl | rfl := hmark
      · simpa using count
      · rw [List.count_append, count]
        exact Nat.zero_add n
    have line : (pieces '\n' (mark ++ ((before ++ ['\n'] :: after).flatten ++ rest)))[n + 1]?
        = (pieces '\n' (after.flatten ++ rest))[0]? := by
      rw [← getElem?_pieces_append '\n' (mark ++ before.flatten), start]
      simp
    have feed : '\n' ∈ after.flatten := by
      rw [List.flatten_append, List.flatten_cons, List.count_append, List.count_append, count,
        List.count_singleton_self] at hn
      exact List.count_pos_iff.mp (by omega)
    rw [line]
    cases gap.drop with
    | cons first more =>
      exact more.head_not_startsClause feed (List.forall_mem_nil _) (List.not_mem_nil)

end

/-! ## Which files are left out -/

/-- **Which files no build takes in.**  The package clause of a file stands on the line after the
lines before it, as the scanner sees it.  The file is left out exactly if a line, in a comment or
not, asks for it, and no line before that one starts the clause; the lines that can do so are the ones
that start in a comment, and the ones from the clause on.  So a constraint ahead of the clause leaves
the file out if no line that starts in a comment before it starts with `package` and a space, and the
file is left out for nothing else if the clause is the first word of its line, with a space after it,
and no line that starts in a comment before it asks for the word `ignore`. -/
theorem isBuildIgnored_iff {path source : String} {file : SourceFile}
    (h : SourceFile.ofText path source = .ok file) :
    (∃ t ts, scan source = .ok (t :: ts) ∧ t.kind = .keyword .kwPackage ∧
      t.pos.line = linesBefore source + 1) ∧
    (isBuildIgnored source = true ↔
      ∃ n line, line? source n = some line ∧ ReadsAsIgnore line ∧
        ∀ m < n, (m < linesBefore source → StartsInComment (leadingGap source) m) →
          ∀ earlier, line? source m = some earlier → ¬ StartsClause earlier) ∧
    ((∀ m line, m < linesBefore source → StartsInComment (leadingGap source) m →
        line? source m = some line → ¬ StartsClause line) →
      ConstrainedAhead source → isBuildIgnored source = true) ∧
    ((∃ line, line? source (linesBefore source) = some line ∧ StartsClause line) →
      (∀ m line, m < linesBefore source → StartsInComment (leadingGap source) m →
        line? source m = some line → ¬ ReadsAsIgnore line) →
      isBuildIgnored source = true → ConstrainedAhead source) := by
  obtain ⟨⟨rest, gap⟩, clause⟩ := SourceFile.clause_of_ofText h
  have ahead : ∀ m, m < linesBefore source → ¬ StartsInComment (leadingGap source) m →
      ∀ line, line? source m = some line → ¬ StartsClause line :=
    fun m hm outside => not_startsClause_of_lt gap hm outside
  refine ⟨clause, ?_, ?_, ?_⟩
  · unfold isBuildIgnored
    rw [isIgnoredIn_iff]
    refine exists_congr fun n => exists_congr fun line => and_congr_right fun _ =>
      and_congr_right fun _ => forall₂_congr fun m _ => ?_
    refine ⟨fun before _ => before, fun before earlier at_m => ?_⟩
    by_cases outside : m < linesBefore source ∧ ¬ StartsInComment (leadingGap source) m
    · exact ahead m outside.1 outside.2 earlier at_m
    · exact before (fun hm => by_contra fun hc => outside ⟨hm, hc⟩) earlier at_m
  · rintro comments ⟨n, line, hn, outside, at_n, asks⟩
    refine isIgnoredIn_iff.mpr ⟨n, line, at_n, asks, fun m hm earlier at_m => ?_⟩
    by_cases inside : StartsInComment (leadingGap source) m
    · exact comments m earlier (by omega) inside at_m
    · exact ahead m (by omega) inside earlier at_m
  · rintro ⟨first, at_clause, starts⟩ comments ignored
    obtain ⟨n, line, at_n, asks, before⟩ := isIgnoredIn_iff.mp ignored
    obtain hn | rfl | hn := Nat.lt_trichotomy n (linesBefore source)
    · exact ⟨n, line, hn, fun inside => comments n line hn inside at_n asks, at_n, asks⟩
    · obtain rfl : first = line := Option.some.inj (at_clause.symm.trans at_n)
      exact absurd starts asks.not_startsClause
    · exact absurd starts (before _ hn first at_clause)

/-- A file that is never built, with a comment of two lines in front. -/
def retiredText : String := "/* ink,\nas it was */\n// +build  ignore\n\npackage ink\n"

/-- What is read of the file. -/
def retiredFile : SourceFile := ⟨"old.go", ⟨"ink", ⟨5, 9⟩⟩, [], []⟩

theorem isBuildIgnored_iff_retired : SourceFile.ofText "old.go" retiredText = .ok retiredFile ∧
    ConstrainedAhead retiredText ∧ isBuildIgnored retiredText = true := by
  have read : SourceFile.ofText "old.go" retiredText = .ok retiredFile := by with_unfolding_all rfl
  have gap : leadingGap retiredText =
      ["/* ink,\nas it was */".toList, ['\n'], "// +build  ignore".toList, ['\n'], ['\n']] := by
    cbv
  have before : linesBefore retiredText = 4 := by rw [linesBefore, gap]; decide
  have ahead : ConstrainedAhead retiredText := by
    refine ⟨2, "// +build  ignore".toList, by omega, ?_, by decide, by decide⟩
    rw [gap]
    decide
  have comments : ∀ m < 4, ∀ line ∈ line? retiredText m, ¬ StartsClause line := by decide
  have left_out := (isBuildIgnored_iff read).2.2.1 (fun m line hm _ at_m =>
    comments m (by omega) line at_m) ahead
  exact ⟨read, ahead, left_out⟩

/-- The file is read, but whether it is left out does not tell whether it has a constraint ahead of
its clause. -/
def IsMisjudged (source : String) : Prop :=
  (∃ path file, SourceFile.ofText path source = .ok file) ∧
    ¬ (isBuildIgnored source = true ↔ ConstrainedAhead source)

/-- A tab after the word `package`. -/
def tabbedText : String := "package\tink\n//go:build ignore\n"

/-- A byte-order mark before the clause. -/
def markedClauseText : String := "\ufeffpackage ink\n//go:build ignore\n"

/-- A comment with a line that asks for the word `ignore`. -/
def quotingText : String := "/*\n//go:build ignore\n*/\npackage ink\n"

/-- A constraint after a comment with a line that starts with `package` and a space. -/
def describedText : String := "/*\npackage ink\n*/\n//go:build ignore\n\npackage ink\n"

/-- In the first three files nothing asks ahead of the clause, and all are left out; the last one is
not left out, although it asks for it ahead of the clause. -/
theorem isBuildIgnored_misjudges : IsMisjudged tabbedText ∧ IsMisjudged markedClauseText ∧
    IsMisjudged quotingText ∧ IsMisjudged describedText := by
  refine ⟨⟨⟨"a.go", ⟨"a.go", ⟨"ink", ⟨1, 9⟩⟩, [], []⟩, by with_unfolding_all rfl⟩, fun h => ?_⟩,
    ⟨⟨"a.go", ⟨"a.go", ⟨"ink", ⟨1, 9⟩⟩, [], []⟩, by with_unfolding_all rfl⟩, fun h => ?_⟩,
    ⟨⟨"a.go", ⟨"a.go", ⟨"ink", ⟨4, 9⟩⟩, [], []⟩, by with_unfolding_all rfl⟩, fun h => ?_⟩,
    ⟨⟨"a.go", ⟨"a.go", ⟨"ink", ⟨6, 9⟩⟩, [], []⟩, by with_unfolding_all rfl⟩, fun h => ?_⟩⟩
  · have gap : leadingGap tabbedText = [] := by cbv
    obtain ⟨n, line, before, -⟩ := h.mp (by decide)
    rw [linesBefore, gap] at before
    cases before
  · have gap : leadingGap markedClauseText = [] := by cbv
    obtain ⟨n, line, before, -⟩ := h.mp (by decide)
    rw [linesBefore, gap] at before
    cases before
  · have gap : leadingGap quotingText = ["/*\n//go:build ignore\n*/".toList, ['\n']] := by cbv
    obtain ⟨n, line, before, outside, at_n, asks⟩ := h.mp (by decide)
    rw [linesBefore, gap] at before
    rw [gap] at outside
    have none : ∀ n < 3, ∀ line ∈ line? quotingText n, ReadsAsIgnore line →
        StartsInComment ["/*\n//go:build ignore\n*/".toList, ['\n']] n := by decide
    exact outside (none n before line at_n asks)
  · have gap : leadingGap describedText =
        ["/*\npackage ink\n*/".toList, ['\n'], "//go:build ignore".toList, ['\n'], ['\n']] := by
      cbv
    have ahead : ConstrainedAhead describedText := by
      refine ⟨3, "//go:build ignore".toList, ?_, ?_, by decide, by decide⟩
      · rw [linesBefore, gap]
        decide
      · rw [gap]
        decide
    exact absurd (h.mpr ahead) (by decide)

end EnumCodec
