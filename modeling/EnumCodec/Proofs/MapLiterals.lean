import EnumCodec.Proofs.Lines
import EnumCodec.Proofs.NamesAndValues
import EnumCodec.Proofs.PrintedWords
import EnumCodec.Template
import Mathlib

/-!
# The map literals of a generated file

The map literals in the lines of a type are read back, each from the line that opens it to the one that
closes it, and each of their lines as a key, a value, and the columns where these stand.

* `MapLine.read?`, `mapLiterals`, `mapsOf?` — reading a line, the literals of a target, and their entries.
* `Template.read?_mapLine`, `Template.read?_mapLines` — the lines of a map literal are read back.
* `Template.aligned_readLines` — all values of a map literal stand in one column.
* `Template.mapLiterals_own`, `Template.mapLiterals_other` — a literal is that of its own target only.
* `Template.mapLiterals_toValue`, `Template.mapLiterals_toName` — the literals in the lines of a type.
* `Template.SayNames`, `ValueTable.maps_of_text` — what the maps in the text of a value table say.
-/

set_option autoImplicit false

namespace EnumCodec

open Text

/-! ## Reading map literals -/

/-- What a line of a map literal says and where: the characters before its key, its key, its value, and
the characters before its value. -/
structure MapLine where
  indent : Nat
  key : String
  value : String
  column : Nat
deriving DecidableEq

namespace MapLine

/-- A line is cut at its first colon; its value is followed by a comma. -/
def read? (line : List Char) : Option MapLine :=
  let before := line.takeWhile (· != ':')
  let after := (line.dropWhile (· != ':')).drop 1
  let value := trimmed after
  if value.getLast? = some ',' then
    some ⟨(before.takeWhile isBlank).length, String.ofList (trimmed before),
      String.ofList value.dropLast, before.length + 1 + (after.takeWhile isBlank).length⟩
  else none

/-- The key and the value. -/
def pair (line : MapLine) : String × String := (line.key, line.value)

/-- The keys stand in one column, the values in another one: one blank after the longest key and its
colon. -/
structure Aligned (indent : Nat) (lines : List MapLine) : Prop where
  keys : ∀ line ∈ lines, line.indent = indent
  values : ∀ line ∈ lines, ∀ other ∈ lines, line.column = other.column
  apart : ∀ line ∈ lines, indent + line.key.length + 2 ≤ line.column
  longest : lines ≠ [] → ∃ line ∈ lines, line.column = indent + line.key.length + 2

end MapLine

/-- The line gives a map literal to the target. -/
def opensMap (target : String) (line : List Char) : Bool :=
  (target ++ " = map[").toList.isPrefixOf (trimmed line)

/-- The lines of the map literals that are given to a target: those after a line that opens one, up to
a line with nothing but a brace. -/
def mapLiterals (target : String) : List (List Char) → List (List (List Char))
  | [] => []
  | line :: lines =>
    if opensMap target line then
      lines.takeWhile (fun l => trimmed l != ['\x7d']) :: mapLiterals target lines
    else mapLiterals target lines

/-- The map literals that a text gives to a target, as they are read. -/
def mapsOf? (target text : String) : Option (List (List MapLine)) :=
  (mapLiterals target (pieces '\n' text.toList)).mapM fun lines => lines.mapM MapLine.read?

namespace Template

/-! ## One line -/

/-- The character is no blank and none of those by which lines and entries are told apart. -/
def isPlain (c : Char) : Bool := !isBlank c && c != ':' && c != '='

/-- A text that stands for itself in a map literal. -/
structure IsWord (s : String) : Prop where
  nonempty : s.toList ≠ []
  plain : s.toList.all isPlain = true

theorem isPlain_of_isNamePart {c : Char} (h : isNamePart c = true) : isPlain c = true := by
  have colon : c ≠ ':' := by
    rintro rfl
    revert h
    decide
  have equals : c ≠ '=' := by
    rintro rfl
    revert h
    decide
  simp [isPlain, isBlank_of_isNamePart h, colon, equals]

section Words

variable {n : String} (hn : IsIdentifier n)
include hn

theorem isWord_identifier : IsWord n where
  nonempty empty := by
    have starts := hn.starts
    simp [empty] at starts
  plain := List.all_eq_true.mpr fun c hc => isPlain_of_isNamePart (List.all_eq_true.mp hn.parts c hc)

theorem isWord_quote : IsWord (quote n) where
  nonempty := by simp [quote]
  plain := by
    have quotes : "\"".toList.all isPlain = true := by decide
    simp only [quote, String.toList_append, List.all_append, quotes, (isWord_identifier hn).plain]
    rfl

theorem isWord_printed : IsWord (printed n) where
  nonempty := by simp [printed]
  plain := by
    have front : "interface\x7b\x7d(".toList.all isPlain = true := by decide
    have back : ").(fmt.Stringer).String()".toList.all isPlain = true := by decide
    simp only [printed, String.toList_append, List.all_append, front, back,
      (isWord_identifier hn).plain]
    rfl

end Words

theorem IsWord.not_isBlank {s : String} (h : IsWord s) {c : Char} (hc : c ∈ s.toList) :
    isBlank c = false := by
  have plain := List.all_eq_true.mp h.plain c hc
  simp only [isPlain, Bool.and_eq_true, Bool.not_eq_true'] at plain
  exact plain.1.1

/-- What is not plain is not in a word. -/
theorem IsWord.notMem {s : String} (h : IsWord s) {c : Char} (hc : isPlain c = false) :
    c ∉ s.toList := fun mem => by
  rw [List.all_eq_true.mp h.plain c mem] at hc
  cases hc

/-- The line of an entry, with a width for the key and its colon. -/
def mapLine (indent : String) (width : Nat) (entry : String × String) : String :=
  indent ++ padded width (entry.1 ++ ":") ++ " " ++ entry.2 ++ ","

theorem mapLine_toList (indent : String) (width : Nat) (entry : String × String) :
    (mapLine indent width entry).toList = indent.toList ++ entry.1.toList ++
      ':' :: (List.replicate (width - (entry.1.length + 1) + 1) ' ' ++ (entry.2.toList ++ [','])) := by
  simp [mapLine, padded, show ":".length = 1 from rfl, List.replicate_succ']

theorem takeWhile_of_allBlank {blanks text : List Char} (h : AllBlank blanks)
    (first : text.head?.any isBlank = false) : (blanks ++ text).takeWhile isBlank = blanks := by
  rw [List.takeWhile_append_of_pos h]
  cases text with
  | nil => simp
  | cons c text => simpa using first

theorem IsWord.head {s : String} (h : IsWord s) (rest : List Char) :
    (s.toList ++ rest).head?.any isBlank = false := by
  obtain ⟨c, text, eq⟩ := List.exists_cons_of_ne_nil h.nonempty
  simpa [eq] using h.not_isBlank (c := c) (by simp [eq])

theorem IsWord.getLast {s : String} (h : IsWord s) : s.toList.getLast?.any isBlank = false := by
  rw [List.getLast?_eq_some_getLast h.nonempty]
  exact h.not_isBlank (List.getLast_mem h.nonempty)

/-- The line of an entry says its key and its value, which stands after the width of the keys. -/
theorem read?_mapLine {indent : String} {width : Nat} {entry : String × String}
    (blank : AllBlank indent.toList) (key : IsWord entry.1) (value : IsWord entry.2)
    (fits : entry.1.length + 1 ≤ width) :
    MapLine.read? (mapLine indent width entry).toList
      = some ⟨indent.length, entry.1, entry.2, indent.length + width + 1⟩ := by
  obtain ⟨key_text, value_text⟩ := entry
  let before := indent.toList ++ key_text.toList
  let padding := List.replicate (width - (key_text.length + 1) + 1) ' '
  let item := value_text.toList ++ [',']
  have colon : ∀ c ∈ before, (c != ':') = true := by
    intro c hc
    obtain hc | hc := List.mem_append.mp hc
    · rw [bne_iff_ne]
      rintro rfl
      exact absurd (blank ':' hc) (by decide)
    · rw [bne_iff_ne]
      rintro rfl
      exact key.notMem (by decide) hc
  have text : (mapLine indent width (key_text, value_text)).toList = before ++ ':' :: (padding ++ item) :=
    mapLine_toList ..
  have front : (before ++ ':' :: (padding ++ item)).takeWhile (· != ':') = before := by
    rw [List.takeWhile_append_of_pos colon]
    simp
  have back : (before ++ ':' :: (padding ++ item)).dropWhile (· != ':') = ':' :: (padding ++ item) := by
    rw [List.dropWhile_append_of_pos colon]
    simp
  have padded : AllBlank padding := by
    intro c hc
    rw [List.eq_of_mem_replicate hc]
    rfl
  have key_trimmed : trimmed before = key_text.toList := by
    have head := key.head []
    rw [List.append_nil] at head
    simpa using trimmed_eq blank (List.forall_mem_nil _) head key.getLast key.nonempty
  have item_trimmed : trimmed (padding ++ item) = item := by
    have last : item.getLast?.any isBlank = false := by
      rw [List.getLast?_concat]
      rfl
    simpa using trimmed_eq padded (List.forall_mem_nil _) (value.head [',']) last (by simp)
  have key_blanks : before.takeWhile isBlank = indent.toList :=
    takeWhile_of_allBlank blank (by simpa using key.head [])
  have item_blanks : (padding ++ item).takeWhile isBlank = padding :=
    takeWhile_of_allBlank padded (value.head [','])
  simp only [MapLine.read?, text, front, back, List.drop_one, List.tail_cons, key_trimmed, item_trimmed,
    key_blanks, item_blanks]
  simp only [before, padding, item, List.length_append, String.length_toList, String.ofList_toList,
    List.length_replicate, List.getLast?_concat, List.dropLast_concat, if_true, Option.some.injEq,
    MapLine.mk.injEq, true_and]
  simp only at fits
  omega

example : MapLine.read? "\t\tGröße: \"Größe\",".toList = some ⟨2, "Größe", "\"Größe\"", 9⟩ := by decide

/-! ## The width of the keys -/

theorem le_foldl_widest (keys : List String) (width : Nat) :
    width ≤ keys.foldl (fun w k => max w k.length) width ∧
      (∀ key ∈ keys, key.length ≤ keys.foldl (fun w k => max w k.length) width) ∧
      (keys.foldl (fun w k => max w k.length) width = width ∨
        ∃ key ∈ keys, key.length = keys.foldl (fun w k => max w k.length) width) := by
  induction keys generalizing width with
  | nil => simp
  | cons key keys ih =>
    obtain ⟨start, all, found⟩ := ih (max width key.length)
    rw [List.foldl_cons]
    refine ⟨le_trans (le_max_left ..) start, ?_, ?_⟩
    · exact List.forall_mem_cons.mpr ⟨le_trans (le_max_right ..) start, all⟩
    · obtain same | ⟨longest, hlongest, same⟩ := found
      · rw [same]
        obtain less | more := le_total key.length width
        · exact .inl (max_eq_left less)
        · exact .inr ⟨key, List.mem_cons_self, (max_eq_right more).symm⟩
      · exact .inr ⟨longest, List.mem_cons_of_mem _ hlongest, same⟩

theorem length_le_widest {keys : List String} {key : String} (h : key ∈ keys) :
    key.length ≤ widest keys :=
  (le_foldl_widest keys 0).2.1 key h

theorem length_key_le {entries : List (String × String)} {entry : String × String}
    (h : entry ∈ entries) : entry.1.length ≤ widest (entries.map (·.1)) :=
  length_le_widest (List.mem_map.mpr ⟨entry, h, rfl⟩)

theorem exists_widest {keys : List String} (h : keys ≠ []) :
    ∃ key ∈ keys, key.length = widest keys := by
  obtain ⟨-, all, zero | found⟩ := le_foldl_widest keys 0
  · obtain ⟨key, rest, rfl⟩ := List.exists_cons_of_ne_nil h
    refine ⟨key, List.mem_cons_self, ?_⟩
    have := all key List.mem_cons_self
    unfold widest
    omega
  · exact found

/-! ## The lines of a literal -/

theorem mapLines_eq (indent : String) (entries : List (String × String)) :
    mapLines indent entries = entries.map (mapLine indent (widest (entries.map (·.1)) + 1)) := rfl

/-- The lines of a literal say its entries, with all values in one column. -/
def readLines (indent : Nat) (entries : List (String × String)) : List MapLine :=
  entries.map fun entry => ⟨indent, entry.1, entry.2, indent + widest (entries.map (·.1)) + 2⟩

theorem mapM_map_eq_some {α β γ : Type} {f : α → β} {g : β → Option γ} {h : α → γ} {l : List α}
    (each : ∀ a ∈ l, g (f a) = some (h a)) : (l.map f).mapM g = some (l.map h) := by
  induction l with
  | nil => rfl
  | cons a l ih =>
    rw [List.map_cons, List.mapM_cons, each a List.mem_cons_self,
      ih fun b hb => each b (List.mem_cons_of_mem _ hb)]
    rfl

theorem read?_mapLines {indent : String} {entries : List (String × String)}
    (blank : AllBlank indent.toList) (words : ∀ entry ∈ entries, IsWord entry.1 ∧ IsWord entry.2) :
    ((mapLines indent entries).map String.toList).mapM MapLine.read?
      = some (readLines indent.length entries) := by
  rw [mapLines_eq, List.map_map]
  refine mapM_map_eq_some fun entry hentry => ?_
  obtain ⟨key, value⟩ := words entry hentry
  exact read?_mapLine blank key value (Nat.succ_le_succ (length_key_le hentry))

theorem aligned_readLines (indent : Nat) (entries : List (String × String)) :
    MapLine.Aligned indent (readLines indent entries) where
  keys := List.forall_mem_map.mpr fun _ _ => rfl
  values := List.forall_mem_map.mpr fun _ _ => List.forall_mem_map.mpr fun _ _ => rfl
  apart := by
    refine List.forall_mem_map.mpr fun entry hentry => ?_
    have fits := length_key_le hentry
    dsimp only
    omega
  longest := by
    intro some
    have keys : entries.map (·.1) ≠ [] := by simpa [readLines] using some
    obtain ⟨key, hkey, longest⟩ := exists_widest keys
    obtain ⟨entry, hentry, rfl⟩ := List.mem_map.mp hkey
    refine ⟨_, List.mem_map_of_mem hentry, ?_⟩
    dsimp only
    rw [longest]

theorem pairs_readLines (indent : Nat) (entries : List (String × String)) :
    (readLines indent entries).map MapLine.pair = entries := by
  simp [readLines, MapLine.pair, Function.comp_def]

/-! ## Lines that open and close a literal -/

/-- The first character of the line that is not blank is no underscore. -/
def startsOtherwise (line : String) : Bool :=
  (line.toList.dropWhile isBlank).head?.any (· != '_')

/-- A line keeps its start with more text after it. -/
theorem startsOtherwise_append {line : String} (h : startsOtherwise line = true) (more : String) :
    startsOtherwise (line ++ more) = true := by
  obtain ⟨c, rest, eq⟩ : ∃ c rest, line.toList.dropWhile isBlank = c :: rest := by
    refine List.exists_cons_of_ne_nil fun empty => ?_
    simp [startsOtherwise, empty] at h
  rw [startsOtherwise, eq] at h
  rw [startsOtherwise, String.toList_append, List.dropWhile_append, eq]
  exact h

/-- The line opens no map literal for a target with an underscore in front: it gives nothing to a
variable, or it does not start with an underscore. -/
def Passes (line : String) : Prop :=
  '=' ∉ line.toList ∨ startsOtherwise line = true

theorem opensMap_iff {target : String} {line : List Char} :
    opensMap target line = true ↔ (target ++ " = map[").toList <+: trimmed line :=
  List.isPrefixOf_iff_prefix

theorem Passes.opensMap {line : String} (h : Passes line) (name : String) :
    opensMap ("_" ++ name) line.toList = false := by
  rw [← Bool.not_eq_true, opensMap_iff]
  intro start
  have front := trimmed_prefix line.toList
  have inner := start.trans front
  obtain noEquals | other := h
  · refine noEquals ((List.dropWhile_suffix isBlank).subset (inner.subset ?_))
    simp
  · obtain ⟨rest, eq⟩ := inner
    simp [startsOtherwise, ← eq] at other

theorem not_closes_of_colon {line : List Char} (h : ':' ∈ line) : trimmed line ≠ ['\x7d'] := by
  intro closes
  obtain ⟨left, right, blank, blank', eq⟩ := exists_trimmed line
  rw [eq, closes] at h
  have colon : ∀ blanks, AllBlank blanks → ':' ∉ blanks := fun blanks blank hc =>
    absurd (blank ':' hc) (by decide)
  simp [colon left blank, colon right blank'] at h

/-- The lines that give a map literal to a target. -/
def literalLines (indent target type : String) (entries : List (String × String)) : List String :=
  (indent ++ target ++ " = map[" ++ type ++ "\x7b") ::
    (mapLines (indent ++ "\t") entries ++ [indent ++ "\x7d"])

/-- Lines that open no map literal are passed over. -/
theorem mapLiterals_passes {name : String} {lines : List String} (h : ∀ line ∈ lines, Passes line)
    (more : List (List Char)) :
    mapLiterals ("_" ++ name) (lines.map String.toList ++ more) = mapLiterals ("_" ++ name) more := by
  induction lines with
  | nil => rfl
  | cons line lines ih =>
    obtain ⟨first, rest⟩ := List.forall_mem_cons.mp h
    rw [List.map_cons, List.cons_append, mapLiterals, first.opensMap name]
    exact ih rest

section Literal

variable {indent name type : String} {entries : List (String × String)}

/-- The first line of a literal opens one for its own target only. -/
theorem opensMap_literal (blank : AllBlank indent.toList) (other : String) :
    opensMap ("_" ++ other) (indent ++ ("_" ++ name) ++ " = map[" ++ type ++ "\x7b").toList = true ↔
      (other ++ " = map[").toList <+: (name ++ " = map[" ++ type ++ "\x7b").toList := by
  let core := ("_" ++ name ++ " = map[" ++ type).toList ++ ['\x7b']
  have first : core.head?.any isBlank = false := by
    have head : core.head? = some '_' := by simp [core]
    rw [head]
    rfl
  have last : core.getLast?.any isBlank = false := by
    rw [List.getLast?_concat]
    rfl
  have line : (indent ++ ("_" ++ name) ++ " = map[" ++ type ++ "\x7b").toList
      = indent.toList ++ core ++ [] := by
    simp [core]
  rw [opensMap_iff, line, trimmed_eq blank (List.forall_mem_nil _) first last (by simp [core])]
  simp [core]

theorem notMem_of_allBlank {text : List Char} (blank : AllBlank text) {c : Char}
    (h : isBlank c = false) : c ∉ text := fun hc => by
  rw [blank c hc] at h
  cases h

theorem passes_mapLines (blank : AllBlank indent.toList)
    (words : ∀ entry ∈ entries, IsWord entry.1 ∧ IsWord entry.2) :
    ∀ line ∈ mapLines indent entries, Passes line := by
  rw [mapLines_eq]
  refine List.forall_mem_map.mpr fun entry hentry => .inl ?_
  obtain ⟨key, value⟩ := words entry hentry
  have inKey : '=' ∉ entry.1.toList := key.notMem (by decide)
  have inValue : '=' ∉ entry.2.toList := value.notMem (by decide)
  rw [mapLine_toList]
  simp [notMem_of_allBlank blank (c := '=') rfl, inKey, inValue]

theorem not_closes_mapLines :
    ∀ line ∈ (mapLines indent entries).map String.toList, trimmed line ≠ ['\x7d'] := by
  rw [mapLines_eq, List.map_map]
  refine List.forall_mem_map.mpr fun entry hentry => not_closes_of_colon ?_
  rw [Function.comp_apply, mapLine_toList]
  simp

theorem trimmed_closing (blank : AllBlank indent.toList) :
    trimmed (indent ++ "\x7d").toList = ['\x7d'] := by
  have core := @trimmed_eq indent.toList ['\x7d'] [] blank (List.forall_mem_nil _) rfl rfl (by simp)
  simpa using core

variable (blank : AllBlank indent.toList)
  (words : ∀ entry ∈ entries, IsWord entry.1 ∧ IsWord entry.2) (more : List (List Char))
include blank words

/-- The lines of a literal after the first one open none. -/
theorem mapLiterals_body (other : String) :
    mapLiterals ("_" ++ other)
        ((mapLines (indent ++ "\t") entries ++ [indent ++ "\x7d"]).map String.toList ++ more)
      = mapLiterals ("_" ++ other) more := by
  refine mapLiterals_passes ?_ more
  have tab : AllBlank ['\t'] := List.forall_mem_singleton.mpr rfl
  have deeper : AllBlank (indent ++ "\t").toList := by
    rw [String.toList_append]
    exact blank.append tab
  rw [List.forall_mem_append, List.forall_mem_singleton]
  refine ⟨passes_mapLines deeper words, .inl ?_⟩
  simp [notMem_of_allBlank blank (c := '=') rfl]

/-- A literal is found for its own target. -/
theorem mapLiterals_own :
    mapLiterals ("_" ++ name) ((literalLines indent ("_" ++ name) type entries).map String.toList ++ more)
      = (mapLines (indent ++ "\t") entries).map String.toList :: mapLiterals ("_" ++ name) more := by
  have opens := (@opensMap_literal indent name type blank name).mpr (by simp)
  rw [literalLines, List.map_cons, List.cons_append, mapLiterals, if_pos opens,
    mapLiterals_body blank words more name]
  congr 1
  have closing : ¬ (trimmed (indent ++ "\x7d").toList != ['\x7d']) = true := by
    rw [trimmed_closing blank]
    decide
  rw [List.map_append, List.append_assoc, List.takeWhile_append_of_pos]
  · rw [List.map_singleton, List.singleton_append, List.takeWhile_cons, if_neg closing,
      List.append_nil]
  · exact fun line hline => bne_iff_ne.mpr (not_closes_mapLines line hline)

/-- A literal is not found for another target. -/
theorem mapLiterals_other {other : String}
    (apart : ¬ (other ++ " = map[").toList <+: (name ++ " = map[" ++ type ++ "\x7b").toList) :
    mapLiterals ("_" ++ other) ((literalLines indent ("_" ++ name) type entries).map String.toList ++ more)
      = mapLiterals ("_" ++ other) more := by
  rw [literalLines, List.map_cons, List.cons_append, mapLiterals,
    if_neg (mt (opensMap_literal blank other).mp apart)]
  exact mapLiterals_body blank words more other

end Literal

/-! ## The lines of a type -/

/-- The variable from names to values, without its underscore. -/
def toValueName (typeName : String) : String := typeName ++ "NameToValue"

/-- The variable from values to names, without its underscore. -/
def toNameName (typeName : String) : String := typeName ++ "ValueToName"

/-- The lines of a type from the first literal to the last one, and those around them. -/
theorem typeLines_eq (t : String) (names : List String) :
    typeLines ⟨t, names⟩ =
      ["var ("] ++
      literalLines "\t" ("_" ++ toValueName t) ("string]" ++ t) (names.map fun n => (quote n, n)) ++
      [""] ++
      literalLines "\t" ("_" ++ toNameName t) (t ++ "]string") (names.map fun n => (n, quote n)) ++
      [")", "", "func init() \x7b", "\tvar v " ++ t,
        "\tif _, ok := interface\x7b\x7d(v).(fmt.Stringer); ok \x7b"] ++
      literalLines "\t\t" ("_" ++ toValueName t) ("string]" ++ t)
        (names.map fun n => (printed n, n)) ++
      (["\t\x7d", "\x7d", ""] ++ marshalLines t ++ [""] ++ unmarshalLines t) := by
  have toValue : ∀ indent : String, indent ++ "_" ++ t ++ "NameToValue = map[string]" ++ t ++ "\x7b"
      = indent ++ ("_" ++ toValueName t) ++ " = map[" ++ ("string]" ++ t) ++ "\x7b" := fun indent =>
    String.toList_inj.mp (by simp [toValueName])
  have toName : "\t_" ++ t ++ "ValueToName = map[" ++ t ++ "]string\x7b"
      = "\t" ++ ("_" ++ toNameName t) ++ " = map[" ++ (t ++ "]string") ++ "\x7b" :=
    String.toList_inj.mp (by simp [toNameName])
  simp only [typeLines, mapsLines, initLines, literalLines, ← toValue, ← toName, List.append_assoc,
    List.cons_append, List.nil_append]
  rfl

theorem passes_marshalLines (t : String) : ∀ line ∈ marshalLines t, Passes line := by
  simp only [marshalLines, List.forall_mem_cons, List.not_mem_nil, false_implies, implies_true, and_true]
  refine ⟨?_, ?_, ?_, ?_, ?_, ?_, ?_, ?_, ?_, ?_, ?_⟩
  all_goals first
    | exact .inr (by decide)
    | exact .inr (startsOtherwise_append (startsOtherwise_append (by decide) t) _)

theorem passes_unmarshalLines (t : String) : ∀ line ∈ unmarshalLines t, Passes line := by
  simp only [unmarshalLines, List.forall_mem_cons, List.not_mem_nil, false_implies, implies_true,
    and_true]
  refine ⟨?_, ?_, ?_, ?_, ?_, ?_, ?_, ?_, ?_, ?_, ?_, ?_, ?_⟩
  all_goals first
    | exact .inr (by decide)
    | exact .inr (startsOtherwise_append (startsOtherwise_append (by decide) t) _)

/-- What stands between the map from values to names and the last literal. -/
theorem passes_initStart (t : String) :
    ∀ line ∈ [")", "", "func init() \x7b", "\tvar v " ++ t,
      "\tif _, ok := interface\x7b\x7d(v).(fmt.Stringer); ok \x7b"], Passes line := by
  simp only [List.forall_mem_cons, List.not_mem_nil, false_implies, implies_true, and_true]
  exact ⟨.inr (by decide), .inl (by decide), .inr (by decide),
    .inr (startsOtherwise_append (by decide) t), .inr (by decide)⟩

theorem passes_initEnd : ∀ line ∈ ["\t\x7d", "\x7d", ""], Passes line :=
  fun line hline => .inl (by revert line; decide)

theorem passes_start : ∀ line ∈ ["var ("], Passes line :=
  List.forall_mem_singleton.mpr (.inr (by decide))

theorem passes_empty : ∀ line ∈ [""], Passes line :=
  List.forall_mem_singleton.mpr (.inl (by decide))

section Names

variable {t : String} {names : List String} (identifiers : ∀ n ∈ names, IsIdentifier n)
include identifiers

theorem words_toValue : ∀ entry ∈ names.map fun n => (quote n, n), IsWord entry.1 ∧ IsWord entry.2 :=
  List.forall_mem_map.mpr fun n hn =>
    ⟨isWord_quote (identifiers n hn), isWord_identifier (identifiers n hn)⟩

theorem words_toName : ∀ entry ∈ names.map fun n => (n, quote n), IsWord entry.1 ∧ IsWord entry.2 :=
  List.forall_mem_map.mpr fun n hn =>
    ⟨isWord_identifier (identifiers n hn), isWord_quote (identifiers n hn)⟩

theorem words_printed : ∀ entry ∈ names.map fun n => (printed n, n), IsWord entry.1 ∧ IsWord entry.2 :=
  List.forall_mem_map.mpr fun n hn =>
    ⟨isWord_printed (identifiers n hn), isWord_identifier (identifiers n hn)⟩

/-- The first and the last literal are those of the variable from names to values. -/
theorem mapLiterals_toValue (more : List (List Char)) :
    mapLiterals ("_" ++ toValueName t) ((typeLines ⟨t, names⟩).map String.toList ++ more)
      = (mapLines "\t\t" (names.map fun n => (quote n, n))).map String.toList ::
        (mapLines "\t\t\t" (names.map fun n => (printed n, n))).map String.toList ::
        mapLiterals ("_" ++ toValueName t) more := by
  have tab : AllBlank "\t".toList := List.forall_mem_singleton.mpr rfl
  have tabs : AllBlank "\t\t".toList := tab.append tab
  have apart : ∀ type, ¬ (toValueName t ++ " = map[").toList
      <+: (toNameName t ++ " = map[" ++ type ++ "\x7b").toList := by
    simp [toValueName, toNameName]
  rw [typeLines_eq]
  simp only [List.map_append, List.append_assoc]
  rw [mapLiterals_passes passes_start, mapLiterals_own tab (words_toValue identifiers),
    mapLiterals_passes passes_empty, mapLiterals_other tab (words_toName identifiers) _ (apart _),
    mapLiterals_passes (passes_initStart t), mapLiterals_own tabs (words_printed identifiers),
    mapLiterals_passes passes_initEnd, mapLiterals_passes (passes_marshalLines t),
    mapLiterals_passes passes_empty, mapLiterals_passes (passes_unmarshalLines t)]
  rfl

theorem mapLiterals_toName (more : List (List Char)) :
    mapLiterals ("_" ++ toNameName t) ((typeLines ⟨t, names⟩).map String.toList ++ more)
      = (mapLines "\t\t" (names.map fun n => (n, quote n))).map String.toList ::
        mapLiterals ("_" ++ toNameName t) more := by
  have tab : AllBlank "\t".toList := List.forall_mem_singleton.mpr rfl
  have tabs : AllBlank "\t\t".toList := tab.append tab
  have apart : ∀ type, ¬ (toNameName t ++ " = map[").toList
      <+: (toValueName t ++ " = map[" ++ type ++ "\x7b").toList := by
    simp [toValueName, toNameName]
  rw [typeLines_eq]
  simp only [List.map_append, List.append_assoc]
  rw [mapLiterals_passes passes_start, mapLiterals_other tab (words_toValue identifiers) _ (apart _),
    mapLiterals_passes passes_empty, mapLiterals_own tab (words_toName identifiers),
    mapLiterals_passes (passes_initStart t),
    mapLiterals_other tabs (words_printed identifiers) _ (apart _),
    mapLiterals_passes passes_initEnd, mapLiterals_passes (passes_marshalLines t),
    mapLiterals_passes passes_empty, mapLiterals_passes (passes_unmarshalLines t)]
  rfl

end Names

/-! ## Texts -/

/-- The lines, each with a line feed. -/
def linesText (lines : List String) : String := String.join (lines.map (· ++ "\n"))

/-- A text is cut into its lines, and nothing after the last line feed. -/
theorem pieces_linesText {lines : List String} (h : ∀ line ∈ lines, '\n' ∉ line.toList) :
    pieces '\n' (linesText lines).toList = lines.map String.toList ++ [[]] := by
  induction lines with
  | nil => rfl
  | cons line lines ih =>
    obtain ⟨first, rest⟩ := List.forall_mem_cons.mp h
    have cut : (linesText (line :: lines)).toList = line.toList ++ '\n' :: (linesText lines).toList := by
      simp [linesText]
    rw [cut, pieces_append, pieces_of_notMem first, ih rest]
    rfl

theorem lineFeed_notMem_mapLines {indent : String} {entries : List (String × String)}
    (indented : '\n' ∉ indent.toList) (words : ∀ entry ∈ entries, IsWord entry.1 ∧ IsWord entry.2) :
    ∀ line ∈ mapLines indent entries, '\n' ∉ line.toList := by
  rw [mapLines_eq]
  refine List.forall_mem_map.mpr fun entry hentry => ?_
  obtain ⟨key, value⟩ := words entry hentry
  have inKey : '\n' ∉ entry.1.toList := key.notMem (by decide)
  have inValue : '\n' ∉ entry.2.toList := value.notMem (by decide)
  rw [mapLine_toList]
  simp [indented, inKey, inValue]

section LineFeeds

variable {t : String} (oneLine : '\n' ∉ t.toList)
include oneLine

theorem lineFeed_notMem_marshalLines : ∀ line ∈ marshalLines t, '\n' ∉ line.toList := by
  simp [marshalLines, oneLine]

theorem lineFeed_notMem_unmarshalLines : ∀ line ∈ unmarshalLines t, '\n' ∉ line.toList := by
  simp [unmarshalLines, oneLine]

theorem lineFeed_notMem_headLines {command : String} (command_oneLine : '\n' ∉ command.toList) :
    ∀ line ∈ headLines command t, '\n' ∉ line.toList := by
  simp [headLines, oneLine, command_oneLine]

theorem lineFeed_notMem_typeLines {names : List String} (identifiers : ∀ n ∈ names, IsIdentifier n) :
    ∀ line ∈ typeLines ⟨t, names⟩, '\n' ∉ line.toList := by
  have toValue := @lineFeed_notMem_mapLines "\t\t" _ (by decide) (words_toValue identifiers)
  have toName := @lineFeed_notMem_mapLines "\t\t" _ (by decide) (words_toName identifiers)
  have fromPrinted := @lineFeed_notMem_mapLines "\t\t\t" _ (by decide)
    (words_printed identifiers)
  have maps : ∀ line ∈ mapsLines t names, '\n' ∉ line.toList := by
    simp only [mapsLines, List.forall_mem_append]
    exact ⟨⟨⟨⟨by simp [oneLine], toValue⟩, by simp [oneLine]⟩, toName⟩, by simp⟩
  have init : ∀ line ∈ initLines t names, '\n' ∉ line.toList := by
    simp only [initLines, List.forall_mem_append]
    exact ⟨⟨by simp [oneLine], fromPrinted⟩, by simp⟩
  have empty : ∀ line ∈ [""], '\n' ∉ line.toList := by simp
  simp only [typeLines, List.forall_mem_append]
  exact ⟨⟨⟨⟨⟨⟨maps, empty⟩, init⟩, empty⟩, lineFeed_notMem_marshalLines oneLine⟩, empty⟩,
    lineFeed_notMem_unmarshalLines oneLine⟩

end LineFeeds

/-- The text of the lines of a type. -/
def typeText (e : EnumNames) : String := linesText (typeLines e)

/-- What is written for a type: its lines, or the file with this type alone, if the command and the name
of the package stay on their lines. -/
inductive IsTextOf (e : EnumNames) : String → Prop
  | lines : IsTextOf e (typeText e)
  | file {command packageName : String} (command_oneLine : '\n' ∉ command.toList)
      (packageName_oneLine : '\n' ∉ packageName.toList) :
      IsTextOf e (Generated.text ⟨command, packageName, [e]⟩)

theorem passes_headLines (command packageName : String) :
    ∀ line ∈ headLines command packageName ++ [""], Passes line := by
  simp only [headLines, List.forall_mem_append, List.forall_mem_cons, List.not_mem_nil, false_implies,
    implies_true, and_true]
  refine ⟨⟨.inr ?_, .inl (by decide), .inr ?_, ?_⟩, .inl (by decide)⟩
  · exact startsOtherwise_append (startsOtherwise_append (by decide) command) _
  · exact startsOtherwise_append (by decide) packageName
  · exact ⟨.inl (by decide), .inl (by decide), .inl (by decide), .inl (by decide), .inl (by decide),
      .inl (by decide)⟩

/-- Either text is the lines of the type, after lines that open no map literal. -/
theorem IsTextOf.exists_lines {e : EnumNames} {text : String} (h : IsTextOf e text) :
    ∃ front, text = linesText (front ++ typeLines e) ∧
      ∀ line ∈ front, Passes line ∧ '\n' ∉ line.toList := by
  cases h with
  | lines => exact ⟨[], rfl, List.forall_mem_nil _⟩
  | @file command packageName command_oneLine packageName_oneLine =>
    refine ⟨headLines command packageName ++ [""], ?_, fun line hline => ⟨?_, ?_⟩⟩
    · simp [Generated.text, Generated.lines, linesText]
    · exact passes_headLines command packageName line hline
    · obtain hline | hline := List.mem_append.mp hline
      · exact lineFeed_notMem_headLines packageName_oneLine command_oneLine line hline
      · simp [List.mem_singleton.mp hline]

section Names

variable {t : String} {names : List String} {text : String}
  (identifiers : ∀ n ∈ names, IsIdentifier n) (oneLine : '\n' ∉ t.toList)
  (written : IsTextOf ⟨t, names⟩ text)
include identifiers oneLine written

/-- The lines of a text that are looked at for map literals are those of the type. -/
theorem mapLiterals_text (name : String) :
    mapLiterals ("_" ++ name) (pieces '\n' text.toList)
      = mapLiterals ("_" ++ name) ((typeLines ⟨t, names⟩).map String.toList ++ [[]]) := by
  obtain ⟨front, rfl, hfront⟩ := written.exists_lines
  have lineFeeds : ∀ line ∈ front ++ typeLines ⟨t, names⟩, '\n' ∉ line.toList :=
    List.forall_mem_append.mpr ⟨fun line hline => (hfront line hline).2,
      lineFeed_notMem_typeLines oneLine identifiers⟩
  rw [pieces_linesText lineFeeds, List.map_append, List.append_assoc,
    mapLiterals_passes fun line hline => (hfront line hline).1]

theorem mapsOf?_toValue : mapsOf? ("_" ++ toValueName t) text
    = some [readLines 2 (names.map fun n => (quote n, n)),
        readLines 3 (names.map fun n => (printed n, n))] := by
  have tab : AllBlank ['\t'] := List.forall_mem_singleton.mpr rfl
  have quoted := @read?_mapLines "\t\t" _ (tab.append tab) (words_toValue identifiers)
  have printed := @read?_mapLines "\t\t\t" _ (tab.append (tab.append tab)) (words_printed identifiers)
  have last : mapLiterals ("_" ++ toValueName t) [[]] = [] := mapLiterals_passes passes_empty []
  rw [mapsOf?, mapLiterals_text identifiers oneLine written, mapLiterals_toValue identifiers, last,
    List.mapM_cons, List.mapM_cons, quoted, printed]
  rfl

theorem mapsOf?_toName : mapsOf? ("_" ++ toNameName t) text
    = some [readLines 2 (names.map fun n => (n, quote n))] := by
  have tab : AllBlank ['\t'] := List.forall_mem_singleton.mpr rfl
  have named := @read?_mapLines "\t\t" _ (tab.append tab) (words_toName identifiers)
  have last : mapLiterals ("_" ++ toNameName t) [[]] = [] := mapLiterals_passes passes_empty []
  rw [mapsOf?, mapLiterals_text identifiers oneLine written, mapLiterals_toName identifiers, last,
    List.mapM_cons, named]
  rfl

end Names

/-! ## Spellings of a name -/

theorem quote_injective : Function.Injective quote := fun n m same => by
  have texts := congrArg String.toList same
  exact String.toList_inj.mp (by simpa [quote] using texts)

theorem printed_injective : Function.Injective printed := fun n m same => by
  have texts := congrArg String.toList same
  exact String.toList_inj.mp (by simpa [printed] using texts)

/-- The texts that a map literal has for a name. -/
def spellings (n : String) : List String := [n, quote n, printed n]

/-- A name is none of the texts for another name. -/
theorem spellings_disjoint {n other : String} (hn : IsIdentifier n) (hother : IsIdentifier other)
    (apart : n ≠ other) : (spellings n).Disjoint (spellings other) := by
  have noQuote : ∀ {n}, IsIdentifier n → ∀ m, n ≠ quote m := fun hn m same => by
    have part := List.all_eq_true.mp hn.parts '"' (by simp [same, quote])
    revert part
    decide
  have noCall : ∀ {n}, IsIdentifier n → ∀ m, n ≠ printed m := fun hn m same => by
    have part := List.all_eq_true.mp hn.parts '(' (by simp [same, printed])
    revert part
    decide
  have quotedCall : ∀ n m, quote n ≠ printed m := fun n m same => by
    have texts := congrArg String.toList same
    simp [quote, printed] at texts
  simp only [spellings, List.disjoint_cons_left, List.mem_cons, List.not_mem_nil, or_false, not_or]
  exact ⟨⟨apart, noQuote hn other, noCall hn other⟩,
    ⟨(noQuote hother n).symm, quote_injective.ne apart, quotedCall n other⟩,
    ⟨(noCall hother n).symm, (quotedCall other n).symm, printed_injective.ne apart⟩,
    List.disjoint_nil_left _⟩

/-- The maps of a type say the names of its values, in order, in their three forms: the quoted name and
the name, the name and the quoted name, what the value prints and the name.  No key stands twice in a map,
the first two maps are inverse to each other, no other name is in them in any form, and the values of each
map stand in one column. -/
structure SayNames (names others : List String) (toValue toName fromPrinted : List MapLine) : Prop where
  toValue_pairs : toValue.map MapLine.pair = names.map fun n => (quote n, n)
  toName_pairs : toName.map MapLine.pair = names.map fun n => (n, quote n)
  printed_pairs : fromPrinted.map MapLine.pair = names.map fun n => (printed n, n)
  keys : ∀ lines ∈ [toValue, toName, fromPrinted], (lines.map (·.key)).Nodup
  inverse : ∀ key value, (key, value) ∈ toValue.map MapLine.pair ↔
    (value, key) ∈ toName.map MapLine.pair
  absent : ∀ lines ∈ [toValue, toName, fromPrinted], ∀ line ∈ lines, ∀ other ∈ others,
    line.key ∉ spellings other ∧ line.value ∉ spellings other
  toValue_aligned : MapLine.Aligned 2 toValue
  toName_aligned : MapLine.Aligned 2 toName
  printed_aligned : MapLine.Aligned 3 fromPrinted

theorem keys_readLines (indent : Nat) {names : List String} {key value : String → String}
    (nodup : names.Nodup) (injective : Function.Injective key) :
    ((readLines indent (names.map fun n => (key n, value n))).map (·.key)).Nodup := by
  have keys : (readLines indent (names.map fun n => (key n, value n))).map (·.key) = names.map key := by
    simp [readLines, Function.comp_def]
  rw [keys]
  exact nodup.map injective

theorem exists_name_of_readLines {indent : Nat} {names : List String} {key value : String → String}
    {line : MapLine} (h : line ∈ readLines indent (names.map fun n => (key n, value n))) :
    ∃ n ∈ names, line.key = key n ∧ line.value = value n := by
  obtain ⟨entry, hentry, rfl⟩ := List.mem_map.mp h
  obtain ⟨n, hn, rfl⟩ := List.mem_map.mp hentry
  exact ⟨n, hn, rfl, rfl⟩

theorem sayNames {names others : List String} (nodup : names.Nodup)
    (identifiers : ∀ n ∈ names, IsIdentifier n)
    (apart : ∀ other ∈ others, IsIdentifier other ∧ other ∉ names) :
    SayNames names others (readLines 2 (names.map fun n => (quote n, n)))
      (readLines 2 (names.map fun n => (n, quote n)))
      (readLines 3 (names.map fun n => (printed n, n))) where
  toValue_pairs := pairs_readLines ..
  toName_pairs := pairs_readLines ..
  printed_pairs := pairs_readLines ..
  keys := by
    simp only [List.forall_mem_cons, List.not_mem_nil, false_implies, implies_true, and_true]
    exact ⟨keys_readLines 2 nodup quote_injective, keys_readLines 2 nodup Function.injective_id,
      keys_readLines 3 nodup printed_injective⟩
  inverse key value := by
    rw [pairs_readLines, pairs_readLines]
    simp [and_comm]
  absent := by
    have absent : ∀ {n other}, n ∈ names → other ∈ others → ∀ s ∈ spellings n, s ∉ spellings other := by
      intro n other hn hother s hs
      obtain ⟨identifier, notName⟩ := apart other hother
      exact spellings_disjoint (identifiers n hn) identifier (fun same => notName (same ▸ hn)) hs
    simp only [List.forall_mem_cons, List.not_mem_nil, false_implies, implies_true, and_true]
    refine ⟨fun line hline other hother => ?_, fun line hline other hother => ?_,
      fun line hline other hother => ?_⟩
    all_goals
      obtain ⟨n, hn, key, value⟩ := exists_name_of_readLines hline
      rw [key, value]
      exact ⟨absent hn hother _ (by simp [spellings]), absent hn hother _ (by simp [spellings])⟩
  toValue_aligned := aligned_readLines ..
  toName_aligned := aligned_readLines ..
  printed_aligned := aligned_readLines ..

/-- A file goes on after its first types with the text of the next one. -/
theorem text_append_type (command packageName : String) (before after : List EnumNames) (e : EnumNames) :
    ∃ rest, Generated.text ⟨command, packageName, before ++ e :: after⟩
      = Generated.text ⟨command, packageName, before⟩ ++ "\n" ++ typeText e ++ rest := by
  have text : ∀ g : Generated, g.text = linesText g.lines := fun _ => rfl
  refine ⟨linesText (after.flatMap fun e => "" :: typeLines e), ?_⟩
  rw [text, text, typeText]
  simp [Generated.lines, linesText, String.append_assoc]

end Template

open Template

/-- **The maps of a value table can be read back.**  Where the constants have names of their own, which are
identifiers, and the name of the type stands on one line, the text for the table has two map literals for
the variable from names to values and one for the variable from values to names.  Read line by line, they
say the canonical names in the order of the table, each name once in each map; the maps of the package are
inverse to each other, no alias is in any of the maps, and the values of each map stand in one column, one
blank after the longest key and its colon. -/
theorem ValueTable.maps_of_text {constants : List ResolvedConstant}
    (distinct : (constants.map (·.name)).Nodup) (identifiers : ∀ c ∈ constants, IsIdentifier c.name)
    {typeName : String} (oneLine : '\n' ∉ typeName.toList) (kind : IntKind) (policy : AliasPolicy) :
    (∀ command packageName before after, ∃ rest,
      Generated.text ⟨command, packageName,
          before ++ (build typeName kind constants policy).enumNames :: after⟩
        = Generated.text ⟨command, packageName, before⟩ ++ "\n" ++
          typeText (build typeName kind constants policy).enumNames ++ rest) ∧
    ∃ toValue toName fromPrinted,
      (∀ text, IsTextOf (build typeName kind constants policy).enumNames text →
        mapsOf? ("_" ++ typeName ++ "NameToValue") text = some [toValue, fromPrinted] ∧
        mapsOf? ("_" ++ typeName ++ "ValueToName") text = some [toName]) ∧
      SayNames ((build typeName kind constants policy).pairs.map (·.1))
        ((build typeName kind constants policy).entries.flatMap (·.aliases))
        toValue toName fromPrinted := by
  have names : (build typeName kind constants policy).pairs.map (·.1)
      = (build typeName kind constants policy).entries.map (·.name) := by
    rw [pairs, List.map_map]
    rfl
  have known : ∀ e ∈ (build typeName kind constants policy).entries, ∀ name ∈ e.name :: e.aliases,
      IsIdentifier name := by
    intro e he name hname
    obtain ⟨c, hc, -, rfl⟩ := exists_constant_of_mem_build he hname
    exact identifiers c hc
  have canonical : ∀ name ∈ (build typeName kind constants policy).entries.map (·.name),
      IsIdentifier name :=
    List.forall_mem_map.mpr fun e he => known e he e.name List.mem_cons_self
  refine ⟨fun command packageName before after => text_append_type .., _, _, _, fun text written => ?_,
    sayNames ?_ ?_ ?_⟩
  · rw [enumNames, names] at written
    rw [String.append_assoc, String.append_assoc, names]
    exact ⟨mapsOf?_toValue canonical oneLine written, mapsOf?_toName canonical oneLine written⟩
  · rw [names]
    exact nodup_names_build distinct
  · rwa [names]
  · rw [names]
    refine List.forall_mem_flatMap.mpr fun e he other isAlias => ?_
    refine ⟨known e he other (List.mem_cons_of_mem _ isAlias), fun isName => ?_⟩
    obtain ⟨f, hf, rfl⟩ := List.mem_map.mp isName
    have value := (valueOf?_eq_some_iff distinct).mpr ⟨f, hf, rfl, rfl⟩
    rw [valueOf?_alias distinct he isAlias] at value
    cases value

/-- Two names for one value and a shorter name for another value. -/
def hueConstants : List ResolvedConstant := [⟨"Rot", 1, 0⟩, ⟨"Größe", 1, 1⟩, ⟨"Ok", 2, 2⟩]

theorem ValueTable.maps_of_text_hue :
    (hueConstants.map (·.name)).Nodup ∧ (∀ c ∈ hueConstants, IsIdentifier c.name) ∧
    '\n' ∉ "Tinte".toList ∧
    ∃ toValue toName fromPrinted,
      (∀ text, IsTextOf ⟨"Tinte", ["Größe", "Ok"]⟩ text →
        mapsOf? "_TinteNameToValue" text = some [toValue, fromPrinted] ∧
        mapsOf? "_TinteValueToName" text = some [toName]) ∧
      SayNames ["Größe", "Ok"] ["Rot"] toValue toName fromPrinted := by
  have distinct : (hueConstants.map (·.name)).Nodup := by decide
  have identifiers : ∀ c ∈ hueConstants, IsIdentifier c.name := by decide +kernel
  have oneLine : '\n' ∉ "Tinte".toList := by decide
  have table : build "Tinte" .int hueConstants .lexical
      = ⟨"Tinte", .int, [⟨"Größe", 1, ["Rot"]⟩, ⟨"Ok", 2, []⟩]⟩ := by cbv
  have read := (ValueTable.maps_of_text distinct identifiers oneLine .int .lexical).2
  rw [table] at read
  exact ⟨distinct, identifiers, oneLine, read⟩

end EnumCodec
