import EnumCodec.Package
import EnumCodec.Proofs.PrintedText
import EnumCodec.Proofs.SkippedParts
import EnumCodec.Template

/-!
# Generated text is read back as an empty source file

The lines of the template are printed from words and blanks (`Printed`); where the names in them are
identifiers, they are read back as these words, and all of their declarations are passed over.

* `Printed.text_eq` — the lines in words are the text of the template.
* `Printed.readable_fileLines` — no two words in them run together.
* `Printed.kinds_fileLines` — past the package clause, they are passed over.
* `Printed.ofText_generated` — a generated file declares nothing.
* `Printed.isBuildIgnored_generated` — it is not left out of builds.
-/

set_option autoImplicit false

namespace EnumCodec

open Text

/-! ## The template in words -/

namespace Printed

/-- A constant, asked to print itself. -/
def printed (name : String) : List Chunk :=
  [.keyword .kwInterface, .symbol .leftBrace, .symbol .rightBrace, .symbol .leftParen, .name name,
   .symbol .rightParen, .symbol .dot, .symbol .leftParen, .name "fmt", .symbol .dot,
   .name "Stringer", .symbol .rightParen, .symbol .dot, .name "String", .symbol .leftParen,
   .symbol .rightParen]

/-- An entry of a map literal: its key and its value, each as a text and in words. -/
structure MapEntry where
  key : String
  keyWords : List Chunk
  value : String
  valueWord : Chunk

/-- The line of a map entry; `width` is the width of the keys with their colons. -/
def mapLine (indent : String) (width : Nat) (e : MapEntry) : PrintedLine :=
  .words (.blanks indent :: e.keyWords ++
    [.symbol .colon,
     .blanks (String.ofList (List.replicate (width - (e.key.length + 1)) ' ' ++ [' '])),
     e.valueWord, .symbol .comma])

/-- The lines of a map literal. -/
def mapLines (indent : String) (entries : List MapEntry) : List PrintedLine :=
  entries.map (mapLine indent (Template.widest (entries.map (·.key)) + 1))

/-- The entry from a name to its value. -/
def toValue (n : String) : MapEntry := ⟨Template.quote n, [.string n], n, .name n⟩

/-- The entry from a value to its name. -/
def toName (n : String) : MapEntry := ⟨n, [.name n], Template.quote n, .string n⟩

/-- The entry from what a value prints to the value. -/
def fromPrinted (n : String) : MapEntry := ⟨Template.printed n, printed n, n, .name n⟩

/-- The line that opens a map literal. -/
def mapStart (indent t back key value : String) : PrintedLine :=
  .words [.blanks indent, .name ("_" ++ t ++ back), .blanks " ", .symbol .assign, .blanks " ",
    .keyword .kwMap, .symbol .leftBracket, .name key, .symbol .rightBracket, .name value,
    .symbol .leftBrace]

/-- A line with a closing brace. -/
def closed (indent : String) : PrintedLine := .words [.blanks indent, .symbol .rightBrace]

/-- The comment, the package clause and the imports. -/
def headLines (command packageName : String) : List PrintedLine :=
  [.comment (" Code generated by \"yamlenums " ++ command ++ "\"; DO NOT EDIT."),
   .words [],
   .words [.keyword .kwPackage, .blanks " ", .name packageName],
   .words [],
   .words [.keyword .kwImport, .blanks " ", .symbol .leftParen],
   .words [.blanks "\t", .string "fmt"],
   .words [],
   .words [.blanks "\t", .string "gopkg.in/yaml.v3"],
   .words [.symbol .rightParen]]

/-- The maps between the names of a type and its values. -/
def mapsLines (t : String) (names : List String) : List PrintedLine :=
  [.words [.keyword .kwVar, .blanks " ", .symbol .leftParen],
   mapStart "\t" t "NameToValue" "string" t] ++
  mapLines "\t\t" (names.map toValue) ++
  [closed "\t", .words [], mapStart "\t" t "ValueToName" t "string"] ++
  mapLines "\t\t" (names.map toName) ++
  [closed "\t", .words [.symbol .rightParen]]

/-- The function that fills the map from names anew if the values can print themselves. -/
def initLines (t : String) (names : List String) : List PrintedLine :=
  [.words [.keyword .kwFunc, .blanks " ", .name "init", .symbol .leftParen, .symbol .rightParen,
     .blanks " ", .symbol .leftBrace],
   .words [.blanks "\t", .keyword .kwVar, .blanks " ", .name "v", .blanks " ", .name t],
   .words [.blanks "\t", .keyword .kwIf, .blanks " ", .name "_", .symbol .comma, .blanks " ",
     .name "ok", .blanks " ", .symbol .define, .blanks " ", .keyword .kwInterface,
     .symbol .leftBrace, .symbol .rightBrace, .symbol .leftParen, .name "v", .symbol .rightParen,
     .symbol .dot, .symbol .leftParen, .name "fmt", .symbol .dot, .name "Stringer",
     .symbol .rightParen, .semicolon, .blanks " ", .name "ok", .blanks " ", .symbol .leftBrace],
   mapStart "\t\t" t "NameToValue" "string" t] ++
  mapLines "\t\t\t" (names.map fromPrinted) ++
  [closed "\t\t", closed "\t", .words [.symbol .rightBrace]]

def marshalLines (t : String) : List PrintedLine :=
  [.comment (" MarshalYAML is generated so " ++ t ++ " satisfies yaml.Marshaler."),
   .words [.keyword .kwFunc, .blanks " ", .symbol .leftParen, .name "r", .blanks " ", .name t,
     .symbol .rightParen, .blanks " ", .name "MarshalYAML", .symbol .leftParen, .symbol .rightParen,
     .blanks " ", .symbol .leftParen, .keyword .kwInterface, .symbol .leftBrace,
     .symbol .rightBrace, .symbol .comma, .blanks " ", .name "error", .symbol .rightParen,
     .blanks " ", .symbol .leftBrace],
   .words [.blanks "\t", .keyword .kwIf, .blanks " ", .name "s", .symbol .comma, .blanks " ",
     .name "ok", .blanks " ", .symbol .define, .blanks " ", .keyword .kwInterface,
     .symbol .leftBrace, .symbol .rightBrace, .symbol .leftParen, .name "r", .symbol .rightParen,
     .symbol .dot, .symbol .leftParen, .name "fmt", .symbol .dot, .name "Stringer",
     .symbol .rightParen, .semicolon, .blanks " ", .name "ok", .blanks " ", .symbol .leftBrace],
   .words [.blanks "\t\t", .keyword .kwReturn, .blanks " ", .name "s", .symbol .dot,
     .name "String", .symbol .leftParen, .symbol .rightParen, .symbol .comma, .blanks " ",
     .name "nil"],
   closed "\t",
   .words [.blanks "\t", .name "s", .symbol .comma, .blanks " ", .name "ok", .blanks " ",
     .symbol .define, .blanks " ", .name ("_" ++ t ++ "ValueToName"), .symbol .leftBracket,
     .name "r", .symbol .rightBracket],
   .words [.blanks "\t", .keyword .kwIf, .blanks " ", .symbol .bang, .name "ok", .blanks " ",
     .symbol .leftBrace],
   .words [.blanks "\t\t", .keyword .kwReturn, .blanks " ", .name "nil", .symbol .comma,
     .blanks " ", .name "fmt", .symbol .dot, .name "Errorf", .symbol .leftParen,
     .string ("invalid " ++ t ++ ": %d"), .symbol .comma, .blanks " ", .name "r",
     .symbol .rightParen],
   closed "\t",
   .words [.blanks "\t", .keyword .kwReturn, .blanks " ", .name "s", .symbol .comma, .blanks " ",
     .name "nil"],
   .words [.symbol .rightBrace]]

def unmarshalLines (t : String) : List PrintedLine :=
  [.comment (" UnmarshalYAML is generated so " ++ t ++ " satisfies yaml.Unmarshaler."),
   .words [.keyword .kwFunc, .blanks " ", .symbol .leftParen, .name "r", .blanks " ",
     .symbol .star, .name t, .symbol .rightParen, .blanks " ", .name "UnmarshalYAML",
     .symbol .leftParen, .name "value", .blanks " ", .symbol .star, .name "yaml", .symbol .dot,
     .name "Node", .symbol .rightParen, .blanks " ", .name "error", .blanks " ",
     .symbol .leftBrace],
   .words [.blanks "\t", .keyword .kwVar, .blanks " ", .name "s", .blanks " ", .name "string"],
   .words [.blanks "\t", .keyword .kwIf, .blanks " ", .name "err", .blanks " ", .symbol .define,
     .blanks " ", .name "value", .symbol .dot, .name "Decode", .symbol .leftParen,
     .symbol .ampersand, .name "s", .symbol .rightParen, .semicolon, .blanks " ", .name "err",
     .blanks " ", .symbol .notEqual, .blanks " ", .name "nil", .blanks " ", .symbol .leftBrace],
   .words [.blanks "\t\t", .keyword .kwReturn, .blanks " ", .name "fmt", .symbol .dot,
     .name "Errorf", .symbol .leftParen, .string (t ++ " should be a string, got %s"),
     .symbol .comma, .blanks " ", .name "value", .symbol .dot, .name "Value", .symbol .rightParen],
   closed "\t",
   .words [.blanks "\t", .name "v", .symbol .comma, .blanks " ", .name "ok", .blanks " ",
     .symbol .define, .blanks " ", .name ("_" ++ t ++ "NameToValue"), .symbol .leftBracket,
     .name "s", .symbol .rightBracket],
   .words [.blanks "\t", .keyword .kwIf, .blanks " ", .symbol .bang, .name "ok", .blanks " ",
     .symbol .leftBrace],
   .words [.blanks "\t\t", .keyword .kwReturn, .blanks " ", .name "fmt", .symbol .dot,
     .name "Errorf", .symbol .leftParen, .string ("invalid " ++ t ++ " %q"), .symbol .comma,
     .blanks " ", .name "s", .symbol .rightParen],
   closed "\t",
   .words [.blanks "\t", .symbol .star, .name "r", .blanks " ", .symbol .assign, .blanks " ",
     .name "v"],
   .words [.blanks "\t", .keyword .kwReturn, .blanks " ", .name "nil"],
   .words [.symbol .rightBrace]]

def typeLines (e : EnumNames) : List PrintedLine :=
  mapsLines e.typeName e.names ++ [.words []] ++ initLines e.typeName e.names ++ [.words []] ++
  marshalLines e.typeName ++ [.words []] ++ unmarshalLines e.typeName

/-! ## The same text -/

/-- The lines have the texts. -/
def Spell (texts : List String) (lines : List PrintedLine) : Prop :=
  texts.map String.toList = lines.map PrintedLine.text

theorem Spell.append {texts texts' : List String} {lines lines' : List PrintedLine}
    (h : Spell texts lines) (h' : Spell texts' lines') : Spell (texts ++ texts') (lines ++ lines') := by
  simp only [Spell, List.map_append] at *
  rw [h, h']

theorem spell_mapLines (indent : String) {entries : List MapEntry}
    (h : ∀ e ∈ entries, e.keyWords.flatMap Chunk.text = e.key.toList ∧
      e.valueWord.text = e.value.toList) :
    Spell (Template.mapLines indent (entries.map fun e => (e.key, e.value)))
      (mapLines indent entries) := by
  simp only [Spell, Template.mapLines, mapLines, List.map_map]
  refine List.map_congr_left fun e he => ?_
  obtain ⟨key, value⟩ := h e he
  have colon : (Chunk.symbol .colon).text = [':'] := rfl
  have comma : (Chunk.symbol .comma).text = [','] := rfl
  have blanks : ∀ s, (Chunk.blanks s).text = s.toList := fun _ => rfl
  simp [mapLine, Template.padded, PrintedLine.text, key, value, colon, comma, blanks,
    show ":".length = 1 from rfl, Function.comp_def]

section Spell

attribute [local simp] Spell PrintedLine.text Chunk.text Keyword.text Symbol.text closed

theorem spell_headLines (command packageName : String) :
    Spell (Template.headLines command packageName) (headLines command packageName) := by
  simp [Template.headLines, headLines]

theorem spell_toValue (indent : String) (names : List String) :
    Spell (Template.mapLines indent (names.map fun n => (Template.quote n, n)))
      (mapLines indent (names.map toValue)) := by
  have h := @spell_mapLines indent (names.map toValue) (by simp [toValue, Template.quote])
  rwa [List.map_map] at h

theorem spell_toName (indent : String) (names : List String) :
    Spell (Template.mapLines indent (names.map fun n => (n, Template.quote n)))
      (mapLines indent (names.map toName)) := by
  have h := @spell_mapLines indent (names.map toName) (by simp [toName, Template.quote])
  rwa [List.map_map] at h

theorem spell_fromPrinted (indent : String) (names : List String) :
    Spell (Template.mapLines indent (names.map fun n => (Template.printed n, n)))
      (mapLines indent (names.map fromPrinted)) := by
  have h := @spell_mapLines indent (names.map fromPrinted)
    (by simp [fromPrinted, printed, Template.printed])
  rwa [List.map_map] at h

theorem spell_mapsLines (t : String) (names : List String) :
    Spell (Template.mapsLines t names) (mapsLines t names) := by
  refine .append (.append (.append (.append ?_ (spell_toValue ..)) ?_) (spell_toName ..)) ?_
  all_goals simp [mapStart]

theorem spell_initLines (t : String) (names : List String) :
    Spell (Template.initLines t names) (initLines t names) := by
  refine .append (.append ?_ (spell_fromPrinted ..)) ?_
  all_goals simp [mapStart]

theorem spell_marshalLines (t : String) :
    Spell (Template.marshalLines t) (marshalLines t) := by
  simp [Template.marshalLines, marshalLines]

theorem spell_unmarshalLines (t : String) :
    Spell (Template.unmarshalLines t) (unmarshalLines t) := by
  simp [Template.unmarshalLines, unmarshalLines]

theorem spell_typeLines (e : EnumNames) : Spell (Template.typeLines e) (typeLines e) := by
  have blank : Spell [""] [.words []] := by simp
  exact .append (.append (.append (.append (.append (.append (spell_mapsLines ..) blank)
    (spell_initLines ..)) blank) (spell_marshalLines _)) blank) (spell_unmarshalLines _)

end Spell

/-- The lines of a generated file. -/
def fileLines (g : Generated) : List PrintedLine :=
  headLines g.command g.packageName ++ g.types.flatMap fun e => .words [] :: typeLines e

/-- **A generated file is printed from words and blanks.** -/
theorem text_eq (g : Generated) :
    g.text.toList = (fileLines g).flatMap fun line => line.text ++ ['\n'] := by
  have types : Spell (g.types.flatMap fun e => "" :: Template.typeLines e)
      (g.types.flatMap fun e => .words [] :: typeLines e) := by
    induction g.types with
    | nil => rfl
    | cons e types ih =>
      rw [List.flatMap_cons, List.flatMap_cons]
      refine .append ?_ ih
      simpa [Spell, PrintedLine.text] using spell_typeLines e
  have lines : Spell g.lines (fileLines g) := .append (spell_headLines ..) types
  have joined : g.text.toList = g.lines.flatMap fun s => s.toList ++ ['\n'] := by
    simp [Generated.text, List.flatMap_map]
  rw [joined, ← List.flatMap_map String.toList (· ++ ['\n']), show _ = _ from lines,
    List.flatMap_map]

/-! ## The words can be read back -/

/-- Whether no two chunks of the line run together. -/
def fits : PrintedLine → Bool
  | .comment _ => true
  | .words chunks => Chunk.allFit chunks

theorem fits_mapLines (indent : String) {entries : List MapEntry}
    (h : ∀ e ∈ entries, ∀ width, fits (mapLine indent width e) = true) :
    (mapLines indent entries).all fits = true := by
  simp only [mapLines, List.all_map, List.all_eq_true]
  exact fun e he => h e he _

theorem fits_toValue (indent : String) (names : List String) :
    (mapLines indent (names.map toValue)).all fits = true :=
  fits_mapLines indent (List.forall_mem_map.mpr fun _ _ _ => rfl)

theorem fits_toName (indent : String) (names : List String) :
    (mapLines indent (names.map toName)).all fits = true :=
  fits_mapLines indent (List.forall_mem_map.mpr fun _ _ _ => rfl)

theorem fits_fromPrinted (indent : String) (names : List String) :
    (mapLines indent (names.map fromPrinted)).all fits = true :=
  fits_mapLines indent (List.forall_mem_map.mpr fun _ _ _ => rfl)

theorem fits_typeLines (e : EnumNames) : (typeLines e).all fits = true := by
  simp only [typeLines, mapsLines, initLines, List.all_append, fits_toValue, fits_toName,
    fits_fromPrinted, Bool.and_true]
  rfl

theorem fits_fileLines (g : Generated) : (fileLines g).all fits = true := by
  rw [fileLines, List.all_append, List.all_flatMap]
  have types : g.types.all (fun e => (PrintedLine.words [] :: typeLines e).all fits) = true := by
    simp only [List.all_cons, fits_typeLines, List.all_eq_true]
    exact fun _ _ => rfl
  rw [types]
  rfl

/-- The names that the template itself uses. -/
def ownNames : List String :=
  ["string", "init", "v", "_", "ok", "fmt", "Stringer", "String", "r", "MarshalYAML", "error", "s",
   "nil", "Errorf", "UnmarshalYAML", "value", "yaml", "Node", "err", "Decode", "Value"]

theorem isIdentifier_ownNames : ∀ n ∈ ownNames, IsIdentifier n := by decide

theorem sound_name {n : String} (h : ownNames.contains n = true) : (Chunk.name n).Sound :=
  isIdentifier_ownNames n (List.contains_iff_mem.mp h)

theorem sound_symbol {s : Symbol} (h : s ≠ .operatorAssign) : (Chunk.symbol s).Sound := by
  cases s <;> first | exact absurd rfl h | (change (_, _) ∈ Symbol.spellings; decide)

theorem sound_keyword (k : Keyword) : (Chunk.keyword k).Sound := trivial

theorem sound_semicolon : Chunk.semicolon.Sound := trivial

/-- What the template puts before the first word of a line and between two words. -/
def ownBlanks : List String := [" ", "\t", "\t\t", "\t\t\t"]

theorem sound_blanks {b : String} (h : ownBlanks.contains b = true) : (Chunk.blanks b).Sound := by
  simp only [ownBlanks, List.contains_cons, List.contains_nil, Bool.or_eq_true, beq_iff_eq,
    Bool.false_eq_true, or_false] at h
  rcases h with rfl | rfl | rfl | rfl <;> simp [Chunk.Sound]

/-- What the template itself writes between quotes. -/
def ownStrings : List String :=
  ["fmt", "gopkg.in/yaml.v3", "invalid ", ": %d", " should be a string, got %s", " %q"]

theorem sound_ownString {s : String} (h : ownStrings.contains s = true) :
    (Chunk.string s).Sound := by
  simp only [ownStrings, List.contains_cons, List.contains_nil, Bool.or_eq_true, beq_iff_eq,
    Bool.false_eq_true, or_false] at h
  rcases h with rfl | rfl | rfl | rfl | rfl | rfl <;> simp [Chunk.Sound]

theorem sound_string_append {s s' : String} :
    (Chunk.string (s ++ s')).Sound ↔ (Chunk.string s).Sound ∧ (Chunk.string s').Sound := by
  simp only [Chunk.Sound, String.toList_append, List.forall_mem_append]

/-- All chunks of the line are what they are said to be. -/
def Sound : PrintedLine → Prop
  | .comment body => '\n' ∉ body.toList
  | .words chunks => ∀ c ∈ chunks, c.Sound

theorem sound_mapLines {indent : String} (h : ownBlanks.contains indent = true)
    {entries : List MapEntry}
    (sound : ∀ e ∈ entries, (∀ c ∈ e.keyWords, c.Sound) ∧ e.valueWord.Sound) :
    ∀ line ∈ mapLines indent entries, Sound line := by
  refine List.forall_mem_map.mpr fun e he => ?_
  obtain ⟨key, value⟩ := sound e he
  have gap : ∀ k, (Chunk.blanks (String.ofList (List.replicate k ' ' ++ [' ']))).Sound := by
    intro k
    constructor
    · intro empty
      have := congrArg String.toList empty
      simp at this
    · simp only [String.toList_ofList, List.mem_append, List.mem_replicate, List.mem_singleton]
      rintro c (⟨-, rfl⟩ | rfl) <;> exact .inl rfl
  simp only [mapLine, Sound, List.mem_cons, List.mem_append, List.not_mem_nil, or_false]
  rintro c ((rfl | inKey) | rfl | rfl | rfl | rfl)
  · exact sound_blanks h
  · exact key c inKey
  · exact sound_symbol (by decide)
  · exact gap _
  · exact value
  · exact sound_symbol (by decide)

section Names

variable {t : String} (ht : IsIdentifier t)

include ht

/-- No part of a name ends a string or a line. -/
theorem sound_string : (Chunk.string t).Sound := by
  intro c hc
  have part := List.all_eq_true.mp ht.parts c hc
  refine ⟨?_, ?_, ?_⟩ <;> rintro rfl <;> revert part <;> decide

theorem lineFeed_notMem : '\n' ∉ t.toList := fun mem => (sound_string ht _ mem).2.2 rfl

/-- A name goes on as one with an underscore before it and parts of names after it. -/
theorem isIdentifier_around {back : String} (hback : back.toList.all isNamePart = true) :
    IsIdentifier ("_" ++ t ++ back) where
  starts := by simp [isNameStart]
  parts := by
    simp only [String.toList_append, List.all_append, ht.parts, hback, Bool.and_true]
    decide
  unreserved := by
    -- no reserved word starts with an underscore
    rw [Keyword.ofText?, List.find?_eq_none]
    intro k _ same
    have head : k.text.toList.head? = some '_' := by
      rw [eq_of_beq same]
      simp
    cases k <;> exact absurd head (by decide)

theorem sound_nameToValue : (Chunk.name ("_" ++ t ++ "NameToValue")).Sound :=
  isIdentifier_around ht (by decide)

theorem sound_valueToName : (Chunk.name ("_" ++ t ++ "ValueToName")).Sound :=
  isIdentifier_around ht (by decide)

theorem sound_self : (Chunk.name t).Sound := ht

theorem sound_headLines {command : String} (hcommand : '\n' ∉ command.toList) :
    ∀ line ∈ headLines command t, Sound line := by
  simp [headLines, Sound, hcommand, sound_self ht, sound_keyword, sound_blanks, ownBlanks,
    sound_symbol, sound_ownString, ownStrings]

theorem sound_marshalLines : ∀ line ∈ marshalLines t, Sound line := by
  simp [marshalLines, closed, Sound, sound_self ht, sound_valueToName ht, sound_keyword,
    sound_semicolon, sound_blanks, ownBlanks, sound_symbol, sound_name, ownNames,
    lineFeed_notMem ht, sound_string_append, sound_ownString, ownStrings, sound_string ht]

theorem sound_unmarshalLines : ∀ line ∈ unmarshalLines t, Sound line := by
  simp [unmarshalLines, closed, Sound, sound_self ht, sound_nameToValue ht, sound_keyword,
    sound_semicolon, sound_blanks, ownBlanks, sound_symbol, sound_name, ownNames,
    lineFeed_notMem ht, sound_string_append, sound_ownString, ownStrings, sound_string ht]

variable {names : List String} (hnames : ∀ n ∈ names, IsIdentifier n)

include hnames

theorem sound_mapsLines : ∀ line ∈ mapsLines t names, Sound line := by
  have values : ∀ line ∈ mapLines "\t\t" (names.map toValue), Sound line :=
    sound_mapLines rfl (List.forall_mem_map.mpr fun n hn =>
      ⟨List.forall_mem_singleton.mpr (sound_string (hnames n hn)), hnames n hn⟩)
  have back : ∀ line ∈ mapLines "\t\t" (names.map toName), Sound line :=
    sound_mapLines rfl (List.forall_mem_map.mpr fun n hn =>
      ⟨List.forall_mem_singleton.mpr (hnames n hn), sound_string (hnames n hn)⟩)
  simp only [mapsLines, List.forall_mem_append]
  refine ⟨⟨⟨⟨?_, values⟩, ?_⟩, back⟩, ?_⟩
  all_goals
    simp [mapStart, closed, Sound, sound_self ht, sound_nameToValue ht, sound_valueToName ht,
      sound_keyword, sound_blanks, ownBlanks, sound_symbol, sound_name, ownNames]

theorem sound_initLines : ∀ line ∈ initLines t names, Sound line := by
  have entries : ∀ line ∈ mapLines "\t\t\t" (names.map fromPrinted), Sound line :=
    sound_mapLines rfl (List.forall_mem_map.mpr fun n hn => by
      refine ⟨?_, hnames n hn⟩
      simp [fromPrinted, printed, sound_self (hnames n hn), sound_keyword, sound_symbol,
        sound_name, ownNames])
  simp only [initLines, List.forall_mem_append]
  refine ⟨⟨?_, entries⟩, ?_⟩
  all_goals
    simp [mapStart, closed, Sound, sound_self ht, sound_nameToValue ht, sound_keyword,
      sound_semicolon, sound_blanks, ownBlanks, sound_symbol, sound_name, ownNames]

theorem sound_typeLines : ∀ line ∈ typeLines ⟨t, names⟩, Sound line := by
  have blank : ∀ line ∈ [PrintedLine.words []], Sound line := by simp [Sound]
  simp only [typeLines, List.forall_mem_append]
  exact ⟨⟨⟨⟨⟨⟨sound_mapsLines ht hnames, blank⟩, sound_initLines ht hnames⟩, blank⟩,
    sound_marshalLines ht⟩, blank⟩, sound_unmarshalLines ht⟩

end Names

/-- The lines can be read back if what the template is filled with are identifiers, and the command
stays on its line. -/
theorem readable_fileLines {g : Generated} (command : '\n' ∉ g.command.toList)
    (package : IsIdentifier g.packageName)
    (types : ∀ e ∈ g.types, IsIdentifier e.typeName ∧ ∀ n ∈ e.names, IsIdentifier n) :
    ∀ line ∈ fileLines g, line.Readable := by
  have sound : ∀ line ∈ fileLines g, Sound line := by
    rw [fileLines, List.forall_mem_append, List.forall_mem_flatMap]
    refine ⟨sound_headLines package command, fun e he => ?_⟩
    obtain ⟨typeName, names⟩ := types e he
    exact List.forall_mem_cons.mpr ⟨by simp [Sound], sound_typeLines typeName names⟩
  have fits := List.all_eq_true.mp (fits_fileLines g)
  intro line hline
  cases line with
  | comment body => exact sound _ hline
  | words chunks => exact ⟨sound _ hline, fits _ hline⟩

/-! ## The words are passed over -/

theorem passOver_lines {level : Level} {lines : List PrintedLine}
    (h : ∀ line ∈ lines, passOver level line.kinds = some level) :
    passOver level (lines.flatMap PrintedLine.kinds) = some level := by
  induction lines with
  | nil => rfl
  | cons first lines ih =>
    exact passOver_trans (h first List.mem_cons_self)
      (ih fun line hline => h line (List.mem_cons_of_mem _ hline))

theorem passOver_mapsLines (t : String) (names : List String) :
    passOver .top ((mapsLines t names).flatMap PrintedLine.kinds) = some .top := by
  have values : passOver (.inside 2)
      ((mapLines "\t\t" (names.map toValue)).flatMap PrintedLine.kinds) = some (.inside 2) :=
    passOver_lines (by simp only [mapLines, List.forall_mem_map]; exact fun _ _ => rfl)
  have back : passOver (.inside 2)
      ((mapLines "\t\t" (names.map toName)).flatMap PrintedLine.kinds) = some (.inside 2) :=
    passOver_lines (by simp only [mapLines, List.forall_mem_map]; exact fun _ _ => rfl)
  simp only [mapsLines, List.flatMap_append]
  refine passOver_trans (passOver_trans (passOver_trans (passOver_trans ?_ values) ?_) back) ?_
  all_goals rfl

theorem passOver_initLines (t : String) (names : List String) :
    passOver .top ((initLines t names).flatMap PrintedLine.kinds) = some .top := by
  have entries : passOver (.inside 3)
      ((mapLines "\t\t\t" (names.map fromPrinted)).flatMap PrintedLine.kinds)
        = some (.inside 3) :=
    passOver_lines (by simp only [mapLines, List.forall_mem_map]; exact fun _ _ => rfl)
  simp only [initLines, List.flatMap_append]
  refine passOver_trans (passOver_trans ?_ entries) ?_
  all_goals rfl

theorem passOver_typeLines (e : EnumNames) :
    passOver .top ((typeLines e).flatMap PrintedLine.kinds) = some .top := by
  have blank : passOver .top ([PrintedLine.words []].flatMap PrintedLine.kinds) = some .top := rfl
  have marshal : passOver .top ((marshalLines e.typeName).flatMap PrintedLine.kinds) = some .top :=
    rfl
  have unmarshal :
      passOver .top ((unmarshalLines e.typeName).flatMap PrintedLine.kinds) = some .top := rfl
  simp only [typeLines, List.flatMap_append]
  exact passOver_trans (passOver_trans (passOver_trans (passOver_trans (passOver_trans
    (passOver_trans (passOver_mapsLines ..) blank) (passOver_initLines ..)) blank) marshal) blank)
    unmarshal

/-- After its package clause a generated file holds only what is passed over. -/
theorem kinds_fileLines (g : Generated) :
    ∃ kinds, (fileLines g).flatMap PrintedLine.kinds
        = .keyword .kwPackage :: .name g.packageName :: .semicolon :: kinds ∧
      passOver .top kinds = some .top := by
  have types : passOver .top ((g.types.flatMap fun e => .words [] :: typeLines e).flatMap
      PrintedLine.kinds) = some .top := by
    induction g.types with
    | nil => rfl
    | cons e types ih =>
      rw [List.flatMap_cons, List.flatMap_append]
      exact passOver_trans (passOver_typeLines e) ih
  have imports : passOver .top (((headLines g.command g.packageName).drop 4).flatMap
      PrintedLine.kinds) = some .top := rfl
  refine ⟨_, ?_, passOver_trans imports types⟩
  rw [fileLines, List.flatMap_append]
  rfl

/-! ## The file that is read back -/

/-- A generated file starts with a comment line, an empty line and the package clause. -/
theorem text_start (g : Generated) : ∃ body rest,
    ('\n' ∉ g.command.toList → '\n' ∉ body) ∧
    g.text.toList = ('/' :: ('/' :: ' ' :: 'C' :: body ++ ['.'])) ++ '\n' :: ([] ++ '\n' ::
      ("package ".toList ++ g.packageName.toList ++ '\n' :: rest)) := by
  refine ⟨"ode generated by \"yamlenums ".toList ++ g.command.toList ++ "\"; DO NOT EDIT".toList,
    ((fileLines g).drop 3).flatMap fun line => line.text ++ ['\n'], fun h => by simp [h], ?_⟩
  rw [text_eq]
  simp [fileLines, headLines, PrintedLine.text, Chunk.text, Keyword.text]

/-- The tokens of a generated file are those of its lines. -/
theorem scan_text {g : Generated} (readable : ∀ line ∈ fileLines g, line.Readable) :
    ∃ ts, scan g.text = .ok ts ∧
      ts.map Token.kind = (fileLines g).flatMap PrintedLine.kinds ++ [.endOfText] := by
  have reads : Reads false g.text.toList
      ((fileLines g).flatMap PrintedLine.kinds ++ [.endOfText]) := by
    have h := Reads.lines readable Reads.endOfText
    rwa [List.append_nil, ← text_eq] at h
  obtain ⟨body, rest, -, start⟩ := text_start g
  obtain ⟨ts, tokens, kinds⟩ := reads Pos.start
  refine ⟨ts, ?_, kinds⟩
  rw [scan, show Scanner.ofText g.text.toList = ⟨g.text.toList, Pos.start, false⟩ by
    rw [start]; rfl]
  exact tokens

/-- **A generated file declares nothing**, but belongs to its package. -/
theorem ofText_generated {g : Generated} (command : '\n' ∉ g.command.toList)
    (package : IsIdentifier g.packageName) (named : g.packageName ≠ blankName)
    (types : ∀ e ∈ g.types, IsIdentifier e.typeName ∧ ∀ n ∈ e.names, IsIdentifier n)
    (path : String) :
    ∃ pos, SourceFile.ofText path g.text = .ok ⟨path, ⟨g.packageName, pos⟩, [], []⟩ := by
  obtain ⟨ts, scanned, kinds⟩ := scan_text (readable_fileLines command package types)
  obtain ⟨after, eq, passed⟩ := kinds_fileLines g
  rw [eq] at kinds
  obtain ⟨pos, read⟩ := @readFile_passedOver path _ _ _ named passed kinds
  exact ⟨pos, by simp only [SourceFile.ofText, scanned, read]⟩

/-- A generated file is built: no line before its package clause says otherwise. -/
theorem isBuildIgnored_generated {g : Generated} (command : '\n' ∉ g.command.toList)
    (package : IsIdentifier g.packageName) : isBuildIgnored g.text = false := by
  obtain ⟨body, rest, feed, start⟩ := text_start g
  have first : '\n' ∉ '/' :: ('/' :: ' ' :: 'C' :: body ++ ['.']) := by simp [feed command]
  have third : '\n' ∉ "package ".toList ++ g.packageName.toList := by
    simp [lineFeed_notMem package]
  obtain ⟨front, last, name⟩ : ∃ front last, g.packageName.toList = front ++ [last] := by
    refine ⟨_, _, (List.dropLast_append_getLast fun empty => ?_).symm⟩
    have := package.starts
    simp [empty] at this
  have end_ : isBlank last = false :=
    isBlank_of_isNamePart (List.all_eq_true.mp package.parts last (by simp [name]))
  have clause : trimmed ("package ".toList ++ g.packageName.toList)
      = "package ".toList ++ g.packageName.toList := by
    rw [name]
    exact @trimmed_eq_self 'p' last ("ackage ".toList ++ front) (by decide) end_
  have comment : trimmed ('/' :: ('/' :: ' ' :: 'C' :: body ++ ['.']))
      = '/' :: ('/' :: ' ' :: 'C' :: body ++ ['.']) :=
    trimmed_eq_self (by decide) (by decide)
  have empty : trimmed [] = [] := rfl
  rw [isBuildIgnored, start, pieces_append, pieces_append, pieces_append, pieces_of_notMem first,
    pieces_of_notMem third]
  simp only [List.singleton_append, pieces, isIgnoredIn, comment, empty, clause]
  rfl

end Printed

end EnumCodec
