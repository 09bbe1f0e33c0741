import EnumCodec.Proofs.DeclaredConstants
import EnumCodec.Proofs.FileParts
import EnumCodec.Proofs.TextLayout

/-!
# The places of the names in a file

* `Pos.Before` — the order of places; `Pos.before_advance` — text leads to a later place.
* `scan_idents_before` — each name in a text stands after those before it.
* `SourceFile.names_sublist` — the names that the lines of constants in a file have, in the order of the
  lines, are names among its tokens, in the order of the text: none is moved.
* `SourceFile.declarations_before` — so the declarations of a file are listed as they stand in its text.
-/

set_option autoImplicit false

namespace EnumCodec

/-! ## The order of places -/

namespace Pos

/-- A place comes before another one: on an earlier line, or further left on the same line. -/
def Before (p q : Pos) : Prop := p.line < q.line ∨ p.line = q.line ∧ p.column < q.column

theorem Before.trans {p q r : Pos} (h : p.Before q) (h' : q.Before r) : p.Before r := by
  unfold Before at *
  omega

theorem before_step (p : Pos) (c : Char) : p.Before (p.step c) := by
  unfold step Before
  split <;> simp

theorem before_advance (p : Pos) {text : List Char} (h : text ≠ []) : p.Before (p.advance text) := by
  induction text using List.reverseRecOn with
  | nil => exact absurd rfl h
  | append_singleton text c ih =>
    rw [advance_append]
    by_cases ht : text = []
    · subst ht
      exact before_step p c
    · exact (ih ht).trans (before_step _ c)

end Pos

/-! ## Names among tokens -/

/-- The name that a token is, at its place. -/
def Token.ident? (t : Token) : Option Ident :=
  match t.kind with
  | .name s => some ⟨s, t.pos⟩
  | _ => none

/-- The names among tokens. -/
def identsIn (ts : List Token) : List Ident := ts.filterMap Token.ident?

theorem identsIn_append (ts us : List Token) : identsIn (ts ++ us) = identsIn ts ++ identsIn us :=
  List.filterMap_append

theorem identsIn_sublist {ts us : List Token} (h : ts.Sublist us) :
    (identsIn ts).Sublist (identsIn us) :=
  h.filterMap _

namespace Laid

variable {pos : Pos} {pending : Bool} {ends : List Token} {pieces : List Piece}
  {tail : List (List Char)}

theorem exists_advance (h : Laid pos pending ends pieces tail) {p : Piece} (hp : p ∈ pieces) :
    ∃ text, p.word.pos = pos.advance text := by
  induction pieces generalizing pos pending ends with
  | nil => cases hp
  | cons q pieces ih =>
    obtain ⟨-, ⟨c, text, l, -, hword, -⟩, hmore⟩ := h
    obtain rfl | hp := List.mem_cons.mp hp
    · exact ⟨p.gap.flatten, by rw [hword]⟩
    · obtain ⟨text, hpos⟩ := ih hmore hp
      exact ⟨q.text ++ text, by rw [hpos, Pos.advance_append]⟩

/-- A word comes after all of the word before it, and a word has characters. -/
theorem words_before (h : Laid pos pending ends pieces tail) :
    pieces.Pairwise fun p q => p.word.pos.Before q.word.pos := by
  induction pieces generalizing pos pending ends with
  | nil => exact .nil
  | cons p pieces ih =>
    obtain ⟨-, ⟨c, text, l, hread, hword, -⟩, hmore⟩ := h
    refine .cons (fun q hq => ?_) (ih hmore)
    obtain ⟨text, hpos⟩ := hmore.exists_advance hq
    have hplace : q.word.pos = p.word.pos.advance (l.text ++ text) := by
      rw [hpos, Piece.text, hword, Pos.advance_append, Pos.advance_append]
    rw [hplace]
    refine Pos.before_advance _ fun hnil => ?_
    exact Lexeme.read_nonempty hread (List.append_eq_nil_iff.mp hnil).1

end Laid

/-- No name stands where a statement end is implied. -/
theorem identsIn_pieces {pieces : List Piece} (h : ∀ p ∈ pieces, ∀ t ∈ p.ends, t.IsImpliedEnd) :
    identsIn (pieces.flatMap Piece.tokens) = pieces.filterMap fun p => p.word.ident? := by
  induction pieces with
  | nil => rfl
  | cons p pieces ih =>
    obtain ⟨here, more⟩ := List.forall_mem_cons.mp h
    have none : identsIn p.ends = [] := by
      refine List.filterMap_eq_nil_iff.mpr fun t ht => ?_
      rw [Token.ident?, (here t ht).1]
    rw [List.flatMap_cons, identsIn_append, ih more, Piece.tokens, identsIn, List.filterMap_cons,
      List.filterMap_cons, ← identsIn, none]
    cases p.word.ident? <;> rfl

/-- **Each name in a text stands after those before it.** -/
theorem scan_idents_before {source : String} {ts : List Token} (h : scan source = .ok ts) :
    (identsIn ts).Pairwise fun a b => a.pos.Before b.pos := by
  obtain ⟨mark, pieces, tail, final, hlayout, hlaid⟩ := scan_laid h
  have hends : ∀ p ∈ pieces, ∀ t ∈ p.ends, t.IsImpliedEnd := by
    intro p hp
    obtain ⟨before, after, hsplit⟩ := List.append_of_mem hp
    exact (hlayout.fits before p after hsplit).ends
  have hfinal : identsIn [final] = [] := by
    simp [identsIn, Token.ident?, hlayout.final_kind]
  rw [hlayout.tokens_eq, identsIn_append, identsIn_pieces hends, hfinal, List.append_nil,
    List.pairwise_filterMap]
  refine hlaid.words_before.imp fun {p q} hpq a ha b hb => ?_
  have place : ∀ {t : Token} {ident : Ident}, t.ident? = some ident → ident.pos = t.pos := by
    intro t ident ht
    unfold Token.ident? at ht
    split at ht <;> cases ht
    rfl
  rwa [place ha, place hb]

/-! ## Names in lines of constants -/

section Grammar

variable {α : Type} {ts : List Token}

theorem Ident.Written.identsIn_eq {ident : Ident} (h : ident.Written ts) :
    identsIn ts = [ident] := by
  obtain ⟨t, rfl, kind, pos⟩ := h
  simp [identsIn, Token.ident?, kind, pos]

theorem Separated.names_sublist {names : List Ident} (h : Separated Ident.Written names ts) :
    names.Sublist (identsIn ts) := by
  induction h with
  | one tokens => rw [tokens.identsIn_eq]
  | cons tokens comma more ih =>
    rw [identsIn_append, tokens.identsIn_eq]
    exact (ih.trans (identsIn_sublist (List.sublist_cons_self ..))).cons_cons _

theorem ConstSpec.Written.names_sublist {n : Nat} {spec : ConstSpec} (h : spec.Written n ts) :
    spec.names.Sublist (identsIn ts) := by
  obtain ⟨names, type, values, -, -⟩ := h
  rw [identsIn_append, identsIn_append, List.append_assoc]
  exact names.names_sublist.trans (List.sublist_append_left ..)

/-- What the lines of a group name comes in the order of the lines. -/
theorem GroupLines.names_sublist {Writes : Nat → α → List Token → Prop} {names : α → List Ident}
    (line : ∀ n a us, Writes n a us → (names a).Sublist (identsIn us)) {n : Nat} {as : List α}
    (h : GroupLines Writes n as ts) : (as.flatMap names).Sublist (identsIn ts) := by
  induction h with
  | nil => exact List.nil_sublist _
  | blank semicolon more ih => exact ih.trans (identsIn_sublist (List.sublist_cons_self ..))
  | last tokens => simpa using line _ _ _ tokens
  | line tokens semicolon more ih =>
    rw [List.flatMap_cons, identsIn_append]
    exact (line _ _ _ tokens).append (ih.trans (identsIn_sublist (List.sublist_cons_self ..)))

theorem Declared.names_sublist {Writes : Nat → α → List Token → Prop} {names : α → List Ident}
    (line : ∀ n a us, Writes n a us → (names a).Sublist (identsIn us)) {as : List α}
    (h : Declared Writes as ts) : (as.flatMap names).Sublist (identsIn ts) := by
  cases h with
  | one tokens => simpa using line _ _ _ tokens
  | @group as inner first last left lines right =>
    have within : inner.Sublist (first :: inner ++ [last]) :=
      (List.sublist_append_left inner [last]).cons first
    exact (lines.names_sublist line).trans (identsIn_sublist within)

end Grammar

/-! ## Names in files -/

/-- The names on the lines of a declaration, blank ones too. -/
def ConstDecl.idents (decl : ConstDecl) : List Ident := decl.specs.flatMap (·.names)

/-- The names on the lines of the constants of a file, blank ones too. -/
def SourceFile.constIdents (file : SourceFile) : List Ident := file.consts.flatMap (·.idents)

section Files

variable {ts rest : List Token}

theorem TopLevel.Written.idents_sublist {part : TopLevel} (h : part.Written ts rest)
    {decl : ConstDecl} (hdecl : part.const? = some decl) : decl.idents.Sublist (identsIn ts) := by
  cases h with
  | @consts t specs body stop _ word enclosed lines ended =>
    cases hdecl
    have line : ∀ n (spec : ConstSpec) us, spec.Written n us →
        spec.names.Sublist (identsIn us) := fun _ _ _ written => written.names_sublist
    have within : body.Sublist (t :: body ++ stop) := (List.sublist_append_left body stop).cons t
    exact (lines.names_sublist line).trans (identsIn_sublist within)
  | _ => cases hdecl

theorem Segment.AllWritten.idents_sublist {segments : List Segment}
    (h : Segment.AllWritten segments rest) :
    ((segments.filterMap (·.part.const?)).flatMap (·.idents)).Sublist
      (identsIn (Segment.allTokens segments)) := by
  induction segments with
  | nil => exact List.nil_sublist _
  | cons s segments ih =>
    obtain ⟨here, more⟩ := h
    rw [Segment.allTokens, List.flatMap_cons, identsIn_append]
    rw [List.filterMap_cons]
    cases hdecl : s.part.const? with
    | none =>
      exact (ih more).trans (List.sublist_append_right ..)
    | some decl =>
      rw [List.flatMap_cons]
      exact (here.idents_sublist hdecl).append (ih more)

theorem readFile_idents_sublist {path : String} {file : SourceFile}
    (h : readFile path ts = .ok file) : file.constIdents.Sublist (identsIn ts) := by
  obtain ⟨clause, segments, rest, rfl, -, written, -, consts, -⟩ := readFile_ok h
  rw [SourceFile.constIdents, consts, identsIn_append, identsIn_append]
  exact written.idents_sublist.trans
    ((List.sublist_append_left ..).trans (List.sublist_append_right ..))

end Files

/-! ## Declarations -/

theorem fst_zip_sublist {α β : Type} (as : List α) (bs : List β) :
    ((as.zip bs).map Prod.fst).Sublist as := by
  induction as generalizing bs with
  | nil => exact List.nil_sublist _
  | cons a as ih =>
    cases bs with
    | nil => exact List.nil_sublist _
    | cons b bs => exact (ih bs).cons_cons a

/-- What a line declares has its names, each at most once. -/
theorem ConstSpec.declarations_sublist (file : String) (line supplier : ConstSpec) :
    ((line.declarations file supplier).map (·.ident)).Sublist line.names := by
  rw [declarations, List.map_map]
  exact (List.filter_sublist.map Prod.fst).trans (fst_zip_sublist line.names supplier.values)

theorem declarationsAfter_sublist (file : String) (before lines : List ConstSpec) :
    ((declarationsAfter file before lines).map (·.ident)).Sublist (lines.flatMap (·.names)) := by
  induction lines generalizing before with
  | nil => exact List.nil_sublist _
  | cons line lines ih =>
    rw [declarationsAfter_cons, List.map_append, List.flatMap_cons]
    refine .append ?_ (ih _)
    cases lastWithValues? (before ++ [line]) with
    | none => exact List.nil_sublist _
    | some supplier => exact line.declarations_sublist file supplier

theorem SourceFile.declarations_sublist (file : SourceFile) :
    (file.declarations.map (·.ident)).Sublist file.constIdents := by
  rw [declarations, constIdents]
  induction file.consts with
  | nil => exact List.nil_sublist _
  | cons decl decls ih =>
    rw [List.flatMap_cons, List.map_append, List.flatMap_cons]
    exact .append (declarationsAfter_sublist file.path [] decl.specs) ih

/-- **The declarations of a file are listed as they stand in its text.** -/
theorem SourceFile.declarations_before {path source : String} {file : SourceFile}
    (h : SourceFile.ofText path source = .ok file) :
    file.declarations.Pairwise fun c d => c.ident.pos.Before d.ident.pos := by
  unfold SourceFile.ofText at h
  split at h
  · cases h
  rename_i ts tokens
  have sublist := file.declarations_sublist.trans (readFile_idents_sublist h)
  have before := (scan_idents_before tokens).sublist sublist
  rwa [List.pairwise_map] at before

end EnumCodec
