import EnumCodec.Proofs.Assignment
import EnumCodec.Proofs.CollectedValues
import EnumCodec.Proofs.ExactValue
import EnumCodec.Summary
import Mathlib

/-!
# Values stay in the ranges of their kinds

* `Scope.inKind_of_eval` — where all constants of a scope lie in the ranges of their kinds, so does the
  value of every expression.
* `Stored`, `stored_evaluateAll` — what one step of a run stores for a constant, and so, what a run has
  stored for all of them.
* `inKind_of_resolveValues` — the values of a table lie in the range of its kind, and they are all the
  numbers in the summary of a file with that table.
-/

set_option autoImplicit false

namespace EnumCodec

/-! ## Operators -/

theorem inKind_of_unaryValue {op : UnaryOp} {v u : Value} {whole : Expr}
    (h : unaryValue op v whole = .ok u) : u.InKind := by
  cases op with
  | plus => exact (withKind_eq_ok h).2
  | negate =>
    rw [unaryValue] at h
    split at h
    · cases h
    · exact (withKind_eq_ok h).2
  | complement => exact (withKind_eq_ok h).2
  | not | dereference | addressOf | receive => cases h

/-- A shift looks at the kind of its left operand only, but checks its result against that. -/
theorem inKind_of_shiftValue {toLeft : Bool} {l r u : Value} (h : shiftValue toLeft l r = .ok u) :
    u.InKind := by
  unfold shiftValue at h
  split_ifs at h with hneg hleft hzero hfar
  · exact (withKind_eq_ok h).2
  · split at h
    · cases h
    · exact (withKind_eq_ok h).2
  · exact (withKind_eq_ok h).2

theorem inKind_of_binaryValue {op : BinaryOp} {l r u : Value} {whole : Expr}
    (h : binaryValue op l r whole = .ok u) : u.InKind := by
  unfold binaryValue at h
  split at h
  · exact inKind_of_shiftValue h
  · exact inKind_of_shiftValue h
  · split at h
    · cases h
    · split at h
      · cases h
      · exact (withKind_eq_ok h).2

theorem inKind_of_literalValue {text : String} {v : Value} (h : literalValue text = .ok v) :
    v.InKind := by
  unfold literalValue at h
  split at h
  · cases h
    exact nofun
  · cases h

/-! ## Expressions -/

namespace Scope

/-- A constant that has a kind lies in the range of the kind. -/
def InKind (scope : Scope) : Prop := ∀ name v, scope.constant? name = some v → v.InKind

variable {scope : Scope} {iota : Nat}

theorem inKind_of_nameValue (hs : scope.InKind) {name : String} {v : Value}
    (h : scope.nameValue iota name = .ok v) : v.InKind := by
  cases hconst : scope.constant? name with
  | some u =>
    unfold nameValue at h
    rw [hconst] at h
    cases h
    exact hs name _ hconst
  | none =>
    rw [nameValue_of_none hconst] at h
    split_ifs at h
    cases h
    exact nofun

/-- **Every operator checks its result, so no value leaves the range of its kind.** -/
theorem inKind_of_eval (hs : scope.InKind) {e : Expr} {v : Value} (h : scope.eval iota e = .ok v) :
    v.InKind := by
  -- an operand matters only where it is handed on as it is: by a name and by parentheses
  induction e using Expr.induct with
  | integer text => exact inKind_of_literalValue h
  | rune code =>
    cases h
    exact nofun
  | float | imaginary | string | opaqueForm => cases h
  | selector => cases h
  | name ident => exact inKind_of_nameValue hs h
  | paren inner ih => exact ih h
  | unary op operand =>
    rw [eval] at h
    split at h
    · cases h
    · exact inKind_of_unaryValue h
  | binary op left right =>
    rw [eval] at h
    split at h
    · cases h
    · split at h
      · cases h
      · split at h
        · cases h
        · exact inKind_of_binaryValue h
  | call callee args =>
    rw [eval] at h
    split at h
    · cases h
    · split at h
      · cases h
      · exact (convert_eq_ok h).2
      · cases h

end Scope

/-! ## Runs -/

variable {meaning : String → TypeMeaning}

variable {entries : List ConstEntry} {plan : List (Fin entries.length)}
  {known known' : List (Fin entries.length × Value)} {i : Fin entries.length}

/-- What a run stores for a constant: a value in range, and of the kind that the constant is declared
with, if it is. -/
structure Stored (entries : List ConstEntry) (meaning : String → TypeMeaning)
    (p : Fin entries.length × Value) : Prop where
  inKind : p.2.InKind
  kind : ∀ kind, (entries.get p.1).kind? meaning = some kind → p.2.kind = some kind

theorem mem_of_lookup {v : Value} (h : known.lookup i = some v) : (i, v) ∈ known := by
  obtain ⟨xs, ys, rfl, -⟩ := List.lookup_eq_some_iff.1 h
  exact List.mem_append_right _ List.mem_cons_self

theorem inKind_scopeOf (h : ∀ p ∈ known, p.2.InKind) :
    (scopeOf entries meaning known).InKind := by
  intro name v hv
  rw [constant?_scopeOf, Option.bind_eq_some_iff] at hv
  obtain ⟨i, -, hi⟩ := hv
  exact h (i, v) (mem_of_lookup hi)

theorem stored_of_valueIn {v : Value} (hk : ∀ p ∈ known, p.2.InKind)
    (h : (entries.get i).valueIn (scopeOf entries meaning known) = .ok v) :
    Stored entries meaning (i, v) := by
  unfold ConstEntry.valueIn at h
  split at h
  · cases h
  · rename_i u hu
    split at h
    · rename_i kind hkind
      obtain ⟨rfl, hv⟩ := convert_eq_ok h
      exact ⟨hv, fun kind' hkind' => hkind.symm.trans hkind'⟩
    · rename_i hkind
      cases h
      exact ⟨Scope.inKind_of_eval (inKind_scopeOf hk) hu,
        fun kind hk => absurd (hkind.symm.trans hk) nofun⟩

/-- Each step of a run sees only values in range, and so stores one. -/
theorem stored_evaluateAll (hk : ∀ p ∈ known, Stored entries meaning p)
    (h : evaluateAll entries meaning plan known = .ok known') :
    ∀ p ∈ known', Stored entries meaning p := by
  induction plan generalizing known with
  | nil =>
    cases h
    exact hk
  | cons i plan ih =>
    rw [evaluateAll] at h
    split at h
    · cases h
    · rename_i v hv
      have hstored := stored_of_valueIn (fun p hp => (hk p hp).inKind) hv
      exact ih (List.forall_mem_cons.2 ⟨hstored, hk⟩) h

/-- A run finds a value for each constant of its plan, and keeps those that are known. -/
theorem exists_lookup_evaluateAll (h : evaluateAll entries meaning plan known = .ok known')
    (hi : i ∈ plan ∨ ∃ v, known.lookup i = some v) : ∃ v, known'.lookup i = some v := by
  induction plan generalizing known with
  | nil =>
    cases h
    exact hi.resolve_left List.not_mem_nil
  | cons j plan ih =>
    rw [evaluateAll] at h
    split at h
    · cases h
    · rename_i v hv
      refine ih h ?_
      rw [List.lookup_cons]
      by_cases hij : i = j
      · exact .inr ⟨v, by rw [hij, beq_self_eq_true]⟩
      · rw [beq_false_of_ne hij]
        exact hi.imp_left fun hmem => (List.mem_cons.1 hmem).resolve_left hij

/-! ## The values of a type -/

/-- No kind is wider than the integers of 64 bits, with or without a sign. -/
theorem IntKind.within_words (kind : IntKind) : -2 ^ 63 ≤ kind.min ∧ kind.max < 2 ^ 64 := by
  cases kind <;> decide

/-- The plan of a type holds all its members. -/
theorem mem_evaluationPlan_of_member {typeName : String} {order : List (Fin entries.length)}
    (ho : (RefGraph.ofEntries entries).evaluationOrder = .ok order)
    (hi : i ∈ membersOf entries typeName) :
    i ∈ evaluationPlan (RefGraph.ofEntries entries) (membersOf entries typeName) order := by
  obtain ⟨-, -, -, hdep⟩ := (RefGraph.evaluationOrder_spec (RefGraph.deps_nodup entries)).1 order ho
  rw [evaluationPlan, List.mem_filter, List.contains_iff_mem, RefGraph.mem_reach_iff]
  exact ⟨hdep.complete i, i, hi, .refl⟩

/-- The values of a type are values of its kind that have been stored. -/
theorem inKind_of_resolvedMembers {typeName : String} {order : List (Fin entries.length)}
    {kind : IntKind} (ho : (RefGraph.ofEntries entries).evaluationOrder = .ok order)
    (hkind : meaning typeName = .integer kind)
    (h : evaluateAll entries meaning (evaluationPlan (RefGraph.ofEntries entries)
      (membersOf entries typeName) order) [] = .ok known) :
    ∀ c ∈ resolvedMembers entries typeName known, kind.min ≤ c.value ∧ c.value ≤ kind.max := by
  intro c hc
  obtain ⟨i, hi, rfl⟩ := List.mem_map.1 hc
  obtain ⟨v, hfound⟩ := exists_lookup_evaluateAll h (.inl (mem_evaluationPlan_of_member ho hi))
  have hstored := stored_evaluateAll (List.forall_mem_nil _) h (i, v) (mem_of_lookup hfound)
  have hown : (entries.get i).kind? meaning = some kind := by
    rw [ConstEntry.kind?, mem_membersOf.1 hi, Option.bind_some, TypeName.own?]
    dsimp only
    rw [hkind]
  have hrange := IntKind.contains_iff.1 (hstored.inKind kind (hstored.kind kind hown))
  dsimp only
  rw [hfound]
  exact hrange

theorem inKind_of_resolveValues {entries : List ConstEntry} {typeName : String}
    {policy : AliasPolicy} {table : ValueTable}
    (h : resolveValues entries meaning typeName policy = .ok table) :
    ∀ e ∈ table.entries, table.kind.min ≤ e.value ∧ e.value ≤ table.kind.max ∧
      -2 ^ 63 ≤ e.value ∧ e.value < 2 ^ 64 := by
  obtain ⟨order, kind, known, ho, hkind, hrun, rfl⟩ := of_resolveValues_eq_ok h
  intro e he
  have hvalue := ((collects_build typeName kind policy).values e.value).1 (List.mem_map_of_mem he)
  obtain ⟨c, hc, hce⟩ := hvalue
  obtain ⟨hmin, hmax⟩ := hce ▸ inKind_of_resolvedMembers ho hkind hrun c hc
  have hwords := kind.within_words
  exact ⟨hmin, hmax, hwords.1.trans hmin, hmax.trans_lt hwords.2⟩

/-! ## The summary -/

mutual

/-- The numbers in a JSON value. -/
def Json.numbers : Json → List Int
  | .boolean _ => []
  | .number n => [n]
  | .string _ => []
  | .array items => Json.numbersOfItems items
  | .object members => Json.numbersOfMembers members

/-- The numbers in JSON values. -/
def Json.numbersOfItems : List Json → List Int
  | [] => []
  | item :: items => item.numbers ++ Json.numbersOfItems items

/-- The numbers in the members of a JSON object. -/
def Json.numbersOfMembers : List (String × Json) → List Int
  | [] => []
  | (_, value) :: members => value.numbers ++ Json.numbersOfMembers members

end

theorem numbersOfItems_strings (texts : List String) :
    Json.numbersOfItems (texts.map .string) = [] := by
  induction texts with
  | nil => rfl
  | cons text texts ih => simp [Json.numbersOfItems, Json.numbers, ih]

theorem numbers_valueEntry (e : ValueEntry) : e.summary.numbers = [e.value] := by
  unfold ValueEntry.summary
  split <;> simp [Json.numbers, Json.numbersOfMembers, numbersOfItems_strings]

/-- The only numbers that the summary of a file holds are the values of its table. -/
theorem numbers_summary (f : WrittenFile) :
    f.summary.numbers = f.table.entries.map (·.value) := by
  have hvalues : ∀ es : List ValueEntry,
      Json.numbersOfItems (es.map ValueEntry.summary) = es.map (·.value) := by
    intro es
    induction es with
    | nil => rfl
    | cons e es ih => simp [Json.numbersOfItems, numbers_valueEntry, ih]
  simp [WrittenFile.summary, Json.numbers, Json.numbersOfMembers, hvalues]

open RefGraph in
/-- **No value leaves the range of its kind.**  Where the constants of a scope lie in the ranges of
their kinds, so does what an expression evaluates to; so do all values that are stored at any moment of
a run and seen by the constants after it, on any entries; and so do the values of a table.  These are
all the numbers in the summary of a file, and 64 bits can hold them. -/
theorem values_inKind (meaning : String → TypeMeaning) :
    (∀ scope : Scope, scope.InKind → ∀ (iota : Nat) (e : Expr) (v : Value) (kind : IntKind),
      scope.eval iota e = .ok v → v.kind = some kind → kind.min ≤ v.value ∧ v.value ≤ kind.max) ∧
    ∀ (entries : List ConstEntry) (typeName : String),
      (∀ order, (ofEntries entries).evaluationOrder = .ok order → ∀ xs ys,
        evaluationPlan (ofEntries entries) (membersOf entries typeName) order = xs ++ ys →
        ∀ known, evaluateAll entries meaning xs [] = .ok known →
          (∀ p ∈ known, p.2.InKind) ∧ (scopeOf entries meaning known).InKind) ∧
      ∀ policy table, resolveValues entries meaning typeName policy = .ok table →
        (∀ e ∈ table.entries, table.kind.min ≤ e.value ∧ e.value ≤ table.kind.max ∧
          -2 ^ 63 ≤ e.value ∧ e.value < 2 ^ 64) ∧
        ∀ f : WrittenFile, f.table = table → ∀ n ∈ f.summary.numbers, -2 ^ 63 ≤ n ∧ n < 2 ^ 64 := by
  refine ⟨fun scope hs iota e v kind he hkind =>
    IntKind.contains_iff.1 (Scope.inKind_of_eval hs he kind hkind),
    fun entries typeName => ⟨?_, ?_⟩⟩
  · intro order _ xs ys _ known hrun
    have hk : ∀ p ∈ known, p.2.InKind := fun p hp =>
      (stored_evaluateAll (List.forall_mem_nil _) hrun p hp).inKind
    exact ⟨hk, inKind_scopeOf hk⟩
  · intro policy table htable
    have hvalues := inKind_of_resolveValues htable
    refine ⟨hvalues, ?_⟩
    rintro f rfl n hn
    rw [numbers_summary] at hn
    obtain ⟨e, he, rfl⟩ := List.mem_map.1 hn
    exact (hvalues e he).2.2

/-- `Turned Pill = ^First`, `First Pill = Base`, `Base = 300`, `Base = 10`: the last `Base` counts, for
the first one is no value of a `Pill`. -/
def turnedEntries : List ConstEntry :=
  let mention (name : String) : Expr := .name ⟨name, ⟨1, 1⟩⟩
  [⟨"Turned", "pill.go", ⟨4, 2⟩, some (.own "Pill"), .unary .complement (mention "First"), 0, 0⟩,
   ⟨"First", "pill.go", ⟨5, 2⟩, some (.own "Pill"), mention "Base", 1, 1⟩,
   ⟨"Base", "pill.go", ⟨6, 2⟩, none, .integer "300", 2, 2⟩,
   ⟨"Base", "pill.go", ⟨7, 2⟩, none, .integer "10", 3, 3⟩]

/-- What `Turned` sees. -/
def turnedScope : Scope :=
  scopeOf turnedEntries pillMeaning
    [(⟨1, by decide⟩, ⟨10, some .uint8⟩), (⟨3, by decide⟩, ⟨10, none⟩)]

theorem values_inKind_turnedEntries :
    turnedScope.InKind ∧
    turnedScope.eval 0 (.unary .complement (.name ⟨"First", ⟨1, 1⟩⟩)) = .ok ⟨245, some .uint8⟩ ∧
    IntKind.uint8.min ≤ 245 ∧ 245 ≤ IntKind.uint8.max ∧
    resolveValues turnedEntries pillMeaning "Pill" .lexical =
      .ok ⟨"Pill", .uint8, [⟨"Turned", 245, []⟩, ⟨"First", 10, []⟩]⟩ ∧
    ∀ e ∈ [ValueEntry.mk "Turned" 245 [], ⟨"First", 10, []⟩],
      IntKind.uint8.min ≤ e.value ∧ e.value ≤ IntKind.uint8.max := by
  obtain ⟨hexpr, hentries⟩ := values_inKind pillMeaning
  obtain ⟨hrun, htable⟩ := hentries turnedEntries "Pill"
  have hscope : turnedScope.InKind :=
    (hrun [⟨2, by decide⟩, ⟨3, by decide⟩, ⟨1, by decide⟩, ⟨0, by decide⟩] (by cbv)
      [⟨3, by decide⟩, ⟨1, by decide⟩] [⟨0, by decide⟩] (by cbv) _ (by cbv)).2
  have heval : turnedScope.eval 0 (.unary .complement (.name ⟨"First", ⟨1, 1⟩⟩)) =
      .ok ⟨245, some .uint8⟩ := by cbv
  have hvalue := hexpr turnedScope hscope 0 _ _ .uint8 heval rfl
  have hresolve : resolveValues turnedEntries pillMeaning "Pill" .lexical =
      .ok ⟨"Pill", .uint8, [⟨"Turned", 245, []⟩, ⟨"First", 10, []⟩]⟩ := by cbv
  exact ⟨hscope, heval, hvalue.1, hvalue.2, hresolve, fun e he =>
    ⟨((htable _ _ hresolve).1 e he).1, ((htable _ _ hresolve).1 e he).2.1⟩⟩

end EnumCodec
