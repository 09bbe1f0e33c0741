import EnumCodec.Proofs.Agreement
import EnumCodec.Proofs.EvaluationOrder

/-!
# The values of a type as an assignment

A value for each constant of a type, and for all that these need, is consistent if every constant
has the value that its expression has when the names it mentions have theirs.

* `evaluateAll_at` — what a constant is evaluated with, and where its value is found in the end.
* `mem_evaluationPlan_iff`, `before_of_evaluationPlan` — what is evaluated, and in which order.
* `Assignment.Consistent.unique` — there is no second consistent assignment.
* `resolveValues_eq_build` — the value table is that of the consistent assignment, on the members.
-/

set_option autoImplicit false

namespace EnumCodec

open Relation RefGraph

/-! ## Evaluating constants one after the other -/

section Run

variable {entries : List ConstEntry} {meaning : String → TypeMeaning}
  {plan : List (Fin entries.length)} {known known' : List (Fin entries.length × Value)}
  {i : Fin entries.length}

theorem constant?_scopeOf (entries : List ConstEntry) (meaning : String → TypeMeaning)
    (known : List (Fin entries.length × Value)) (name : String) :
    (scopeOf entries meaning known).constant? name =
      (findConstant? entries name).bind fun i => known.lookup i := rfl

theorem valueIn_congr {s t : Scope} (ht : s.typeMeaning = t.typeMeaning) (e : ConstEntry)
    (h : ∀ name ∈ e.expr.references, s.constant? name = t.constant? name) :
    e.valueIn s = e.valueIn t := by
  unfold ConstEntry.valueIn
  rw [Scope.eval_congr ht e.iota e.expr h, ht]

theorem evaluateAll_append (meaning : String → TypeMeaning) (xs ys : List (Fin entries.length))
    (known : List (Fin entries.length × Value)) :
    evaluateAll entries meaning (xs ++ ys) known =
      match evaluateAll entries meaning xs known with
      | .error e => .error e
      | .ok known => evaluateAll entries meaning ys known := by
  induction xs generalizing known with
  | nil => rfl
  | cons i xs ih =>
    rw [List.cons_append, evaluateAll, evaluateAll]
    cases (entries.get i).valueIn (scopeOf entries meaning known) with
    | error problem => rfl
    | ok v => exact ih _

/-- Evaluating other constants changes no value that is known. -/
theorem lookup_evaluateAll (h : evaluateAll entries meaning plan known = .ok known')
    (hi : i ∉ plan) : known'.lookup i = known.lookup i := by
  induction plan generalizing known with
  | nil =>
    cases h
    rfl
  | cons j plan ih =>
    rw [List.mem_cons, not_or] at hi
    rw [evaluateAll] at h
    split at h
    · cases h
    · rw [ih h hi.2, List.lookup_cons, beq_false_of_ne hi.1]

/-- **A constant is evaluated with the values of those before it**, and keeps its value. -/
theorem evaluateAll_at {xs ys : List (Fin entries.length)}
    (h : evaluateAll entries meaning (xs ++ i :: ys) [] = .ok known) (hi : i ∉ ys) :
    ∃ before v, evaluateAll entries meaning xs [] = .ok before ∧
      (entries.get i).valueIn (scopeOf entries meaning before) = .ok v ∧
      known.lookup i = some v ∧
      ∀ d, d ∉ i :: ys → before.lookup d = known.lookup d := by
  rw [evaluateAll_append] at h
  split at h
  · cases h
  · rename_i before hbefore
    refine ⟨before, ?_⟩
    have hrest : ∀ d, d ∉ i :: ys → before.lookup d = known.lookup d := fun d hd =>
      (lookup_evaluateAll h hd).symm
    rw [evaluateAll] at h
    split at h
    · cases h
    · rename_i v hv
      refine ⟨v, hbefore, hv, ?_, hrest⟩
      rw [lookup_evaluateAll h hi, List.lookup_cons, beq_self_eq_true]

end Run

/-! ## What is evaluated -/

variable {entries : List ConstEntry} {meaning : String → TypeMeaning} {typeName : String}

/-- The constants that are declared with a type of the package, and all that they need. -/
def Wanted (entries : List ConstEntry) (typeName : String) : Set (Fin entries.length) :=
  {i | ∃ m, (entries.get m).type = some (.own typeName) ∧ ReflTransGen (Mentions entries) m i}

theorem Wanted.closed {i d : Fin entries.length} (hi : i ∈ Wanted entries typeName)
    (hd : Mentions entries i d) : d ∈ Wanted entries typeName := by
  obtain ⟨m, hm, hmi⟩ := hi
  exact ⟨m, hm, hmi.tail hd⟩

theorem mem_evaluationPlan_iff (hn : DistinctNames entries) {order : List (Fin entries.length)}
    (ho : DependencyOrder (Mentions entries) order) {i : Fin entries.length} :
    i ∈ evaluationPlan (ofEntries entries) (membersOf entries typeName) order ↔
      i ∈ Wanted entries typeName := by
  rw [evaluationPlan, List.mem_filter, List.contains_iff_mem, mem_reach_iff, needs_ofEntries hn]
  simp only [ho.complete i, true_and, mem_membersOf]
  rfl

/-- All that a constant mentions is evaluated before it. -/
theorem before_of_evaluationPlan (hn : DistinctNames entries) {order : List (Fin entries.length)}
    (ho : DependencyOrder (Mentions entries) order) {xs ys : List (Fin entries.length)}
    {i d : Fin entries.length}
    (h : evaluationPlan (ofEntries entries) (membersOf entries typeName) order = xs ++ i :: ys)
    (hd : Mentions entries i d) : d ∈ xs := by
  have hi : i ∈ Wanted entries typeName := (mem_evaluationPlan_iff hn ho).1 (by simp [h])
  have hplan := (mem_evaluationPlan_iff hn ho).2 (Wanted.closed hi hd)
  rw [evaluationPlan, List.mem_filter] at hplan
  rw [evaluationPlan, List.filter_eq_append_iff] at h
  obtain ⟨as, bs, hsplit, rfl, hbs⟩ := h
  obtain ⟨cs, ds, rfl, hcs, -, -⟩ := List.filter_eq_cons_iff.1 hbs
  have hbefore := ho.before (as ++ cs) i ds (by simp [hsplit]) d hd
  rcases List.mem_append.1 hbefore with hmem | hmem
  · exact List.mem_filter.2 ⟨hmem, hplan.2⟩
  · exact absurd hplan.2 (hcs d hmem)

/-! ## Assignments -/

/-- A value for each constant of a type and each that these need. -/
abbrev Assignment (entries : List ConstEntry) (typeName : String) := Wanted entries typeName → Value

namespace Assignment

open Classical in
/-- What an expression can refer to under an assignment. -/
noncomputable def scope (v : Assignment entries typeName) (meaning : String → TypeMeaning) :
    Scope where
  constant? name := (findConstant? entries name).bind fun i =>
    if h : i ∈ Wanted entries typeName then some (v ⟨i, h⟩) else none
  typeMeaning := meaning

/-- Each constant has the value that its expression has under the assignment. -/
def Consistent (v : Assignment entries typeName) (meaning : String → TypeMeaning) : Prop :=
  ∀ i : Wanted entries typeName, (entries.get i).valueIn (v.scope meaning) = .ok (v i)

/-- The constants of the type with their values. -/
def members (v : Assignment entries typeName) : List ResolvedConstant :=
  (List.finRange entries.length).filterMap fun i =>
    if h : (entries.get i).type = some (.own typeName) then
      some ⟨(entries.get i).name, (v ⟨i, i, h, .refl⟩).value, (entries.get i).index⟩
    else none

theorem scope_name (hn : DistinctNames entries) (v : Assignment entries typeName)
    (i : Wanted entries typeName) :
    (v.scope meaning).constant? (entries.get i).name = some (v i) := by
  simp only [scope, findConstant?_name hn, Option.bind_some]
  rw [dif_pos i.2]

theorem scope_eq_none {v : Assignment entries typeName} {name : String}
    (h : findConstant? entries name = none) : (v.scope meaning).constant? name = none := by
  simp only [scope, h, Option.bind_none]

/-- **There is at most one consistent assignment**, since constants can be put into an order. -/
theorem Consistent.unique (hn : DistinctNames entries) {order : List (Fin entries.length)}
    (ho : DependencyOrder (Mentions entries) order) {v w : Assignment entries typeName}
    (hv : v.Consistent meaning) (hw : w.Consistent meaning) : w = v := by
  -- by induction on the place in the order
  have hall : ∀ k (i : Wanted entries typeName), order.idxOf i.1 = k → w i = v i := by
    intro k
    induction k using Nat.strong_induction_on with
    | _ k ih =>
      intro i hk
      have hsame : (entries.get i).valueIn (w.scope meaning) =
          (entries.get i).valueIn (v.scope meaning) := by
        refine valueIn_congr (by rfl) _ fun name hname => ?_
        cases hfind : findConstant? entries name with
        | none => rw [scope_eq_none hfind, scope_eq_none hfind]
        | some d =>
          have hd : Mentions entries i d := by
            unfold Mentions
            rwa [name_of_findConstant? hfind]
          have hrank := ih _ (hk ▸ ho.idxOf_lt hd) ⟨d, Wanted.closed i.2 hd⟩ rfl
          rw [← name_of_findConstant? hfind, scope_name hn w ⟨d, Wanted.closed i.2 hd⟩,
            scope_name hn v ⟨d, Wanted.closed i.2 hd⟩, hrank]
      rw [hv i, hw i] at hsame
      exact Except.ok.inj hsame
  exact funext fun i => hall _ i rfl

end Assignment

/-! ## The run that makes a value table -/

/-- The assignment that a run has found when it ends. -/
def foundAssignment (entries : List ConstEntry) (typeName : String)
    (known : List (Fin entries.length × Value)) : Assignment entries typeName :=
  fun i => (known.lookup i.1).getD ⟨0, none⟩

section Found

variable {order : List (Fin entries.length)} {known : List (Fin entries.length × Value)}

/-- When the turn of a constant comes, all that was evaluated before it has its final value, and
nothing else is known. -/
theorem known_before (ho : DependencyOrder (Mentions entries) order)
    (hrun : evaluateAll entries meaning (evaluationPlan (ofEntries entries)
      (membersOf entries typeName) order) [] = .ok known)
    {xs ys : List (Fin entries.length)} {i : Fin entries.length}
    (h : evaluationPlan (ofEntries entries) (membersOf entries typeName) order = xs ++ i :: ys) :
    ∃ before v, evaluateAll entries meaning xs [] = .ok before ∧
      (entries.get i).valueIn (scopeOf entries meaning before) = .ok v ∧
      known.lookup i = some v ∧
      ∀ d ∈ xs, before.lookup d = known.lookup d := by
  have hnodup : (evaluationPlan (ofEntries entries) (membersOf entries typeName) order).Nodup :=
    ho.nodup.filter _
  rw [h, List.nodup_append, List.nodup_cons] at hnodup
  rw [h] at hrun
  obtain ⟨before, v, hbefore, hv, hlookup, hrest⟩ := evaluateAll_at hrun hnodup.2.1.1
  exact ⟨before, v, hbefore, hv, hlookup, fun d hd =>
    hrest d fun hmem => hnodup.2.2 d hd d hmem rfl⟩

/-- What a constant is evaluated with agrees with the assignment found in the end, on all that its
expression mentions. -/
theorem known_agrees (hn : DistinctNames entries) (ho : DependencyOrder (Mentions entries) order)
    (hrun : evaluateAll entries meaning (evaluationPlan (ofEntries entries)
      (membersOf entries typeName) order) [] = .ok known)
    {xs ys : List (Fin entries.length)} {i : Fin entries.length}
    (h : evaluationPlan (ofEntries entries) (membersOf entries typeName) order = xs ++ i :: ys) :
    ∃ before, evaluateAll entries meaning xs [] = .ok before ∧
      (∃ hi : i ∈ Wanted entries typeName,
        (entries.get i).valueIn (scopeOf entries meaning before) =
          .ok (foundAssignment entries typeName known ⟨i, hi⟩)) ∧
      ∀ d, Mentions entries i d → ∃ hd : d ∈ Wanted entries typeName,
        before.lookup d = some (foundAssignment entries typeName known ⟨d, hd⟩) := by
  have hwanted : ∀ {zs d ws},
      evaluationPlan (ofEntries entries) (membersOf entries typeName) order = zs ++ d :: ws →
        d ∈ Wanted entries typeName := fun he =>
    (mem_evaluationPlan_iff hn ho).1 (he ▸ by simp)
  obtain ⟨before, v, hbefore, hv, hlookup, hsame⟩ := known_before ho hrun h
  refine ⟨before, hbefore, ⟨hwanted h, ?_⟩, fun d hd => ?_⟩
  · simp only [foundAssignment, hlookup, Option.getD_some, hv]
  · have hdx := before_of_evaluationPlan hn ho h hd
    obtain ⟨zs, ws, rfl⟩ := List.append_of_mem hdx
    have hsplit : evaluationPlan (ofEntries entries) (membersOf entries typeName) order =
        zs ++ d :: (ws ++ i :: ys) := by simpa using h
    obtain ⟨_, u, _, _, hu, _⟩ := known_before ho hrun hsplit
    refine ⟨hwanted hsplit, ?_⟩
    rw [hsame d hdx, hu]
    simp only [foundAssignment, hu, Option.getD_some]

theorem foundAssignment_consistent (hn : DistinctNames entries)
    (ho : DependencyOrder (Mentions entries) order)
    (hrun : evaluateAll entries meaning (evaluationPlan (ofEntries entries)
      (membersOf entries typeName) order) [] = .ok known) :
    (foundAssignment entries typeName known).Consistent meaning := by
  intro ⟨i, hi⟩
  obtain ⟨xs, ys, h⟩ := List.append_of_mem ((mem_evaluationPlan_iff hn ho).2 hi)
  obtain ⟨before, -, ⟨_, hvalue⟩, hknown⟩ := known_agrees hn ho hrun h
  rw [← hvalue]
  refine valueIn_congr (by rfl) _ fun name hname => ?_
  cases hfind : findConstant? entries name with
  | none => rw [Assignment.scope_eq_none hfind, constant?_scopeOf, hfind, Option.bind_none]
  | some d =>
    have hd : Mentions entries i d := by
      unfold Mentions
      rwa [name_of_findConstant? hfind]
    obtain ⟨hdw, hlookup⟩ := hknown d hd
    rw [constant?_scopeOf, hfind, Option.bind_some, hlookup, ← name_of_findConstant? hfind,
      Assignment.scope_name hn _ ⟨d, hdw⟩]

theorem members_foundAssignment :
    (foundAssignment entries typeName known).members =
      resolvedMembers entries typeName known := by
  rw [resolvedMembers, membersOf, Assignment.members, ← List.filterMap_eq_map,
    List.filterMap_filter]
  congr 1
  funext i
  have htype : ((entries.get i).type.bind TypeName.own? == some typeName) = true ↔
      (entries.get i).type = some (.own typeName) := by
    rw [← mem_membersOf, membersOf, List.mem_filter]
    simp
  by_cases h : (entries.get i).type = some (.own typeName)
  · rw [dif_pos h, if_pos (htype.2 h)]
    simp only [foundAssignment, Function.comp_apply, Option.some.injEq]
    cases known.lookup i <;> rfl
  · rw [dif_neg h, if_neg fun hp => h (htype.1 hp)]

end Found

/-- What has gone well when there is a value table. -/
theorem of_resolveValues_eq_ok {policy : AliasPolicy} {table : ValueTable}
    (h : resolveValues entries meaning typeName policy = .ok table) :
    ∃ order kind known, (ofEntries entries).evaluationOrder = .ok order ∧
      meaning typeName = .integer kind ∧
      evaluateAll entries meaning (evaluationPlan (ofEntries entries)
        (membersOf entries typeName) order) [] = .ok known ∧
      table = ValueTable.build typeName kind (resolvedMembers entries typeName known) policy := by
  simp only [resolveValues] at h
  cases horder : (ofEntries entries).evaluationOrder with
  | error i => simp only [horder, reduceCtorEq] at h
  | ok order =>
    simp only [horder] at h
    cases hkind : kindOfType meaning typeName with
    | error e => simp only [hkind, reduceCtorEq] at h
    | ok kind =>
      simp only [hkind] at h
      split at h
      · cases h
      · cases hrun : evaluateAll entries meaning (evaluationPlan (ofEntries entries)
            (membersOf entries typeName) order) [] with
        | error e => simp only [hrun, reduceCtorEq] at h
        | ok known =>
          simp only [hrun] at h
          refine ⟨order, kind, known, rfl, ?_, hrun, ?_⟩
          · unfold kindOfType at hkind
            split at hkind <;> cases hkind
            assumption
          · exact (Except.ok.inj h).symm

/-- **A value table holds the values of the one consistent assignment**: it is built from the
constants of the type with those values; nothing else is evaluated than these constants and what they
need, and when the turn of one comes, all that it mentions has its value already. -/
theorem resolveValues_eq_build {policy : AliasPolicy} {table : ValueTable}
    (hn : DistinctNames entries)
    (h : resolveValues entries meaning typeName policy = .ok table) :
    ∃ v : Assignment entries typeName, v.Consistent meaning ∧
      (∀ w : Assignment entries typeName, w.Consistent meaning → w = v) ∧
      (∃ kind, meaning typeName = .integer kind ∧
        table = ValueTable.build typeName kind v.members policy) ∧
      ∃ order, (ofEntries entries).evaluationOrder = .ok order ∧
        (∀ i, i ∈ evaluationPlan (ofEntries entries) (membersOf entries typeName) order ↔
          i ∈ Wanted entries typeName) ∧
        ∀ xs i ys, evaluationPlan (ofEntries entries) (membersOf entries typeName) order =
            xs ++ i :: ys →
          ∃ before, evaluateAll entries meaning xs [] = .ok before ∧
            ∀ d, Mentions entries i d → ∃ hd : d ∈ Wanted entries typeName,
              (scopeOf entries meaning before).constant? (entries.get d).name =
                some (v ⟨d, hd⟩) := by
  obtain ⟨order, kind, known, horder, hkind, hrun, rfl⟩ := of_resolveValues_eq_ok h
  have ho : DependencyOrder (Mentions entries) order :=
    needs_ofEntries hn ▸ ((evaluationOrder_spec (deps_nodup entries)).1 order horder).2.2.2
  have hfound := foundAssignment_consistent hn ho hrun
  refine ⟨foundAssignment entries typeName known, hfound, fun w hw => hfound.unique hn ho hw,
    ⟨kind, hkind, by rw [members_foundAssignment]⟩, order, horder,
    fun i => mem_evaluationPlan_iff hn ho, fun xs i ys hplan => ?_⟩
  obtain ⟨before, hbefore, -, hknown⟩ := known_agrees hn ho hrun hplan
  refine ⟨before, hbefore, fun d hd => ?_⟩
  obtain ⟨hdw, hlookup⟩ := hknown d hd
  exact ⟨hdw, by rw [constant?_scopeOf, findConstant?_name hn, Option.bind_some, hlookup]⟩

/-- `Last Pill = First + 2`, `First Pill = Base`, `Base = 10`: what a constant needs comes later,
and `Base` is no `Pill`. -/
def pillEntries : List ConstEntry :=
  let mention (name : String) : Expr := .name ⟨name, ⟨1, 1⟩⟩
  let sum : Expr := .binary .add (mention "First") (.integer "2")
  [⟨"Last", "pill.go", ⟨4, 2⟩, some (.own "Pill"), sum, 0, 0⟩,
   ⟨"First", "pill.go", ⟨5, 2⟩, some (.own "Pill"), mention "Base", 1, 1⟩,
   ⟨"Base", "pill.go", ⟨6, 2⟩, none, .integer "10", 2, 2⟩]

/-- What the names of types stand for beside `pillEntries`. -/
def pillMeaning (name : String) : TypeMeaning :=
  if name = "Pill" then .integer .uint8 else .predeclared name

theorem resolveValues_pillEntries :
    DistinctNames pillEntries ∧
    resolveValues pillEntries pillMeaning "Pill" .lexical =
      .ok ⟨"Pill", .uint8, [⟨"Last", 12, []⟩, ⟨"First", 10, []⟩]⟩ ∧
    ∃ v : Assignment pillEntries "Pill", v.Consistent pillMeaning ∧
      (∀ w : Assignment pillEntries "Pill", w.Consistent pillMeaning → w = v) ∧
      ∃ kind, pillMeaning "Pill" = .integer kind ∧
        (⟨"Pill", .uint8, [⟨"Last", 12, []⟩, ⟨"First", 10, []⟩]⟩ : ValueTable) =
          ValueTable.build "Pill" kind v.members .lexical := by
  have hn : DistinctNames pillEntries := by decide
  have htable : resolveValues pillEntries pillMeaning "Pill" .lexical =
      .ok ⟨"Pill", .uint8, [⟨"Last", 12, []⟩, ⟨"First", 10, []⟩]⟩ := by cbv
  obtain ⟨v, hv, hunique, hbuild, -⟩ := resolveValues_eq_build hn htable
  exact ⟨hn, htable, v, hv, hunique, hbuild⟩

end EnumCodec
