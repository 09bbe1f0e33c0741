import EnumCodec.Proofs.Assignment
import Mathlib

/-!
# Constants that are appended

What comes after the constants of a package, and is mentioned by none of them, does not change the
value table of a type: neither its values nor the failure there is instead.

* `widen` and `narrow` — a constant of the package among all constants, and back.
* `needs_widen_iff` — with the appended constants, a constant of the package mentions what it mentioned
  without them.
* `Greedy.narrowed` — the greedy walk through all constants passes those of the package in the order in
  which a greedy walk through them alone does.
* `resolveValues_append` — so, what is evaluated for a type is the same.
-/

set_option autoImplicit false

namespace EnumCodec

open Relation RefGraph

variable {entries more : List ConstEntry}

/-! ## Constants of the package -/

/-- A constant, when others are appended. -/
def widen (more : List ConstEntry) (i : Fin entries.length) : Fin (entries ++ more).length :=
  i.castLE (by simp)

/-- The constants of the package among all of them. -/
def narrow (l : List (Fin (entries ++ more).length)) : List (Fin entries.length) :=
  l.filterMap fun d : Fin (entries ++ more).length =>
    if h : d.val < entries.length then some ⟨d.val, h⟩ else none

theorem widen_injective : Function.Injective (widen more : Fin entries.length → _) := by
  intro i j h
  have hval := congrArg Fin.val h
  exact Fin.ext hval

@[simp] theorem get_widen (i : Fin entries.length) :
    (entries ++ more).get (widen more i) = entries.get i := by
  simp [widen]

/-- A constant is one of the package or comes after all of these. -/
theorem exists_widen_or_le (d : Fin (entries ++ more).length) :
    (∃ i, d = widen more i) ∨ entries.length ≤ d.val := by
  rcases Nat.lt_or_ge d.val entries.length with h | h
  · exact .inl ⟨⟨d, h⟩, rfl⟩
  · exact .inr h

theorem get_mem_of_le {d : Fin (entries ++ more).length} (h : entries.length ≤ d.val) :
    (entries ++ more).get d ∈ more := by
  rw [List.get_eq_getElem, List.getElem_append_right h]
  exact List.getElem_mem _

theorem narrow_nil : narrow ([] : List (Fin (entries ++ more).length)) = [] :=
  List.filterMap_nil

@[simp] theorem narrow_widen (i : Fin entries.length) (l : List (Fin (entries ++ more).length)) :
    narrow (widen more i :: l) = i :: narrow l := by
  simp [narrow, widen]

theorem narrow_of_le {d : Fin (entries ++ more).length} (h : entries.length ≤ d.val)
    (l : List (Fin (entries ++ more).length)) : narrow (d :: l) = narrow l := by
  simp [narrow, Nat.not_lt.2 h]

theorem mem_narrow {l : List (Fin (entries ++ more).length)} {i : Fin entries.length} :
    i ∈ narrow l ↔ widen more i ∈ l := by
  simp only [narrow, List.mem_filterMap]
  constructor
  · rintro ⟨d, hd, h⟩
    split at h
    · cases h
      exact hd
    · cases h
  · intro h
    exact ⟨_, h, by simp [widen]⟩

theorem narrow_append (l m : List (Fin (entries ++ more).length)) :
    narrow (l ++ m) = narrow l ++ narrow m :=
  List.filterMap_append

/-- A choice from all constants that takes none of the appended ones is one from those of the package. -/
theorem filter_eq_map_widen {p : Fin (entries ++ more).length → Bool} {q : Fin entries.length → Bool}
    (hle : ∀ d, entries.length ≤ d.val → p d = false) (hp : ∀ i, p (widen more i) = q i)
    (l : List (Fin (entries ++ more).length)) :
    l.filter p = ((narrow l).filter q).map (widen more) := by
  induction l with
  | nil => rfl
  | cons d l ih =>
    rcases exists_widen_or_le d with ⟨i, rfl⟩ | hd
    · rw [narrow_widen, List.filter_cons, List.filter_cons, hp, ih]
      split <;> rfl
    · rw [narrow_of_le hd, List.filter_cons_of_neg (by simp [hle d hd]), ih]

theorem narrow_finRange : narrow (List.finRange (entries ++ more).length) =
    List.finRange entries.length := by
  have hsorted : (narrow (List.finRange (entries ++ more).length)).Pairwise (· < ·) := by
    rw [narrow, List.pairwise_filterMap]
    refine (List.pairwise_lt_finRange _).imp ?_
    intro a b hab i hi j hj
    split at hi <;> cases hi
    split at hj <;> cases hj
    exact hab
  refine hsorted.eq_of_mem_iff (List.pairwise_lt_finRange _) fun i => ?_
  simp [mem_narrow]

/-! ## References -/

/-- No expression of the package mentions an appended constant. -/
def Unmentioned (entries more : List ConstEntry) : Prop :=
  ∀ e ∈ entries, ∀ name ∈ e.expr.references, ∀ f ∈ more, f.name ≠ name

theorem findConstant?_append {name : String} (h : ∀ f ∈ more, f.name ≠ name) :
    findConstant? (entries ++ more) name = (findConstant? entries name).map (widen more) := by
  cases hfind : findConstant? entries name with
  | none =>
    rw [Option.map_none, findConstant?_eq_none_iff]
    intro e he
    exact (List.mem_append.1 he).elim (findConstant?_eq_none_iff.1 hfind e) (h e)
  | some i =>
    obtain ⟨hname, hlast⟩ := findConstant?_eq_some_iff.1 hfind
    rw [Option.map_some, findConstant?_eq_some_iff, get_widen]
    refine ⟨hname, fun d hd => ?_⟩
    rcases exists_widen_or_le d with ⟨j, rfl⟩ | hle
    · rw [get_widen]
      exact hlast j hd
    · exact h _ (get_mem_of_le hle)

theorem needs_widen_iff (hu : Unmentioned entries more) {i : Fin entries.length}
    {d : Fin (entries ++ more).length} :
    (ofEntries (entries ++ more)).Needs (widen more i) d ↔
      ∃ c, d = widen more c ∧ (ofEntries entries).Needs i c := by
  have hfind : ∀ name ∈ (entries.get i).expr.references,
      findConstant? (entries ++ more) name = (findConstant? entries name).map (widen more) :=
    fun name hname => findConstant?_append (hu _ (entries.get_mem i) name hname)
  simp only [Needs, deps_ofEntries, List.mem_eraseDups, List.mem_filterMap, get_widen]
  constructor
  · rintro ⟨name, hname, hd⟩
    rw [hfind name hname, Option.map_eq_some_iff] at hd
    obtain ⟨c, hc, rfl⟩ := hd
    exact ⟨c, rfl, name, hname, hc⟩
  · rintro ⟨c, rfl, name, hname, hc⟩
    exact ⟨name, hname, by rw [hfind name hname, hc, Option.map_some]⟩

theorem needs_widen (hu : Unmentioned entries more) {i c : Fin entries.length}
    (h : (ofEntries entries).Needs i c) :
    (ofEntries (entries ++ more)).Needs (widen more i) (widen more c) :=
  (needs_widen_iff hu).2 ⟨c, rfl, h⟩

/-- A constant of the package is on no cycle if it is on none with the appended constants. -/
theorem acyclic_of_append (hu : Unmentioned entries more)
    (h : Acyclic (ofEntries (entries ++ more))) : Acyclic (ofEntries entries) :=
  fun i hi => h (widen more i) (hi.lift (widen more) fun _ _ => needs_widen hu)

/-- All that a constant of the package needs belongs to the package. -/
theorem reaches_widen_iff (hu : Unmentioned entries more) {i : Fin entries.length}
    {d : Fin (entries ++ more).length} :
    ReflTransGen (ofEntries (entries ++ more)).Needs (widen more i) d ↔
      ∃ c, d = widen more c ∧ ReflTransGen (ofEntries entries).Needs i c := by
  constructor
  · intro h
    induction h with
    | refl => exact ⟨i, rfl, .refl⟩
    | tail _ hd ih =>
      obtain ⟨b, rfl, hb⟩ := ih
      obtain ⟨c, rfl, hc⟩ := (needs_widen_iff hu).1 hd
      exact ⟨c, rfl, hb.tail hc⟩
  · rintro ⟨c, rfl, hc⟩
    exact hc.lift (widen more) fun _ _ => needs_widen hu

/-! ## The order of evaluation -/

theorem ready_widen_iff (hu : Unmentioned entries more)
    {done : List (Fin (entries ++ more).length)} {i : Fin entries.length} :
    Ready (ofEntries (entries ++ more)).Needs done (widen more i) ↔
      Ready (ofEntries entries).Needs (narrow done) i := by
  unfold Ready
  rw [mem_narrow]
  refine and_congr_right fun _ => ⟨fun h c hc => mem_narrow.2 (h _ (needs_widen hu hc)), ?_⟩
  intro h d hd
  obtain ⟨c, rfl, hc⟩ := (needs_widen_iff hu).1 hd
  exact mem_narrow.1 (h c hc)

/-- A walk through all constants is, on those of the package, a walk through these alone: where it
takes one of them, that is the least ready one there too, and where it takes an appended one, nothing
changes for them. -/
theorem RefGraph.Greedy.narrowed (hu : Unmentioned entries more)
    {done order : List (Fin (entries ++ more).length)}
    (h : Greedy (ofEntries (entries ++ more)).Needs done order) :
    Greedy (ofEntries entries).Needs (narrow done) (narrow order) := by
  induction order generalizing done with
  | nil => exact fun i hi => h _ ((ready_widen_iff hu).2 hi)
  | cons d order ih =>
    obtain ⟨⟨hready, hleast⟩, hrest⟩ := h
    have hih := ih hrest
    rw [narrow_append] at hih
    rcases exists_widen_or_le d with ⟨i, rfl⟩ | hd
    · rw [narrow_widen] at hih ⊢
      refine ⟨⟨(ready_widen_iff hu).1 hready, fun j hj => ?_⟩, hih⟩
      exact hleast ((ready_widen_iff hu).2 hj)
    · rw [narrow_of_le hd] at hih ⊢
      rwa [narrow_nil, List.append_nil] at hih

theorem evaluationOrder_append (hu : Unmentioned entries more)
    {order : List (Fin (entries ++ more).length)}
    (h : (ofEntries (entries ++ more)).evaluationOrder = .ok order) :
    (ofEntries entries).evaluationOrder = .ok (narrow order) := by
  obtain ⟨hacyclic, -, hgreedy, -⟩ := (evaluationOrder_spec (deps_nodup _)).1 order h
  obtain ⟨own, hown⟩ := exists_evaluationOrder (acyclic_of_append hu hacyclic)
  obtain ⟨-, -, howngreedy, -⟩ := (evaluationOrder_spec (deps_nodup _)).1 own hown
  rw [hown, howngreedy.unique (hgreedy.narrowed hu)]

/-! ## The values of a type -/

/-- No appended constant is declared with the type. -/
def NoneOf (typeName : String) (more : List ConstEntry) : Prop :=
  ∀ f ∈ more, f.type ≠ some (.own typeName)

variable {typeName : String}

theorem membersOf_append (ht : NoneOf typeName more) :
    membersOf (entries ++ more) typeName = (membersOf entries typeName).map (widen more) := by
  have hall : narrow (List.finRange (entries ++ more).length) = List.finRange entries.length :=
    narrow_finRange
  rw [membersOf, membersOf, ← hall]
  refine filter_eq_map_widen (fun d hd => ?_) (fun i => by rw [get_widen]) _
  rw [Bool.eq_false_iff]
  intro hp
  have hmember : d ∈ membersOf (entries ++ more) typeName :=
    List.mem_filter.2 ⟨List.mem_finRange d, hp⟩
  exact ht _ (get_mem_of_le hd) (mem_membersOf.1 hmember)

/-- What a type needs with the appended constants is what it needs without them. -/
theorem mem_reach_append_iff (hu : Unmentioned entries more)
    {roots : List (Fin entries.length)} {d : Fin (entries ++ more).length} :
    d ∈ (ofEntries (entries ++ more)).reach [] (roots.map (widen more)) ↔
      ∃ c, d = widen more c ∧ c ∈ (ofEntries entries).reach [] roots := by
  simp only [mem_reach_iff, List.mem_map]
  constructor
  · rintro ⟨_, ⟨r, hr, rfl⟩, hd⟩
    obtain ⟨c, rfl, hc⟩ := (reaches_widen_iff hu).1 hd
    exact ⟨c, rfl, r, hr, hc⟩
  · rintro ⟨c, rfl, r, hr, hc⟩
    exact ⟨widen more r, ⟨r, hr, rfl⟩, (reaches_widen_iff hu).2 ⟨c, rfl, hc⟩⟩

theorem evaluationPlan_append (hu : Unmentioned entries more) (ht : NoneOf typeName more)
    (order : List (Fin (entries ++ more).length)) :
    evaluationPlan (ofEntries (entries ++ more)) (membersOf (entries ++ more) typeName) order =
      (evaluationPlan (ofEntries entries) (membersOf entries typeName) (narrow order)).map
        (widen more) := by
  rw [membersOf_append ht]
  refine filter_eq_map_widen (fun d hd => ?_) (fun i => ?_) order
  · rw [Bool.eq_false_iff, Ne, List.contains_iff_mem, mem_reach_append_iff hu]
    rintro ⟨c, rfl, -⟩
    exact absurd c.isLt (Nat.not_lt.2 hd)
  · rw [Bool.eq_iff_iff, List.contains_iff_mem, List.contains_iff_mem, mem_reach_append_iff hu]
    constructor
    · rintro ⟨c, hc, hreach⟩
      exact widen_injective hc ▸ hreach
    · exact fun h => ⟨i, rfl, h⟩

/-- Values that are known, when constants are appended. -/
def widenKnown (more : List ConstEntry) (known : List (Fin entries.length × Value)) :
    List (Fin (entries ++ more).length × Value) :=
  known.map fun p => (widen more p.1, p.2)

theorem lookup_widenKnown (known : List (Fin entries.length × Value)) (i : Fin entries.length) :
    (widenKnown more known).lookup (widen more i) = known.lookup i := by
  induction known with
  | nil => rfl
  | cons p known ih =>
    have hsame : (widen more i == widen more p.1) = (i == p.1) := by
      rw [Bool.eq_iff_iff, beq_iff_eq, beq_iff_eq, widen_injective.eq_iff]
    rw [widenKnown, List.map_cons, List.lookup_cons, List.lookup_cons, hsame, ← ih, widenKnown]

/-- A constant of the package sees the same values, for it mentions no appended constant. -/
theorem valueIn_widenKnown (hu : Unmentioned entries more) (meaning : String → TypeMeaning)
    (known : List (Fin entries.length × Value)) (i : Fin entries.length) :
    (entries.get i).valueIn (scopeOf (entries ++ more) meaning (widenKnown more known)) =
      (entries.get i).valueIn (scopeOf entries meaning known) := by
  refine valueIn_congr (by rfl) _ fun name hname => ?_
  rw [constant?_scopeOf, constant?_scopeOf,
    findConstant?_append (hu _ (entries.get_mem i) name hname)]
  cases findConstant? entries name with
  | none => rfl
  | some d => exact lookup_widenKnown known d

theorem evaluateAll_widenKnown (hu : Unmentioned entries more) (meaning : String → TypeMeaning)
    (plan : List (Fin entries.length)) (known : List (Fin entries.length × Value)) :
    evaluateAll (entries ++ more) meaning (plan.map (widen more)) (widenKnown more known) =
      (evaluateAll entries meaning plan known).map (widenKnown more) := by
  induction plan generalizing known with
  | nil => rfl
  | cons i plan ih =>
    rw [List.map_cons, evaluateAll, evaluateAll, get_widen, valueIn_widenKnown hu]
    cases (entries.get i).valueIn (scopeOf entries meaning known) with
    | error problem => rfl
    | ok v => exact ih ((i, v) :: known)

theorem resolvedMembers_append (ht : NoneOf typeName more)
    (known : List (Fin entries.length × Value)) :
    resolvedMembers (entries ++ more) typeName (widenKnown more known) =
      resolvedMembers entries typeName known := by
  unfold resolvedMembers
  rw [membersOf_append ht, List.map_map]
  refine List.map_congr_left fun i _ => ?_
  rw [Function.comp_apply, lookup_widenKnown, get_widen]

/-- **Constants that nothing mentions change nothing.**  Where no expression of the package mentions
an appended constant, none of these is declared with the type and there is no cycle, the outcome for
the type, be it a table or a failure, is that of the package alone, whatever the appended
expressions are. -/
theorem resolveValues_append (meaning : String → TypeMeaning) (policy : AliasPolicy)
    (hu : Unmentioned entries more) (ht : NoneOf typeName more)
    (hacyclic : Acyclic (ofEntries (entries ++ more))) :
    resolveValues (entries ++ more) meaning typeName policy =
      resolveValues entries meaning typeName policy := by
  obtain ⟨order, horder⟩ := exists_evaluationOrder hacyclic
  have hrun := evaluateAll_widenKnown hu meaning
    (evaluationPlan (ofEntries entries) (membersOf entries typeName) (narrow order)) []
  rw [← evaluationPlan_append hu ht, widenKnown, List.map_nil] at hrun
  unfold resolveValues
  simp only [horder, evaluationOrder_append hu horder, hrun]
  rw [membersOf_append ht, List.isEmpty_map]
  cases evaluateAll entries meaning (evaluationPlan (ofEntries entries)
      (membersOf entries typeName) (narrow order)) [] with
  | error e => rfl
  | ok known => simp only [Except.map, resolvedMembers_append ht]

/-- `Halved = First / (Base - Base)`, `Ratio = 1.5 * Halved`: nothing but failures if they were
evaluated. -/
def brokenEntries : List ConstEntry :=
  let mention (name : String) : Expr := .name ⟨name, ⟨1, 1⟩⟩
  let nothing : Expr := .binary .sub (mention "Base") (mention "Base")
  [⟨"Halved", "rest.go", ⟨2, 7⟩, none, .binary .quotient (mention "First") (.paren nothing), 0, 3⟩,
   ⟨"Ratio", "rest.go", ⟨3, 7⟩, none, .binary .mul (.float "1.5") (mention "Halved"), 0, 4⟩]

theorem resolveValues_append_brokenEntries :
    Unmentioned pillEntries brokenEntries ∧ NoneOf "Pill" brokenEntries ∧
    Acyclic (ofEntries (pillEntries ++ brokenEntries)) ∧
    resolveValues (pillEntries ++ brokenEntries) pillMeaning "Pill" .lexical =
      .ok ⟨"Pill", .uint8, [⟨"Last", 12, []⟩, ⟨"First", 10, []⟩]⟩ := by
  have hu : Unmentioned pillEntries brokenEntries := by
    unfold Unmentioned
    decide
  have ht : NoneOf "Pill" brokenEntries := by
    unfold NoneOf
    decide
  have horder : (ofEntries (pillEntries ++ brokenEntries)).evaluationOrder =
      .ok [⟨2, by decide⟩, ⟨1, by decide⟩, ⟨0, by decide⟩, ⟨3, by decide⟩, ⟨4, by decide⟩] := by cbv
  have hacyclic : Acyclic (ofEntries (pillEntries ++ brokenEntries)) :=
    ((evaluationOrder_spec (deps_nodup _)).1 _ horder).1
  refine ⟨hu, ht, hacyclic, ?_⟩
  rw [resolveValues_append pillMeaning .lexical hu ht hacyclic]
  cbv

end EnumCodec
