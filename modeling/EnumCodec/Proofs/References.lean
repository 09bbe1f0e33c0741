import EnumCodec.Constant.References
import Mathlib.Data.Fin.Basic
import Mathlib.Data.List.Nodup
import Mathlib.Logic.Relation
import Mathlib.Order.Fin.Basic

/-!
# What the reference graph says

* `Mentions entries i d` — the expression of the constant `i` mentions the name of the constant `d`.
* `RefGraph.needs_ofEntries_iff` — the graph of a package whose names are declared once each has an
  edge exactly where one constant mentions another; `RefGraph.deps_nodup` — and lists it once.
* `RefGraph.mem_reach_iff` — `reach` meets what a chain of references leads to, and nothing else.
-/

set_option autoImplicit false

namespace EnumCodec

open Relation

/-- No two constants have the same name. -/
def DistinctNames (entries : List ConstEntry) : Prop := (entries.map (·.name)).Nodup

instance (entries : List ConstEntry) : Decidable (DistinctNames entries) :=
  inferInstanceAs (Decidable (entries.map (·.name)).Nodup)

/-- The expression of the constant `i` mentions the constant `d`. -/
def Mentions (entries : List ConstEntry) (i d : Fin entries.length) : Prop :=
  (entries.get d).name ∈ (entries.get i).expr.references

instance (entries : List ConstEntry) : DecidableRel (Mentions entries) := fun i d =>
  inferInstanceAs (Decidable ((entries.get d).name ∈ (entries.get i).expr.references))

/-! ## Names -/

theorem get_name_inj {entries : List ConstEntry} (hd : DistinctNames entries)
    {i j : Fin entries.length} (h : (entries.get i).name = (entries.get j).name) : i = j := by
  have hlen : (entries.map (·.name)).length = entries.length := List.length_map _
  have hget : (entries.map (·.name)).get (i.cast hlen.symm) =
      (entries.map (·.name)).get (j.cast hlen.symm) := by simpa using h
  exact Fin.cast_injective hlen.symm (List.nodup_iff_injective_get.1 hd hget)

section Names

variable {entries : List ConstEntry} {name : String} {i : Fin entries.length}

theorem findConstant?_eq_none_iff :
    findConstant? entries name = none ↔ ∀ e ∈ entries, e.name ≠ name := by
  rw [findConstant?, List.findRev?_eq_find?_reverse, List.find?_eq_none]
  simp only [List.mem_reverse, List.mem_finRange, true_implies, beq_iff_eq]
  constructor
  · intro h e he
    obtain ⟨i, rfl⟩ := List.get_of_mem he
    exact h i
  · exact fun h i => h _ (entries.get_mem i)

/-- What is found has the name, and no constant after it has. -/
theorem of_findConstant?_eq_some (h : findConstant? entries name = some i) :
    (entries.get i).name = name ∧ ∀ j, i < j → (entries.get j).name ≠ name := by
  rw [findConstant?, List.findRev?_eq_find?_reverse, List.find?_eq_some_iff_append] at h
  obtain ⟨hname, later, earlier, split, none⟩ := h
  refine ⟨beq_iff_eq.1 hname, fun j hj => ?_⟩
  have falling : (later ++ i :: earlier).Pairwise (· > ·) := by
    rw [← split, List.pairwise_reverse]
    exact List.pairwise_lt_finRange _
  have mem : j ∈ later ++ i :: earlier := by simp [← split]
  rcases List.mem_append.1 mem with hlater | hrest
  · simpa using none j hlater
  rcases List.mem_cons.1 hrest with rfl | hearlier
  · exact absurd hj (lt_irrefl _)
  · have := List.rel_of_pairwise_cons (List.pairwise_append.1 falling).2.1 hearlier
    exact absurd hj this.not_gt

/-- **Of the constants with a name, the last one is found.** -/
theorem findConstant?_eq_some_iff :
    findConstant? entries name = some i ↔
      (entries.get i).name = name ∧ ∀ j, i < j → (entries.get j).name ≠ name := by
  refine ⟨of_findConstant?_eq_some, fun ⟨hname, hlast⟩ => ?_⟩
  cases hfind : findConstant? entries name with
  | none => exact absurd hname (findConstant?_eq_none_iff.1 hfind _ (entries.get_mem i))
  | some k =>
    obtain ⟨hk, hklast⟩ := of_findConstant?_eq_some hfind
    rcases lt_trichotomy i k with hlt | rfl | hlt
    · exact absurd hk (hlast k hlt)
    · rfl
    · exact absurd hname (hklast i hlt)

theorem name_of_findConstant? (h : findConstant? entries name = some i) :
    (entries.get i).name = name :=
  (of_findConstant?_eq_some h).1

theorem findConstant?_name (hd : DistinctNames entries) (i : Fin entries.length) :
    findConstant? entries (entries.get i).name = some i :=
  findConstant?_eq_some_iff.2 ⟨rfl, fun _ hj h => hj.ne' (get_name_inj hd h)⟩

end Names

/-! ## Edges -/

theorem nodup_eraseDups {α : Type} [BEq α] [LawfulBEq α] : ∀ l : List α, l.eraseDups.Nodup
  | [] => by simp
  | a :: l => by
    rw [List.eraseDups_cons, List.nodup_cons]
    exact ⟨by simp, nodup_eraseDups _⟩
termination_by l => l.length
decreasing_by exact Nat.lt_succ_of_le (List.length_filter_le ..)

namespace RefGraph

variable {n : Nat}

/-- In the graph, the constant `i` mentions the constant `d`. -/
def Needs (g : RefGraph n) (i d : Fin n) : Prop := d ∈ g.deps i

theorem deps_ofEntries (entries : List ConstEntry) (i : Fin entries.length) :
    (ofEntries entries).deps i =
      ((entries.get i).expr.references.filterMap (findConstant? entries)).eraseDups := by
  simp [ofEntries]

theorem deps_nodup (entries : List ConstEntry) (i : Fin entries.length) :
    ((ofEntries entries).deps i).Nodup := by
  rw [deps_ofEntries]
  exact nodup_eraseDups _

theorem needs_ofEntries_iff {entries : List ConstEntry} (hd : DistinctNames entries)
    {i d : Fin entries.length} : (ofEntries entries).Needs i d ↔ Mentions entries i d := by
  unfold Needs Mentions
  rw [deps_ofEntries, List.mem_eraseDups, List.mem_filterMap]
  constructor
  · rintro ⟨name, hname, hfind⟩
    rw [name_of_findConstant? hfind]
    exact hname
  · intro h
    exact ⟨_, h, findConstant?_name hd d⟩

theorem needs_ofEntries {entries : List ConstEntry} (hd : DistinctNames entries) :
    (ofEntries entries).Needs = Mentions entries :=
  funext fun _ => funext fun _ => propext (needs_ofEntries_iff hd)

/-! ## Chains of references -/

/-- A search only meets what it started with and what a chain of references leads to. -/
theorem reach_sound (g : RefGraph n) (seen todo : List (Fin n)) :
    ∀ i ∈ g.reach seen todo, i ∈ seen ∨ ∃ t ∈ todo, ReflTransGen g.Needs t i := by
  fun_induction g.reach seen todo with
  | case1 seen => exact fun i hi => Or.inl hi
  | case2 seen t rest _ ih =>
    intro i hi
    rcases ih i hi with h | ⟨u, hu, h⟩
    · exact Or.inl h
    · exact Or.inr ⟨u, List.mem_cons_of_mem _ hu, h⟩
  | case3 seen t rest _ ih =>
    intro i hi
    rcases ih i hi with h | ⟨u, hu, h⟩
    · rcases List.mem_cons.1 h with rfl | h
      · exact Or.inr ⟨i, List.mem_cons_self, .refl⟩
      · exact Or.inl h
    · rcases List.mem_append.1 hu with hu | hu
      · exact Or.inr ⟨t, List.mem_cons_self, .head hu h⟩
      · exact Or.inr ⟨u, List.mem_cons_of_mem _ hu, h⟩

theorem subset_reach (g : RefGraph n) (seen todo : List (Fin n)) :
    (∀ i ∈ seen, i ∈ g.reach seen todo) ∧ (∀ i ∈ todo, i ∈ g.reach seen todo) := by
  fun_induction g.reach seen todo with
  | case1 seen => exact ⟨fun i hi => hi, fun i hi => by cases hi⟩
  | case2 seen t rest ht ih =>
    refine ⟨ih.1, fun i hi => ?_⟩
    rcases List.mem_cons.1 hi with rfl | hi
    · exact ih.1 _ ht
    · exact ih.2 _ hi
  | case3 seen t rest _ ih =>
    refine ⟨fun i hi => ih.1 _ (List.mem_cons_of_mem _ hi), fun i hi => ?_⟩
    rcases List.mem_cons.1 hi with rfl | hi
    · exact ih.1 _ List.mem_cons_self
    · exact ih.2 _ (List.mem_append_right _ hi)

/-- What a search has met mentions only what it has met or still has to look at; so in the end it
mentions only what was met. -/
theorem reach_closed (g : RefGraph n) (seen todo : List (Fin n))
    (h : ∀ i ∈ seen, ∀ d ∈ g.deps i, d ∈ seen ∨ d ∈ todo) :
    ∀ i ∈ g.reach seen todo, ∀ d ∈ g.deps i, d ∈ g.reach seen todo := by
  fun_induction g.reach seen todo with
  | case1 seen => exact fun i hi d hdep => (h i hi d hdep).resolve_right (by simp)
  | case2 seen t rest ht ih =>
    refine ih fun i hi d hdep => ?_
    rcases h i hi d hdep with hd | hd
    · exact Or.inl hd
    · rcases List.mem_cons.1 hd with rfl | hd
      · exact Or.inl ht
      · exact Or.inr hd
  | case3 seen t rest _ ih =>
    refine ih fun i hi d hdep => ?_
    rcases List.mem_cons.1 hi with rfl | hi
    · exact Or.inr (List.mem_append_left _ hdep)
    · rcases h i hi d hdep with hd | hd
      · exact Or.inl (List.mem_cons_of_mem _ hd)
      · rcases List.mem_cons.1 hd with rfl | hd
        · exact Or.inl List.mem_cons_self
        · exact Or.inr (List.mem_append_right _ hd)

/-- **The search from some constants meets exactly what chains of references from them lead to.** -/
theorem mem_reach_iff {g : RefGraph n} {roots : List (Fin n)} {i : Fin n} :
    i ∈ g.reach [] roots ↔ ∃ r ∈ roots, ReflTransGen g.Needs r i := by
  constructor
  · intro h
    exact (reach_sound g [] roots i h).resolve_left (by simp)
  · rintro ⟨r, hr, h⟩
    induction h with
    | refl => exact (subset_reach g [] roots).2 r hr
    | tail _ hstep ih => exact reach_closed g [] roots (by simp) _ ih _ hstep

end RefGraph

end EnumCodec
