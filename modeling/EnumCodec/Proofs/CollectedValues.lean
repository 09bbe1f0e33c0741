import EnumCodec.Constant.ValueTable
import EnumCodec.Proofs.ByteOrder
import EnumCodec.Proofs.References
import Mathlib.Data.List.Find
import Mathlib.Data.List.Forall2

/-!
# Which names a value table gives to which values

A constant of a list has a place there; `DeclaredBefore` orders constants by their indices, and those of
one index by their places.  `Collects` says what a table is of a list of constants: its values, their
order, and for each value which of its constants gives the name and which ones the aliases.

* `placed_sorted`, `inOrder_eq` — sorting is stable: the constants come out as they are declared.
* `pairwise_eraseDups` — values listed without repetition stand in the order of their first constants.
* `Slots.Hold` — the slots and the groups in step while constants are met one after the other: a group
  for each value that was met, with the names of the constants that have it.
* `leastName_spec`, `exists_election` — the election among the constants of one value.
* `ValueTable.build_collects` — what is built is a table of the constants, under both policies.
-/

set_option autoImplicit false

namespace EnumCodec

/-! ## Constants and their places -/

/-- The first constant, at its place in a list, is declared before the second one. -/
def DeclaredBefore (a b : ResolvedConstant × Nat) : Prop :=
  a.1.index < b.1.index ∨ a.1.index = b.1.index ∧ a.2 < b.2

/-- The constants with a value, with their places in the list. -/
def sharing (constants : List ResolvedConstant) (value : Int) : List (ResolvedConstant × Nat) :=
  constants.zipIdx.filter fun a => a.1.value == value

/-- Of all constants with the value, the constant is declared first. -/
def IsFirstWith (constants : List ResolvedConstant) (value : Int) (a : ResolvedConstant × Nat) :
    Prop :=
  a ∈ sharing constants value ∧ ∀ b ∈ sharing constants value, b = a ∨ DeclaredBefore a b

/-- Of two constants with one value, the policy takes the name of the first one.  Under the lexical
policy this is the one whose name has the lesser bytes. -/
def AliasPolicy.Prefers (policy : AliasPolicy) (a b : ResolvedConstant × Nat) : Prop :=
  match policy with
  | .first => DeclaredBefore a b
  | .lexical => bytes a.1.name < bytes b.1.name ∨ a.1.name = b.1.name ∧ DeclaredBefore a b

/-- The entry is that of the constants with its value: the winner gives its name, and the losers, in
the order of their declarations, give its aliases. -/
structure Elected (policy : AliasPolicy) (constants : List ResolvedConstant) (e : ValueEntry)
    (winner : ResolvedConstant × Nat) (losers : List (ResolvedConstant × Nat)) : Prop where
  all : (winner :: losers).Perm (sharing constants e.value)
  name : e.name = winner.1.name
  aliases : e.aliases = losers.map (·.1.name)
  declared : losers.Pairwise DeclaredBefore
  preferred : ∀ loser ∈ losers, policy.Prefers winner loser

/-- The entries are those of the values of the constants. -/
structure Collects (policy : AliasPolicy) (constants : List ResolvedConstant)
    (entries : List ValueEntry) : Prop where
  distinct : (entries.map (·.value)).Nodup
  values : ∀ value, value ∈ entries.map (·.value) ↔ ∃ c ∈ constants, c.value = value
  ordered : entries.Pairwise fun e f => ∃ a b,
    IsFirstWith constants e.value a ∧ IsFirstWith constants f.value b ∧ DeclaredBefore a b
  names : ∀ e ∈ entries, (e.name :: e.aliases).Perm
    ((constants.filter fun c => c.value == e.value).map (·.name))
  elected : ∀ e ∈ entries, ∃ winner losers, Elected policy constants e winner losers

/-- The names of the constants with the given value. -/
def namesWith (constants : List ResolvedConstant) (value : Int) : List String :=
  (constants.filter fun c => c.value == value).map (·.name)

/-! ## The order of the declarations -/

/-- The constants with their places, as they are declared. -/
def placed (constants : List ResolvedConstant) : List (ResolvedConstant × Nat) :=
  constants.zipIdx.mergeSort (List.zipIdxLE fun a b => a.index ≤ b.index)

variable {constants : List ResolvedConstant} {value : Int}

theorem inOrder_eq (constants : List ResolvedConstant) :
    ValueTable.inOrder constants = (placed constants).map (·.1) :=
  List.mergeSort_zipIdx.symm

theorem placed_perm (constants : List ResolvedConstant) :
    (placed constants).Perm constants.zipIdx :=
  List.mergeSort_perm ..

theorem placed_sorted (constants : List ResolvedConstant) :
    (placed constants).Pairwise DeclaredBefore := by
  have sorted : (placed constants).Pairwise fun a b =>
      List.zipIdxLE (fun a b : ResolvedConstant => decide (a.index ≤ b.index)) a b = true := by
    apply List.pairwise_mergeSort
    · apply List.zipIdxLE_trans
      intro a b c
      simp only [decide_eq_true_eq]
      omega
    · apply List.zipIdxLE_total
      intro a b
      simp only [Bool.or_eq_true, decide_eq_true_eq]
      omega
  have places : (placed constants).Pairwise fun a b => a.2 ≠ b.2 := by
    have nodup : ((placed constants).map (·.2)).Nodup := by
      rw [((placed_perm constants).map _).nodup_iff, List.zipIdx_map_snd]
      exact List.nodup_range'
    exact List.pairwise_map.mp nodup
  refine (sorted.and places).imp ?_
  rintro a b ⟨le, apart⟩
  unfold DeclaredBefore
  unfold List.zipIdxLE at le
  grind

/-- The constants with a value, as they are declared. -/
theorem filter_placed (constants : List ResolvedConstant) (value : Int) :
    ((placed constants).filter fun a => a.1.value == value).Perm (sharing constants value) ∧
      ((placed constants).filter fun a => a.1.value == value).Pairwise DeclaredBefore :=
  ⟨(placed_perm constants).filter _, (placed_sorted constants).filter _⟩

theorem namesWith_inOrder (constants : List ResolvedConstant) (value : Int) :
    namesWith (ValueTable.inOrder constants) value =
      ((placed constants).filter fun a => a.1.value == value).map (·.1.name) := by
  rw [namesWith, inOrder_eq, List.filter_map, List.map_map]
  rfl

theorem sharing_names (constants : List ResolvedConstant) (value : Int) :
    (sharing constants value).map (·.1.name) =
      (constants.filter fun c => c.value == value).map (·.name) := by
  conv_rhs => rw [← List.zipIdx_map_fst 0 constants, List.filter_map, List.map_map]
  rfl

/-! ## The order of the values -/

/-- The first element of a list that is mapped to a value is found before that of another value, if
the first value is listed before the other one. -/
theorem pairwise_eraseDups {α β : Type} [BEq β] [LawfulBEq β] {R : α → α → Prop} (f : α → β)
    {l : List α} (sorted : l.Pairwise R) :
    (l.map f).eraseDups.Pairwise fun v w => ∃ a b,
      l.find? (f · == v) = some a ∧ l.find? (f · == w) = some b ∧ R a b := by
  induction size : l.length using Nat.strongRecOn generalizing l with
  | _ n ih =>
  cases l with
  | nil => simp
  | cons c l =>
    obtain ⟨before, sorted⟩ := List.pairwise_cons.mp sorted
    have later : ((l.map f).filter fun v => !v == f c) = (l.filter fun a => !f a == f c).map f := by
      rw [List.filter_map]
      rfl
    have shorter : (l.filter fun a => !f a == f c).length < n := by
      have := List.length_filter_le (fun a => !f a == f c) l
      rw [← size, List.length_cons]
      omega
    -- what is found among the elements with other values is found in the whole list
    have found : ∀ {w a}, (l.filter fun a => !f a == f c).find? (f · == w) = some a →
        (c :: l).find? (f · == w) = some a ∧ a ∈ l := by
      intro w a h
      rw [List.find?_filter] at h
      have other := List.find?_some h
      simp only [decide_eq_true_eq, Bool.not_eq_true', beq_eq_false_iff_ne, beq_iff_eq] at other
      obtain ⟨apart, rfl⟩ := other
      refine ⟨?_, List.mem_of_find?_eq_some h⟩
      rw [List.find?_cons_of_neg (by simpa using apart.symm), ← h]
      apply List.find?_congr
      intro b hb
      grind
    rw [List.map_cons, List.eraseDups_cons, later, List.pairwise_cons]
    constructor
    · intro w hw
      rw [List.mem_eraseDups, List.mem_map] at hw
      obtain ⟨b, hb, rfl⟩ := hw
      have some_found : ((l.filter fun a => !f a == f c).find? (f · == f b)).isSome = true :=
        List.find?_isSome.mpr ⟨b, hb, beq_self_eq_true _⟩
      obtain ⟨a, ha⟩ := Option.isSome_iff_exists.mp some_found
      exact ⟨c, a, List.find?_cons_of_pos (beq_self_eq_true _), (found ha).1, before a (found ha).2⟩
    · apply (ih _ shorter (sorted.filter _) rfl).imp
      rintro v w ⟨a, b, ha, hb, R⟩
      exact ⟨a, b, (found ha).1, (found hb).1, R⟩

/-- The first of the constants with a value, as they are declared. -/
theorem isFirstWith_of_find? {a : ResolvedConstant × Nat}
    (h : (placed constants).find? (·.1.value == value) = some a) :
    IsFirstWith constants value a := by
  obtain ⟨perm, sorted⟩ := filter_placed constants value
  obtain ⟨more, eq⟩ := List.head?_eq_some_iff.mp ((List.head?_filter ..).trans h)
  rw [eq] at perm sorted
  refine ⟨perm.subset List.mem_cons_self, ?_⟩
  intro b hb
  rcases List.mem_cons.mp (perm.symm.subset hb) with rfl | later
  · exact .inl rfl
  · exact .inr ((List.pairwise_cons.mp sorted).1 b later)

/-! ## The pass -/

theorem namesWith_snoc_self (met : List ResolvedConstant) (c : ResolvedConstant) :
    namesWith (met ++ [c]) c.value = namesWith met c.value ++ [c.name] := by
  simp [namesWith]

theorem namesWith_snoc_of_ne (met : List ResolvedConstant) {c : ResolvedConstant}
    (h : c.value ≠ value) : namesWith (met ++ [c]) value = namesWith met value := by
  simp [namesWith, h]

theorem eraseDups_snoc_of_mem {l : List Int} (h : value ∈ l) :
    (l ++ [value]).eraseDups = l.eraseDups := by
  simp [List.eraseDups_append, List.removeAll, h]

theorem eraseDups_snoc_of_notMem {l : List Int} (h : value ∉ l) :
    (l ++ [value]).eraseDups = l.eraseDups ++ [value] := by
  simp [List.eraseDups_append, List.removeAll, h, List.eraseDups_cons]

theorem getElem?_snoc_eq_some_iff {l : List Int} {a b : Int} {k : Nat} :
    (l ++ [a])[k]? = some b ↔ l[k]? = some b ∨ k = l.length ∧ b = a := by
  rw [List.getElem?_append]
  split
  · rename_i inside
    simp [inside.ne]
  · rename_i outside
    rw [List.getElem?_eq_none (Nat.not_lt.mp outside), List.getElem?_singleton]
    have zero : k - l.length = 0 ↔ k = l.length := by omega
    simp [zero, eq_comm]

namespace Slots

/-- What holds when some constants were met: there is one group for each of their values, in the order
of the first constants, with the names of all that have it; and a value is in the slot of its group. -/
structure Hold (s : Slots) (met : List ResolvedConstant) : Prop where
  values : s.groups.map (·.value) = (met.map (·.value)).eraseDups
  names : ∀ g ∈ s.groups, g.first :: g.rest = namesWith met g.value
  slot : ∀ value k, s.slotOf.lookup value = some k ↔ (s.groups.map (·.value))[k]? = some value

variable {s : Slots} {met : List ResolvedConstant} {c : ResolvedConstant}

theorem Hold.mem_values_iff (h : s.Hold met) :
    value ∈ s.groups.map (·.value) ↔ value ∈ met.map (·.value) := by
  rw [h.values, List.mem_eraseDups]

theorem Hold.distinct (h : s.Hold met) : (s.groups.map (·.value)).Nodup :=
  h.values ▸ nodup_eraseDups _

/-- A value that has a slot: its group gets a further name, and all others stay. -/
theorem Hold.push (h : s.Hold met) {k : Nat} (found : s.slotOf.lookup c.value = some k) :
    Hold { s with groups := s.groups.modify k fun g => g.push c.name } (met ++ [c]) := by
  have value := (h.slot _ _).mp found
  have met_value : c.value ∈ met.map (·.value) := h.mem_values_iff.mp (List.mem_of_getElem? value)
  have inside : k < s.groups.length := by
    simpa using (List.getElem?_eq_some_iff.mp value).1
  obtain ⟨before, g, after, split, length, modified⟩ :=
    List.exists_of_modify (fun g => g.push c.name) inside
  have own : g.value = c.value := by simpa [split, ← length] using value
  have kept : (before ++ g.push c.name :: after).map (·.value) = s.groups.map (·.value) := by
    simp [split, ValueGroup.push]
  have apart := h.distinct
  rw [split, List.map_append, List.map_cons, List.nodup_append, List.nodup_cons] at apart
  rw [modified]
  refine ⟨?_, fun g' hg' => ?_, fun value k => by rw [kept, h.slot]⟩
  · rw [kept, h.values, List.map_append, List.map_singleton, eraseDups_snoc_of_mem met_value]
  have others : ∀ g' ∈ s.groups, g'.value ≠ c.value →
      g'.first :: g'.rest = namesWith (met ++ [c]) g'.value := fun g' hg' ne => by
    rw [h.names g' hg', namesWith_snoc_of_ne met ne.symm]
  rcases List.mem_append.mp hg' with early | here
  · refine others g' (by simp [split, early]) fun same => ?_
    exact apart.2.2 _ (List.mem_map_of_mem early) _ List.mem_cons_self (same.trans own.symm)
  rcases List.mem_cons.mp here with rfl | late
  · have names := h.names g (by simp [split])
    dsimp only [ValueGroup.push]
    rw [own, namesWith_snoc_self, ← own, ← names, List.cons_append]
  · refine others g' (by simp [split, late]) fun same => ?_
    exact apart.2.1.1 (own.trans same.symm ▸ List.mem_map_of_mem late)

/-- A value without a slot gets one, with a group of its own. -/
theorem Hold.open (h : s.Hold met) (fresh : s.slotOf.lookup c.value = none) :
    Hold ⟨(c.value, s.groups.length) :: s.slotOf, s.groups ++ [⟨c.value, c.name, []⟩]⟩
      (met ++ [c]) := by
  have new : c.value ∉ s.groups.map (·.value) := by
    intro mem
    obtain ⟨k, hk⟩ := List.mem_iff_getElem?.mp mem
    rw [(h.slot _ _).mpr hk] at fresh
    cases fresh
  have unmet : c.value ∉ met.map (·.value) := fun mem => new (h.mem_values_iff.mpr mem)
  refine ⟨?_, fun g hg => ?_, fun value k => ?_⟩
  · rw [List.map_append, List.map_singleton, h.values, List.map_append, List.map_singleton,
      eraseDups_snoc_of_notMem unmet]
  · rcases List.mem_append.mp hg with old | hg
    · have ne : c.value ≠ g.value := fun same => new (same ▸ List.mem_map_of_mem old)
      rw [h.names g old, namesWith_snoc_of_ne met ne]
    · obtain rfl := List.mem_singleton.mp hg
      have none : namesWith met c.value = [] := by
        simpa [namesWith, List.filter_eq_nil_iff] using unmet
      dsimp only
      rw [namesWith_snoc_self, none, List.nil_append]
  · have size : (s.groups.map (·.value)).length = s.groups.length := List.length_map _
    rw [List.lookup_cons, List.map_append, List.map_singleton]
    rw [getElem?_snoc_eq_some_iff, size]
    by_cases same : value = c.value
    · subst same
      have absent : (s.groups.map (·.value))[k]? ≠ some c.value :=
        fun found => new (List.mem_of_getElem? found)
      rw [or_iff_right absent]
      simp [eq_comm]
    · simp [beq_false_of_ne same, same, h.slot]

/-- One step of the pass. -/
theorem Hold.add (h : s.Hold met) (c : ResolvedConstant) : (s.add c).Hold (met ++ [c]) := by
  unfold Slots.add
  cases found : s.slotOf.lookup c.value with
  | none => exact h.open found
  | some k => exact h.push found

/-- The pass over all constants. -/
theorem Hold.foldl (h : s.Hold met) (constants : List ResolvedConstant) :
    (constants.foldl Slots.add s).Hold (met ++ constants) := by
  induction constants generalizing s met with
  | nil => rwa [List.append_nil]
  | cons c constants ih => simpa using ih (h.add c)

theorem hold_empty : empty.Hold [] := ⟨rfl, nofun, by simp [empty]⟩

end Slots

/-! ## The election -/

theorem leastName_spec (first : String) (rest : List String) :
    leastName first rest ∈ first :: rest ∧ ∀ s ∈ first :: rest, leastName first rest ≤ s := by
  unfold leastName
  induction rest generalizing first with
  | nil => simp
  | cons s rest ih =>
    rw [List.foldl_cons]
    split
    · rename_i less
      obtain ⟨mem, least⟩ := ih s
      refine ⟨List.mem_cons_of_mem _ mem, List.forall_mem_cons.mpr ⟨?_, least⟩⟩
      exact (least s List.mem_cons_self).trans less.le
    · rename_i notLess
      obtain ⟨mem, least⟩ := ih first
      refine ⟨by grind, ?_⟩
      intro s' hs'
      rcases List.mem_cons.mp hs' with rfl | hs'
      · exact least _ List.mem_cons_self
      rcases List.mem_cons.mp hs' with rfl | hs'
      · exact (least _ List.mem_cons_self).trans (not_lt.mp notLess)
      · exact least s' (List.mem_cons_of_mem _ hs')

/-- Among constants as they are declared, the policy elects one, and the other ones keep their
order. -/
theorem exists_election (policy : AliasPolicy) {a : ResolvedConstant × Nat}
    {more : List (ResolvedConstant × Nat)} (sorted : (a :: more).Pairwise DeclaredBefore) :
    ∃ winner losers, (winner :: losers).Perm (a :: more) ∧ losers.Pairwise DeclaredBefore ∧
      electName policy a.1.name (more.map (·.1.name)) = (winner.1.name, losers.map (·.1.name)) ∧
      ∀ loser ∈ losers, policy.Prefers winner loser := by
  cases policy with
  | first =>
    obtain ⟨first, sorted⟩ := List.pairwise_cons.mp sorted
    exact ⟨a, more, .refl _, sorted, rfl, first⟩
  | lexical =>
    obtain ⟨mem, least⟩ := leastName_spec a.1.name (more.map (·.1.name))
    rw [electName]
    generalize leastName a.1.name (more.map (·.1.name)) = name at mem least
    have names : a.1.name :: more.map (·.1.name) = (a :: more).map (·.1.name) := rfl
    rw [names] at mem least ⊢
    -- the first constant with the least name is taken out
    obtain ⟨before, after, absent, split, erased⟩ := List.exists_erase_eq mem
    obtain ⟨earlier, winner, later, rfl, rfl, rfl, eq⟩ : ∃ earlier winner later,
        earlier.map (·.1.name) = before ∧ winner.1.name = name ∧ later.map (·.1.name) = after ∧
          a :: more = earlier ++ winner :: later := by
      obtain ⟨earlier, rest, eq, before_eq, rest_eq⟩ := List.map_eq_append_iff.mp split
      obtain ⟨winner, later, rfl, name_eq, after_eq⟩ := List.map_eq_cons_iff.mp rest_eq
      exact ⟨earlier, winner, later, before_eq, name_eq, after_eq, eq⟩
    rw [eq] at sorted least ⊢
    have kept : (earlier ++ later).Sublist (earlier ++ winner :: later) :=
      (List.Sublist.refl _).append (List.sublist_cons_self ..)
    refine ⟨winner, earlier ++ later, List.perm_middle.symm, sorted.sublist kept, ?_, ?_⟩
    · rw [← eq, erased, List.map_append]
    intro loser hloser
    have le : winner.1.name ≤ loser.1.name :=
      least _ (List.mem_map.mpr ⟨loser, kept.subset hloser, rfl⟩)
    rcases eq_or_lt_of_le le with same | less
    · rcases List.mem_append.mp hloser with early | late
      · exact absurd (List.mem_map.mpr ⟨loser, early, same.symm⟩) absent
      · have declared := (List.pairwise_cons.mp (List.pairwise_append.mp sorted).2.1).1
        exact .inr ⟨same, declared loser late⟩
    · exact .inl (bytes_lt_iff.mpr less)

/-! ## The entries -/

theorem Elected.names_perm {policy : AliasPolicy} {e : ValueEntry} {winner : ResolvedConstant × Nat}
    {losers : List (ResolvedConstant × Nat)} (h : Elected policy constants e winner losers) :
    (e.name :: e.aliases).Perm
      ((constants.filter fun c => c.value == e.value).map (·.name)) := by
  rw [h.name, h.aliases, ← sharing_names]
  exact h.all.map (·.1.name)

/-- Where a group has the names of the constants with its value, its entry is elected among these. -/
theorem elected_entry (policy : AliasPolicy) {g : ValueGroup}
    (names : g.first :: g.rest = namesWith (ValueTable.inOrder constants) g.value) :
    ∃ winner losers, Elected policy constants (g.entry policy) winner losers := by
  obtain ⟨perm, sorted⟩ := filter_placed constants g.value
  rw [namesWith_inOrder] at names
  obtain ⟨a, more, group, first, rest⟩ := List.map_eq_cons_iff.mp names.symm
  rw [group] at perm sorted
  obtain ⟨winner, losers, all, declared, elected, preferred⟩ := exists_election policy sorted
  rw [first, rest] at elected
  refine ⟨winner, losers, ?_⟩
  exact {
    all := all.trans perm
    name := congrArg Prod.fst elected
    aliases := congrArg Prod.snd elected
    declared := declared
    preferred := preferred }

variable (typeName : String) (kind : IntKind) (policy : AliasPolicy)

theorem mem_values_iff :
    value ∈ ((ValueTable.inOrder constants).map (·.value)).eraseDups ↔
      ∃ c ∈ constants, c.value = value := by
  rw [List.mem_eraseDups, List.mem_map]
  simp only [ValueTable.inOrder, List.mem_mergeSort]

/-- What the pass over the constants of a table comes to. -/
theorem hold_inOrder (constants : List ResolvedConstant) :
    ((ValueTable.inOrder constants).foldl Slots.add Slots.empty).Hold
      (ValueTable.inOrder constants) :=
  Slots.hold_empty.foldl _

/-- The values of a table, whatever the policy. -/
theorem values_build :
    (ValueTable.build typeName kind constants policy).entries.map (·.value) =
      ((ValueTable.inOrder constants).map (·.value)).eraseDups := by
  rw [← (hold_inOrder constants).values]
  exact List.map_map

theorem elected_of_mem_build {e : ValueEntry}
    (h : e ∈ (ValueTable.build typeName kind constants policy).entries) :
    ∃ winner losers, Elected policy constants e winner losers := by
  obtain ⟨g, hg, rfl⟩ := List.mem_map.mp h
  exact elected_entry policy ((hold_inOrder constants).names g hg)

theorem collects_build :
    Collects policy constants (ValueTable.build typeName kind constants policy).entries where
  distinct := by
    rw [values_build]
    exact nodup_eraseDups _
  values := by
    intro value
    rw [values_build]
    exact mem_values_iff
  ordered := by
    have sorted := pairwise_eraseDups (fun a => a.1.value) (placed_sorted constants)
    have values : (placed constants).map (fun a => a.1.value) =
        (ValueTable.inOrder constants).map (·.value) := by
      rw [inOrder_eq, List.map_map]
      rfl
    rw [values, ← values_build typeName kind policy, List.pairwise_map] at sorted
    apply sorted.imp
    rintro e f ⟨a, b, ha, hb, before⟩
    exact ⟨a, b, isFirstWith_of_find? ha, isFirstWith_of_find? hb, before⟩
  names := by
    intro e he
    obtain ⟨winner, losers, elected⟩ := elected_of_mem_build typeName kind policy he
    exact elected.names_perm
  elected := fun e he => elected_of_mem_build typeName kind policy he

/-- **A value table collects the constants by their values.**  Its entries are those of the values of
the constants, in the order of their first declarations, and under another policy they have the same
values in the same order, with the same names. -/
theorem ValueTable.build_collects (constants : List ResolvedConstant) (typeName : String)
    (kind : IntKind) (policy : AliasPolicy) :
    Collects policy constants (ValueTable.build typeName kind constants policy).entries ∧
      ∀ other : AliasPolicy,
        List.Forall₂ (fun e f => e.value = f.value ∧ (e.name :: e.aliases).Perm (f.name :: f.aliases))
          (ValueTable.build typeName kind constants policy).entries
          (ValueTable.build typeName kind constants other).entries := by
  refine ⟨collects_build typeName kind policy, ?_⟩
  intro other
  have here := (@collects_build constants typeName kind policy).names
  have there := (@collects_build constants typeName kind other).names
  have same : List.Forall₂ (· = ·)
      ((ValueTable.build typeName kind constants policy).entries.map (·.value))
      ((ValueTable.build typeName kind constants other).entries.map (·.value)) := by
    rw [List.forall₂_eq_eq_eq, values_build, values_build]
  rw [List.forall₂_map_left_iff, List.forall₂_map_right_iff, List.forall₂_iff_zip] at same
  rw [List.forall₂_iff_zip]
  refine ⟨same.1, ?_⟩
  intro e f pair
  have value := same.2 pair
  obtain ⟨he, hf⟩ := List.of_mem_zip pair
  refine ⟨value, (here e he).trans ?_⟩
  rw [value]
  exact (there f hf).symm

end EnumCodec
