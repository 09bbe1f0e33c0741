import EnumCodec.Proofs.CollectedValues

/-!
# Values have names, and names have values

Where the constants have names of their own, a value table is a pairing of values and canonical names,
and under the lexical policy the order of the declarations leaves no trace in it.

* `find?_eq_some_iff_of_nodup` — a look-up by keys that do not repeat is membership.
* `nodup_names_build` — no name is elected twice.
* `nameOf?_eq_some_iff`, `valueOf?_eq_some_iff` — both look-ups read the same entries.
* `nameOf?_lexical_iff` — under the lexical policy the name of a value is the least one.
* `ValueTable.pairs_names_and_values` — the look-ups are inverse to each other.
-/

set_option autoImplicit false

namespace EnumCodec

/-- Where keys do not repeat, what is looked up by a key is what stands under it. -/
theorem find?_eq_some_iff_of_nodup {α β γ : Type} [BEq β] [LawfulBEq β] {key : α → β} {f : α → γ}
    {l : List α} (nodup : (l.map key).Nodup) {k : β} {v : γ} :
    (l.find? (key · == k)).map f = some v ↔ ∃ a ∈ l, key a = k ∧ f a = v := by
  rw [Option.map_eq_some_iff]
  constructor
  · rintro ⟨a, found, rfl⟩
    exact ⟨a, List.mem_of_find?_eq_some found, by simpa using List.find?_some found, rfl⟩
  · rintro ⟨a, ha, rfl, rfl⟩
    have isFound : (l.find? (key · == key a)).isSome = true :=
      List.find?_isSome.mpr ⟨a, ha, beq_self_eq_true (key a)⟩
    obtain ⟨b, found⟩ := Option.isSome_iff_exists.mp isFound
    have same : key b = key a := by simpa using List.find?_some found
    obtain rfl := List.inj_on_of_nodup_map nodup (List.mem_of_find?_eq_some found) ha same
    exact ⟨b, found, rfl⟩

variable {constants : List ResolvedConstant} {typeName : String} {kind : IntKind}
  {policy : AliasPolicy} {name : String} {value : Int}

/-! ## The names of an entry -/

/-- All names of an entry are those of constants with its value. -/
theorem exists_constant_of_mem_build {e : ValueEntry}
    (he : e ∈ (ValueTable.build typeName kind constants policy).entries)
    (hname : name ∈ e.name :: e.aliases) : ∃ c ∈ constants, c.value = e.value ∧ c.name = name := by
  have names := (collects_build typeName kind policy).names e he
  obtain ⟨c, hc, rfl⟩ := List.mem_map.mp (names.subset hname)
  obtain ⟨hc, value⟩ := List.mem_filter.mp hc
  exact ⟨c, hc, by simpa using value, rfl⟩

/-- Every constant has its name in the entry of its value. -/
theorem exists_entry_of_mem {c : ResolvedConstant} (hc : c ∈ constants) :
    ∃ e ∈ (ValueTable.build typeName kind constants policy).entries,
      e.value = c.value ∧ c.name ∈ e.name :: e.aliases := by
  have collects := @collects_build constants typeName kind policy
  obtain ⟨e, he, value⟩ := List.mem_map.mp ((collects.values c.value).mpr ⟨c, hc, rfl⟩)
  refine ⟨e, he, value, (collects.names e he).symm.subset ?_⟩
  exact List.mem_map.mpr ⟨c, List.mem_filter.mpr ⟨hc, by simp [value]⟩, rfl⟩

section Distinct

variable (distinct : (constants.map (·.name)).Nodup)
include distinct

theorem eq_of_name_eq {c d : ResolvedConstant} (hc : c ∈ constants) (hd : d ∈ constants)
    (same : c.name = d.name) : c = d :=
  List.inj_on_of_nodup_map distinct hc hd same

/-- Entries that share a name are those of one value. -/
theorem value_eq_of_shared_name {e f : ValueEntry}
    (he : e ∈ (ValueTable.build typeName kind constants policy).entries)
    (hf : f ∈ (ValueTable.build typeName kind constants policy).entries)
    (hname : name ∈ e.name :: e.aliases) (hname' : name ∈ f.name :: f.aliases) :
    e.value = f.value := by
  obtain ⟨c, hc, value, rfl⟩ := exists_constant_of_mem_build he hname
  obtain ⟨d, hd, value', same⟩ := exists_constant_of_mem_build hf hname'
  rw [← value, ← value', eq_of_name_eq distinct hd hc same]

/-- No name is elected twice. -/
theorem nodup_names_build :
    ((ValueTable.build typeName kind constants policy).entries.map (·.name)).Nodup := by
  have values := (@collects_build constants typeName kind policy).distinct
  refine List.Nodup.map_on ?_ (List.Nodup.of_map _ values)
  intro e he f hf same
  refine List.inj_on_of_nodup_map values he hf ?_
  exact value_eq_of_shared_name distinct he hf List.mem_cons_self (by simp [same])

/-- A name and its aliases are apart. -/
theorem name_notMem_aliases {e : ValueEntry}
    (he : e ∈ (ValueTable.build typeName kind constants policy).entries) :
    e.name ∉ e.aliases := by
  have names := (collects_build typeName kind policy).names e he
  have nodup : (e.name :: e.aliases).Nodup :=
    names.nodup_iff.mpr (distinct.sublist (List.filter_sublist.map _))
  exact (List.nodup_cons.mp nodup).1

end Distinct

/-! ## Looking up -/

theorem nameOf?_eq_some_iff :
    (ValueTable.build typeName kind constants policy).nameOf? value = some name ↔
      ∃ e ∈ (ValueTable.build typeName kind constants policy).entries,
        e.value = value ∧ e.name = name :=
  find?_eq_some_iff_of_nodup (collects_build typeName kind policy).distinct

theorem valueOf?_eq_some_iff (distinct : (constants.map (·.name)).Nodup) :
    (ValueTable.build typeName kind constants policy).valueOf? name = some value ↔
      ∃ e ∈ (ValueTable.build typeName kind constants policy).entries,
        e.name = name ∧ e.value = value :=
  find?_eq_some_iff_of_nodup (nodup_names_build distinct)

/-- The two look-ups are inverse to each other. -/
theorem valueOf?_iff_nameOf? (distinct : (constants.map (·.name)).Nodup) :
    (ValueTable.build typeName kind constants policy).valueOf? name = some value ↔
      (ValueTable.build typeName kind constants policy).nameOf? value = some name := by
  rw [valueOf?_eq_some_iff distinct, nameOf?_eq_some_iff]
  exact exists_congr fun e => and_congr_right fun _ => and_comm

/-- The values with names are those of the constants. -/
theorem isSome_nameOf?_iff :
    ((ValueTable.build typeName kind constants policy).nameOf? value).isSome = true ↔
      ∃ c ∈ constants, c.value = value := by
  rw [← (collects_build typeName kind policy).values value, Option.isSome_iff_exists, List.mem_map]
  simp only [nameOf?_eq_some_iff]
  exact ⟨fun ⟨_, e, he, value, _⟩ => ⟨e, he, value⟩, fun ⟨e, he, value⟩ => ⟨_, e, he, value, rfl⟩⟩

/-- A constant whose name is not that of its value has lost the election, and its name is an alias. -/
theorem mem_aliases_of_lost {c : ResolvedConstant} (hc : c ∈ constants)
    (lost : (ValueTable.build typeName kind constants policy).nameOf? c.value ≠ some c.name) :
    ∃ e ∈ (ValueTable.build typeName kind constants policy).entries,
      e.value = c.value ∧ c.name ∈ e.aliases := by
  obtain ⟨e, he, value, hname⟩ := @exists_entry_of_mem constants typeName kind policy c hc
  obtain elected | isAlias := List.mem_cons.mp hname
  · exact absurd (nameOf?_eq_some_iff.mpr ⟨e, he, value, elected.symm⟩) lost
  · exact ⟨e, he, value, isAlias⟩

/-- An alias has no value. -/
theorem valueOf?_alias (distinct : (constants.map (·.name)).Nodup) {e : ValueEntry}
    (he : e ∈ (ValueTable.build typeName kind constants policy).entries)
    (isAlias : name ∈ e.aliases) :
    (ValueTable.build typeName kind constants policy).valueOf? name = none := by
  rw [Option.eq_none_iff_forall_ne_some]
  intro value found
  obtain ⟨f, hf, rfl, rfl⟩ := (valueOf?_eq_some_iff distinct).mp found
  have values : e.value = f.value :=
    value_eq_of_shared_name distinct he hf (List.mem_cons_of_mem _ isAlias) List.mem_cons_self
  have distinctValues := (@collects_build constants typeName kind policy).distinct
  obtain rfl := List.inj_on_of_nodup_map distinctValues he hf values
  exact name_notMem_aliases distinct he isAlias

/-! ## The lexical policy -/

/-- A constant without its place: its name and its value. -/
def ResolvedConstant.binding (c : ResolvedConstant) : String × Int := (c.name, c.value)

theorem mem_bindings_iff :
    (name, value) ∈ constants.map ResolvedConstant.binding ↔
      ∃ c ∈ constants, c.value = value ∧ c.name = name := by
  simp [ResolvedConstant.binding, and_comm]

/-- Under the lexical policy the elected name is the least one. -/
theorem le_of_mem_build_lexical {e : ValueEntry}
    (he : e ∈ (ValueTable.build typeName kind constants .lexical).entries)
    (hname : name ∈ e.name :: e.aliases) : e.name ≤ name := by
  obtain ⟨winner, losers, elected⟩ := (collects_build typeName kind .lexical).elected e he
  rw [elected.name, elected.aliases] at hname
  rw [elected.name]
  obtain rfl | lost := List.mem_cons.mp hname
  · exact le_rfl
  obtain ⟨loser, hloser, rfl⟩ := List.mem_map.mp lost
  obtain less | ⟨same, -⟩ := elected.preferred loser hloser
  · exact (bytes_lt_iff.mp less).le
  · exact same.le

/-- Under the lexical policy the name of a value is the least name of a constant with this value. -/
theorem nameOf?_lexical_iff :
    (ValueTable.build typeName kind constants .lexical).nameOf? value = some name ↔
      (name, value) ∈ constants.map ResolvedConstant.binding ∧
        ∀ other, (other, value) ∈ constants.map ResolvedConstant.binding → name ≤ other := by
  simp only [mem_bindings_iff]
  constructor
  · intro found
    obtain ⟨e, he, rfl, rfl⟩ := nameOf?_eq_some_iff.mp found
    refine ⟨exists_constant_of_mem_build he List.mem_cons_self, ?_⟩
    rintro other ⟨c, hc, value, rfl⟩
    obtain ⟨f, hf, value', hname⟩ := @exists_entry_of_mem constants typeName kind .lexical c hc
    have distinctValues := (@collects_build constants typeName kind .lexical).distinct
    obtain rfl := List.inj_on_of_nodup_map distinctValues hf he (value'.trans value)
    exact le_of_mem_build_lexical he hname
  · rintro ⟨⟨c, hc, rfl, rfl⟩, least⟩
    obtain ⟨e, he, value, hname⟩ := @exists_entry_of_mem constants typeName kind .lexical c hc
    refine nameOf?_eq_some_iff.mpr ⟨e, he, value, ?_⟩
    obtain ⟨d, hd, value', name'⟩ := exists_constant_of_mem_build he List.mem_cons_self
    refine le_antisymm (le_of_mem_build_lexical he hname) ?_
    exact least e.name ⟨d, hd, value'.trans value, name'⟩

section Shuffled

variable {others : List ResolvedConstant}
  (shuffled : (others.map ResolvedConstant.binding).Perm (constants.map ResolvedConstant.binding))
include shuffled

theorem nameOf?_lexical_of_perm :
    (ValueTable.build typeName kind others .lexical).nameOf? =
      (ValueTable.build typeName kind constants .lexical).nameOf? := by
  funext value
  refine Option.ext fun name => ?_
  rw [nameOf?_lexical_iff, nameOf?_lexical_iff]
  simp only [shuffled.mem_iff]

theorem nodup_names_of_perm (distinct : (constants.map (·.name)).Nodup) :
    (others.map (·.name)).Nodup := by
  have names : ∀ l : List ResolvedConstant,
      l.map (·.name) = (l.map ResolvedConstant.binding).map Prod.fst := fun l => by
    rw [List.map_map]
    rfl
  rw [names] at distinct ⊢
  exact (shuffled.map _).nodup_iff.mpr distinct

theorem valueOf?_lexical_of_perm (distinct : (constants.map (·.name)).Nodup) :
    (ValueTable.build typeName kind others .lexical).valueOf? =
      (ValueTable.build typeName kind constants .lexical).valueOf? := by
  funext name
  refine Option.ext fun value => ?_
  rw [valueOf?_iff_nameOf? (nodup_names_of_perm shuffled distinct), valueOf?_iff_nameOf? distinct,
    nameOf?_lexical_of_perm shuffled]

end Shuffled

/-- **Names and values of a table belong together.**  Where the constants have names of their own, a
name has a value exactly if the value has this name; a constant that has lost the election for its
value, and every alias, has no value; the values with names are those of the constants.  Under the
lexical policy constants in another order, with other indices, give the same names and values. -/
theorem ValueTable.pairs_names_and_values (distinct : (constants.map (·.name)).Nodup)
    (typeName : String) (kind : IntKind) (policy : AliasPolicy) :
    (∀ name value, (ValueTable.build typeName kind constants policy).valueOf? name = some value ↔
      (ValueTable.build typeName kind constants policy).nameOf? value = some name) ∧
    (∀ c ∈ constants,
      (ValueTable.build typeName kind constants policy).nameOf? c.value ≠ some c.name →
        (ValueTable.build typeName kind constants policy).valueOf? c.name = none) ∧
    (∀ e ∈ (ValueTable.build typeName kind constants policy).entries, ∀ name ∈ e.aliases,
      (ValueTable.build typeName kind constants policy).valueOf? name = none) ∧
    (∀ value, ((ValueTable.build typeName kind constants policy).nameOf? value).isSome = true ↔
      ∃ c ∈ constants, c.value = value) ∧
    ∀ others : List ResolvedConstant,
      (others.map ResolvedConstant.binding).Perm (constants.map ResolvedConstant.binding) →
        (ValueTable.build typeName kind others .lexical).nameOf? =
            (ValueTable.build typeName kind constants .lexical).nameOf? ∧
          (ValueTable.build typeName kind others .lexical).valueOf? =
            (ValueTable.build typeName kind constants .lexical).valueOf? := by
  refine ⟨fun _ _ => valueOf?_iff_nameOf? distinct, ?_, ?_, fun _ => isSome_nameOf?_iff, ?_⟩
  · intro c hc lost
    obtain ⟨e, he, -, isAlias⟩ := mem_aliases_of_lost hc lost
    exact valueOf?_alias distinct he isAlias
  · exact fun e he name isAlias => valueOf?_alias distinct he isAlias
  · exact fun others shuffled =>
      ⟨nameOf?_lexical_of_perm shuffled, valueOf?_lexical_of_perm shuffled distinct⟩

/-- Two names for one value, the greater one declared first, and a name for another value. -/
def inkConstants : List ResolvedConstant := [⟨"Red", 1, 0⟩, ⟨"Crimson", 1, 1⟩, ⟨"Blue", 2, 2⟩]

/-- The same names and values, the constants of the other value first. -/
def mixedInkConstants : List ResolvedConstant := [⟨"Blue", 2, 0⟩, ⟨"Crimson", 1, 7⟩, ⟨"Red", 1, 7⟩]

theorem ValueTable.pairs_names_and_values_ink :
    (inkConstants.map (·.name)).Nodup ∧
      (ValueTable.build "Color" .int inkConstants .lexical).valueOf? "Crimson" = some 1 ∧
      (ValueTable.build "Color" .int inkConstants .lexical).valueOf? "Red" = none ∧
      (mixedInkConstants.map ResolvedConstant.binding).Perm
        (inkConstants.map ResolvedConstant.binding) ∧
      (ValueTable.build "Color" .int mixedInkConstants .lexical).nameOf? =
        (ValueTable.build "Color" .int inkConstants .lexical).nameOf? := by
  have distinct : (inkConstants.map (·.name)).Nodup := by decide
  obtain ⟨inverse, lost, -, -, shuffled⟩ :=
    ValueTable.pairs_names_and_values distinct "Color" .int .lexical
  have elected : (ValueTable.build "Color" .int inkConstants .lexical).nameOf? 1 = some "Crimson" := by
    refine nameOf?_lexical_iff.mpr ⟨by decide, fun other named => ?_⟩
    obtain rfl | rfl : other = "Red" ∨ other = "Crimson" := by
      simpa [inkConstants, ResolvedConstant.binding] using named
    · decide
    · exact le_rfl
  have perm : (mixedInkConstants.map ResolvedConstant.binding).Perm
      (inkConstants.map ResolvedConstant.binding) := by decide
  refine ⟨distinct, (inverse "Crimson" 1).mpr elected, ?_, perm, (shuffled _ perm).1⟩
  refine lost ⟨"Red", 1, 0⟩ (by decide) ?_
  rw [elected]
  decide

end EnumCodec
