import EnumCodec.Package
import Mathlib.Data.Finset.Card

/-!
# Chains of types

A type can be declared as another type of its package, which can be declared as yet another one.  The
chain of a name follows these declarations; it comes to an end, or it leads back to a name that it has
passed.

* `Package.chain`, `Package.EndsAt`, `Package.IsCyclic` — the chain of a name, and its two fates.
* `Package.exists_repetition` — a chain that is longer than the list of the declared types repeats a name.
* `Package.meaningFrom`, `Package.meaningFrom_eq_meaningWithin` — the search as calls within calls that
  count how deep they are.
* `Package.meaningFrom_of_reached`, `Package.meaningWithin_of_isSome` — what the search finds at the end
  of a chain, and what it says when its steps run out.
* `Package.meaning_of_chain` — what every name stands for, and how deep the calls go.
-/

set_option autoImplicit false

namespace EnumCodec

/-! ## Descriptions -/

/-- What a type stands for that is declared as the type with a name and a meaning. -/
def TypeMeaning.asNamed (next : String) : TypeMeaning → TypeMeaning
  | .undeclared => .other next
  | meaning => meaning

/-- How a type is described that is not declared as a type of its package. -/
def TypeShape.text : TypeShape → String
  | named name => name.text
  | composite lead => lead

namespace Package

/-! ## Chains -/

/-- The declaration of a type. -/
def declaration? (p : Package) (name : String) : Option TypeSpec :=
  p.types.find? fun t => t.name.name == name

/-- The type of the package that a type is declared as. -/
def next? (p : Package) (name : String) : Option String :=
  (p.declaration? name).bind fun spec =>
    match spec.shape with
    | .named (.own next) => some next
    | _ => none

/-- The name that is reached from a name in some number of steps. -/
def chain (p : Package) (name : String) : Nat → Option String
  | 0 => some name
  | k + 1 => (chain p name k).bind p.next?

/-- The chain of a name passes no name twice on its `k` steps to the last one. -/
structure EndsAt (p : Package) (name : String) (k : Nat) (last : String) : Prop where
  reached : p.chain name k = some last
  ends : p.next? last = none
  distinct : ∀ i j, i < j → j ≤ k → p.chain name i ≠ p.chain name j

/-- The chain of a name comes to a name twice. -/
def IsCyclic (p : Package) (name : String) : Prop :=
  ∃ i j again, i < j ∧ p.chain name i = some again ∧ p.chain name j = some again

variable {p : Package} {name last : String}

theorem next?_eq_some_iff {a b : String} :
    p.next? a = some b ↔ ∃ spec, p.declaration? a = some spec ∧ spec.shape = .named (.own b) := by
  rw [next?, Option.bind_eq_some_iff]
  refine exists_congr fun spec => and_congr_right fun _ => ?_
  split
  · rename_i next shape
    simp [shape]
  · rename_i other
    simp only [reduceCtorEq, false_iff]
    exact other b

/-- The first step of a chain can be taken off. -/
theorem chain_succ (name : String) (k : Nat) :
    p.chain name (k + 1) = (p.next? name).bind fun next => p.chain next k := by
  induction k with
  | zero => simp [chain]
  | succ k ih =>
    rw [chain, ih, Option.bind_assoc]
    rfl

theorem chain_add (name : String) (i k : Nat) :
    p.chain name (i + k) = (p.chain name i).bind fun middle => p.chain middle k := by
  induction k with
  | zero => cases p.chain name i <;> simp [chain]
  | succ k ih =>
    rw [← Nat.add_assoc, chain, ih, Option.bind_assoc]
    rfl

theorem chain_le {i k : Nat} (le : i ≤ k) (h : (p.chain name k).isSome = true) :
    (p.chain name i).isSome = true := by
  obtain ⟨d, rfl⟩ := Nat.exists_eq_add_of_le le
  rw [chain_add] at h
  cases reached : p.chain name i with
  | none => simp [reached] at h
  | some a => rfl

/-- What a chain has passed is declared. -/
theorem passed_of_isSome {k : Nat} (going : (p.chain name k).isSome = true) {i : Nat} (hi : i < k) :
    ∃ a, p.chain name i = some a ∧ (p.declaration? a).isSome = true := by
  have more : (p.chain name (i + 1)).isSome = true := chain_le hi going
  obtain ⟨a, reached⟩ := Option.isSome_iff_exists.mp (chain_le (Nat.le_succ i) more)
  refine ⟨a, reached, ?_⟩
  rw [chain, reached, Option.bind_some] at more
  obtain ⟨b, next⟩ := Option.isSome_iff_exists.mp more
  obtain ⟨spec, declared, -⟩ := next?_eq_some_iff.mp next
  rw [declared]
  rfl

/-- A chain that stops has come to a name where it ends. -/
theorem exists_reached_of_eq_none {k : Nat} (stops : p.chain name k = none) :
    ∃ i last, p.chain name i = some last ∧ p.next? last = none := by
  induction k with
  | zero => cases stops
  | succ k ih =>
    cases reached : p.chain name k with
    | none => exact ih reached
    | some last =>
      rw [chain, reached, Option.bind_some] at stops
      exact ⟨k, last, reached, stops⟩

/-! ## Repetitions -/

/-- A name comes again if the chain passes more declared types than there are. -/
theorem exists_repetition {k : Nat} (long : p.types.length < k)
    (declared : ∀ i < k, ∃ a, p.chain name i = some a ∧ (p.declaration? a).isSome = true) :
    ∃ i j, i < j ∧ j < k ∧ p.chain name i = p.chain name j := by
  let names : Finset (Option String) := (p.types.map fun t => some t.name.name).toFinset
  have count : names.card ≤ p.types.length := by
    simpa [names] using List.toFinset_card_le (p.types.map fun t => some t.name.name)
  have inside : ∀ i ∈ Finset.range k, p.chain name i ∈ names := by
    intro i hi
    obtain ⟨a, reached, isDeclared⟩ := declared i (Finset.mem_range.mp hi)
    obtain ⟨spec, found⟩ := Option.isSome_iff_exists.mp isDeclared
    have same : spec.name.name = a := by simpa using List.find?_some found
    rw [reached, List.mem_toFinset, List.mem_map]
    exact ⟨spec, List.mem_of_find?_eq_some found, by rw [same]⟩
  have more : names.card < (Finset.range k).card := by
    rw [Finset.card_range]
    omega
  obtain ⟨i, hi, j, hj, apart, same⟩ := Finset.exists_ne_map_eq_of_card_lt_of_maps_to more inside
  rw [Finset.mem_range] at hi hj
  obtain less | less := Nat.lt_or_gt_of_ne apart
  · exact ⟨i, j, less, hj, same⟩
  · exact ⟨j, i, less, hi, same.symm⟩

/-- A chain that comes to an end passes no name twice: from a name that comes again it would go on
without an end. -/
theorem endsAt_of_reached {k : Nat} (reached : p.chain name k = some last)
    (ends : p.next? last = none) : p.EndsAt name k last := by
  refine ⟨reached, ends, fun i j less le same => ?_⟩
  obtain ⟨d, rfl⟩ := Nat.exists_eq_add_of_le le
  have again : p.chain name (i + d) = some last := by
    rw [chain_add, same, ← chain_add, reached]
  have stopped : p.chain name (i + d + 1) = none := by
    rw [chain, again, Option.bind_some, ends]
  have going : (p.chain name (i + d + 1)).isSome = true :=
    chain_le (k := j + d) (by omega) (by simp [reached])
  simp [stopped] at going

/-- A chain that ends takes at most one step for each declared type. -/
theorem EndsAt.le {k : Nat} (h : p.EndsAt name k last) : k ≤ p.types.length := by
  by_contra long
  have going : (p.chain name k).isSome = true := by simp [h.reached]
  obtain ⟨i, j, less, lt, same⟩ :=
    exists_repetition (Nat.not_le.mp long) fun _ hi => passed_of_isSome going hi
  exact h.distinct i j less lt.le same

/-- A chain that goes on for more steps than there are types is cyclic. -/
theorem isCyclic_of_long {k : Nat} (long : p.types.length < k)
    (going : (p.chain name k).isSome = true) : p.IsCyclic name := by
  obtain ⟨i, j, less, lt, same⟩ := exists_repetition long fun _ hi => passed_of_isSome going hi
  obtain ⟨again, reached⟩ := Option.isSome_iff_exists.mp (chain_le lt.le going)
  exact ⟨i, j, again, less, same.trans reached, reached⟩

/-- A cyclic chain does not end. -/
theorem IsCyclic.not_endsAt (h : p.IsCyclic name) {k : Nat} : ¬ p.EndsAt name k last := by
  intro ended
  obtain ⟨i, j, again, less, reached, reached'⟩ := h
  by_cases le : j ≤ k
  · exact ended.distinct i j less le (reached.trans reached'.symm)
  · have stopped : p.chain name (k + 1) = none := by
      rw [chain, ended.reached, Option.bind_some, ended.ends]
    have going : (p.chain name (k + 1)).isSome = true :=
      chain_le (Nat.lt_of_not_le le) (by simp [reached'])
    simp [stopped] at going

/-- Every chain ends, or it is cyclic. -/
theorem ends_or_isCyclic (p : Package) (name : String) :
    (∃ k last, p.EndsAt name k last) ∨ p.IsCyclic name := by
  cases going : p.chain name (p.types.length + 1) with
  | none =>
    obtain ⟨k, last, reached, ends⟩ := exists_reached_of_eq_none going
    exact .inl ⟨k, last, endsAt_of_reached reached ends⟩
  | some a => exact .inr (isCyclic_of_long (Nat.lt_succ_self _) (by simp [going]))

/-- A cyclic chain goes on for ever. -/
theorem IsCyclic.isSome_chain (h : p.IsCyclic name) (k : Nat) : (p.chain name k).isSome = true := by
  cases going : p.chain name k with
  | none =>
    obtain ⟨i, last, reached, ends⟩ := exists_reached_of_eq_none going
    exact absurd (endsAt_of_reached reached ends) h.not_endsAt
  | some a => rfl

/-! ## The search -/

/-- The search for what a name stands for, as calls within calls.  `depth` is the number of the calls that
a call stands in, `refuses` says at which depths a declared type is given up, and `frames` is the number
of calls that can still be opened: without one there is no result. -/
def meaningFrom (types : List TypeSpec) (refuses : Nat → Bool) :
    (frames depth : Nat) → (name : String) → Option TypeMeaning
  | 0, _, _ => none
  | frames + 1, depth, name =>
    match types.find? fun t => t.name.name == name with
    | none => some (.predeclared name)
    | some spec =>
      if refuses depth then some (.other ("invalid recursive type " ++ name))
      else
        match spec.shape with
        | .named (.own next) =>
          (meaningFrom types refuses frames (depth + 1) next).map (TypeMeaning.asNamed next)
        | .named foreign => some (.other foreign.text)
        | .composite lead => some (.other lead)

/-! ### One call -/

section Calls

variable {refuses : Nat → Bool} {frames depth : Nat} {spec : TypeSpec}

theorem meaningFrom_predeclared (h : p.declaration? name = none) :
    meaningFrom p.types refuses (frames + 1) depth name = some (.predeclared name) := by
  rw [declaration?] at h
  rw [meaningFrom, h]

theorem meaningFrom_refused (h : p.declaration? name = some spec) (refused : refuses depth = true) :
    meaningFrom p.types refuses (frames + 1) depth name
      = some (.other ("invalid recursive type " ++ name)) := by
  rw [declaration?] at h
  simp only [meaningFrom, h, refused, if_true]

theorem meaningFrom_next {b : String} (h : p.next? name = some b) (goes : refuses depth = false) :
    meaningFrom p.types refuses (frames + 1) depth name
      = (meaningFrom p.types refuses frames (depth + 1) b).map (TypeMeaning.asNamed b) := by
  obtain ⟨spec, declared, shape⟩ := next?_eq_some_iff.mp h
  rw [declaration?] at declared
  simp only [meaningFrom, declared, goes, Bool.false_eq_true, if_false, shape]

theorem meaningFrom_last (h : p.declaration? name = some spec) (ends : p.next? name = none)
    (goes : refuses depth = false) :
    meaningFrom p.types refuses (frames + 1) depth name = some (.other spec.shape.text) := by
  rw [next?, h, Option.bind_some] at ends
  rw [declaration?] at h
  simp only [meaningFrom, h, goes, Bool.false_eq_true, if_false]
  cases shape : spec.shape with
  | named name =>
    cases name with
    | own next => simp [shape] at ends
    | foreign package name => rfl
  | composite lead => rfl

end Calls

section Steps

variable {steps : Nat} {spec : TypeSpec}

theorem meaningWithin_predeclared (h : p.declaration? name = none) :
    meaningWithin p.types steps name = .predeclared name := by
  rw [declaration?] at h
  rw [meaningWithin, h]

theorem meaningWithin_zero (h : p.declaration? name = some spec) :
    meaningWithin p.types 0 name = .other ("invalid recursive type " ++ name) := by
  rw [declaration?] at h
  rw [meaningWithin, h]

theorem meaningWithin_next {b : String} (h : p.next? name = some b) :
    meaningWithin p.types (steps + 1) name = (meaningWithin p.types steps b).asNamed b := by
  obtain ⟨spec, declared, shape⟩ := next?_eq_some_iff.mp h
  rw [declaration?] at declared
  rw [meaningWithin, declared]
  simp only [shape]
  cases meaningWithin p.types steps b <;> rfl

theorem meaningWithin_last (h : p.declaration? name = some spec) (ends : p.next? name = none) :
    meaningWithin p.types (steps + 1) name = .other spec.shape.text := by
  rw [next?, h, Option.bind_some] at ends
  rw [declaration?] at h
  rw [meaningWithin, h]
  dsimp only
  cases shape : spec.shape with
  | named name =>
    cases name with
    | own next => simp [shape] at ends
    | foreign package name => rfl
  | composite lead => rfl

end Steps

/-! ### All calls -/

/-- The search that counts its steps down is the one that counts its calls and gives up a declared type in
a call that stands in more calls than there are types. -/
theorem meaningFrom_eq_meaningWithin (p : Package) {steps depth : Nat}
    (count : depth + steps = p.types.length + 1) (name : String) :
    meaningFrom p.types (fun depth => decide (p.types.length < depth)) (steps + 1) depth name
      = some (meaningWithin p.types steps name) := by
  induction steps generalizing depth name with
  | zero =>
    cases declared : p.declaration? name with
    | none => rw [meaningFrom_predeclared declared, meaningWithin_predeclared declared]
    | some spec =>
      have refused : decide (p.types.length < depth) = true := decide_eq_true (by omega)
      rw [meaningFrom_refused declared refused, meaningWithin_zero declared]
  | succ steps ih =>
    have goes : decide (p.types.length < depth) = false := decide_eq_false (by omega)
    cases next : p.next? name with
    | some b =>
      rw [meaningFrom_next next goes, meaningWithin_next next, ih (by omega) b, Option.map_some]
    | none =>
      cases declared : p.declaration? name with
      | none => rw [meaningFrom_predeclared declared, meaningWithin_predeclared declared]
      | some spec => rw [meaningFrom_last declared next goes, meaningWithin_last declared next]

/-- What the name stands for at which a chain ends. -/
def endMeaning (p : Package) (last : String) : TypeMeaning :=
  match p.declaration? last with
  | none => .predeclared last
  | some spec => .other spec.shape.text

/-- What a name stands for whose chain ends after some steps. -/
def chainMeaning (p : Package) (last : String) : (steps : Nat) → TypeMeaning
  | 0 => p.endMeaning last
  | _ + 1 => (p.endMeaning last).asNamed last

/-- Only the last step of a chain can name a type that is not declared. -/
theorem asNamed_chainMeaning {b : String} {k : Nat} (reached : p.chain b k = some last) :
    (p.chainMeaning last k).asNamed b = p.chainMeaning last (k + 1) := by
  cases k with
  | zero =>
    obtain rfl : b = last := Option.some.inj reached
    rfl
  | succ k =>
    rw [chainMeaning, chainMeaning]
    cases p.endMeaning last <;> rfl

/-- Along a chain that ends as many calls are opened as it has steps, and one more. -/
theorem meaningFrom_of_reached {refuses : Nat → Bool} {k frames depth : Nat}
    (reached : p.chain name k = some last) (ends : p.next? last = none) (enough : k < frames)
    (goes : ∀ i, depth ≤ i → i ≤ depth + k → refuses i = false) :
    meaningFrom p.types refuses frames depth name = some (p.chainMeaning last k) := by
  obtain ⟨frames, rfl⟩ := Nat.exists_eq_succ_of_ne_zero (Nat.ne_zero_of_lt enough)
  have goesHere : refuses depth = false := goes depth le_rfl (Nat.le_add_right ..)
  induction k generalizing name depth frames with
  | zero =>
    obtain rfl : name = last := Option.some.inj reached
    rw [chainMeaning, endMeaning]
    cases declared : p.declaration? name with
    | none => exact meaningFrom_predeclared declared
    | some spec => exact meaningFrom_last declared ends goesHere
  | succ k ih =>
    rw [chain_succ] at reached
    obtain ⟨b, next, reached⟩ := Option.bind_eq_some_iff.mp reached
    obtain ⟨frames, rfl⟩ := Nat.exists_eq_succ_of_ne_zero (n := frames) (by omega)
    have inner := ih reached (fun i le le' => goes i (by omega) (by omega)) frames (by omega)
      (goes (depth + 1) (by omega) (by omega))
    rw [meaningFrom_next next goesHere, inner, Option.map_some, asNamed_chainMeaning reached]

/-- A chain that goes on is given up at the name that is reached when the steps run out. -/
theorem meaningWithin_of_isSome {steps : Nat} (going : (p.chain name (steps + 1)).isSome = true) :
    ∃ again, p.chain name steps = some again ∧
      meaningWithin p.types steps name = .other ("invalid recursive type " ++ again) := by
  induction steps generalizing name with
  | zero =>
    obtain ⟨again, reached, declared⟩ := passed_of_isSome going Nat.zero_lt_one
    obtain rfl : name = again := Option.some.inj reached
    obtain ⟨spec, declared⟩ := Option.isSome_iff_exists.mp declared
    exact ⟨name, rfl, meaningWithin_zero declared⟩
  | succ steps ih =>
    rw [chain_succ] at going
    cases next : p.next? name with
    | none => simp [next] at going
    | some b =>
      rw [next, Option.bind_some] at going
      obtain ⟨again, reached, meaning⟩ := ih going
      refine ⟨again, ?_, ?_⟩
      · rw [chain_succ, next, Option.bind_some, reached]
      · rw [meaningWithin_next next, meaning]
        rfl

/-! ## Meanings -/

theorem EndsAt.meaning {k : Nat} (h : p.EndsAt name k last) :
    p.meaning name = p.chainMeaning last k := by
  have le := h.le
  let refuses := fun depth => decide (p.types.length < depth)
  have counted : meaningFrom p.types refuses (p.types.length + 2) 0 name = some (p.meaning name) :=
    p.meaningFrom_eq_meaningWithin (Nat.zero_add _) name
  have found : meaningFrom p.types refuses (p.types.length + 2) 0 name = some (p.chainMeaning last k) :=
    meaningFrom_of_reached h.reached h.ends (by omega) fun i _ hi => decide_eq_false (by omega)
  exact Option.some.inj (counted.symm.trans found)

theorem IsCyclic.meaning (h : p.IsCyclic name) :
    ∃ again, p.chain name (p.types.length + 1) = some again ∧
      p.meaning name = .other ("invalid recursive type " ++ again) :=
  meaningWithin_of_isSome (h.isSome_chain _)

theorem chainMeaning_of_declared {spec : TypeSpec} (h : p.declaration? last = some spec) (k : Nat) :
    p.chainMeaning last k = .other spec.shape.text := by
  cases k <;> rw [chainMeaning, endMeaning, h]
  rfl

theorem chainMeaning_of_kind {kind : IntKind} (h : p.declaration? last = none)
    (h' : IntKind.ofName? last = some kind) (k : Nat) : p.chainMeaning last k = .integer kind := by
  have ends : p.endMeaning last = .integer kind := by
    rw [endMeaning, h]
    simp only [TypeMeaning.predeclared, h']
  cases k <;> rw [chainMeaning, ends]
  rfl

theorem chainMeaning_zero_of_noKind (h : p.declaration? last = none)
    (h' : IntKind.ofName? last = none) : p.chainMeaning last 0 = .undeclared := by
  rw [chainMeaning, endMeaning, h]
  simp only [TypeMeaning.predeclared, h']

theorem chainMeaning_succ_of_noKind (h : p.declaration? last = none)
    (h' : IntKind.ofName? last = none) (k : Nat) : p.chainMeaning last (k + 1) = .other last := by
  rw [chainMeaning, ← chainMeaning, chainMeaning_zero_of_noKind h h']
  rfl

/-- What a name stands for, case by case. -/
theorem meaning_cases (p : Package) (name : String) :
    (∃ k last kind, p.EndsAt name k last ∧ p.declaration? last = none ∧
      IntKind.ofName? last = some kind ∧ p.meaning name = .integer kind) ∨
    (p.declaration? name = none ∧ IntKind.ofName? name = none ∧ p.meaning name = .undeclared) ∨
    ∃ text, p.meaning name = .other text := by
  obtain ⟨k, last, ended⟩ | cyclic := ends_or_isCyclic p name
  · rw [ended.meaning]
    cases declared : p.declaration? last with
    | some spec => exact .inr (.inr ⟨_, chainMeaning_of_declared declared k⟩)
    | none =>
      cases named : IntKind.ofName? last with
      | some kind =>
        exact .inl ⟨k, last, kind, ended, declared, named, chainMeaning_of_kind declared named k⟩
      | none =>
        cases k with
        | zero =>
          obtain rfl : name = last := Option.some.inj ended.reached
          exact .inr (.inl ⟨declared, named, chainMeaning_zero_of_noKind declared named⟩)
        | succ k => exact .inr (.inr ⟨last, chainMeaning_succ_of_noKind declared named k⟩)
  · obtain ⟨again, -, meaning⟩ := cyclic.meaning
    exact .inr (.inr ⟨_, meaning⟩)

/-- A name stands for integers of a kind only if its chain ends at the name of the kind. -/
theorem exists_endsAt_of_integer {kind : IntKind} (h : p.meaning name = .integer kind) :
    ∃ k last, p.EndsAt name k last ∧ p.declaration? last = none ∧
      IntKind.ofName? last = some kind := by
  obtain ⟨k, last, kind', ended, declared, named, meaning⟩ | ⟨-, -, meaning⟩ | ⟨text, meaning⟩ :=
    meaning_cases p name
  · cases meaning.symm.trans h
    exact ⟨k, last, ended, declared, named⟩
  · cases meaning.symm.trans h
  · cases meaning.symm.trans h

/-- Only a name that is neither declared nor that of a kind stands for nothing. -/
theorem meaning_eq_undeclared_iff :
    p.meaning name = .undeclared ↔ p.declaration? name = none ∧ IntKind.ofName? name = none := by
  constructor
  · intro h
    obtain ⟨k, last, kind, -, -, -, meaning⟩ | ⟨declared, named, -⟩ | ⟨text, meaning⟩ :=
      meaning_cases p name
    · cases meaning.symm.trans h
    · exact ⟨declared, named⟩
    · cases meaning.symm.trans h
  · rintro ⟨declared, named⟩
    have ends : p.next? name = none := by rw [next?, declared, Option.bind_none]
    have ended : p.EndsAt name 0 name := endsAt_of_reached rfl ends
    rw [ended.meaning, chainMeaning_zero_of_noKind declared named]

/-- **What the name of a type stands for.**  Every chain either ends, without a name twice, or is cyclic.
A name stands for the integers of a kind if and only if its chain ends at the name of the kind, where no
type of the package has this name; it is undeclared if and only if it is itself neither declared nor the
name of a kind.  Else it stands for another type, described by the name at which the chain ends, by the
type of another package or by the first word of the type that the last name is declared as, or, if the
chain is cyclic, by a name that the chain has come to.  A chain that ends has a step at most for each
declared type; one call more than its steps finds the meaning without any bound on the depth, and with
the bound no chain takes more calls than there are types and two more. -/
theorem meaning_of_chain (p : Package) (name : String) :
    ((∃ k last, p.EndsAt name k last) ↔ ¬ p.IsCyclic name) ∧
    (∀ kind, p.meaning name = .integer kind ↔ ∃ k last, p.EndsAt name k last ∧
      p.declaration? last = none ∧ IntKind.ofName? last = some kind) ∧
    (p.meaning name = .undeclared ↔ p.declaration? name = none ∧ IntKind.ofName? name = none) ∧
    (∀ k last, p.EndsAt name (k + 1) last → p.declaration? last = none →
      IntKind.ofName? last = none → p.meaning name = .other last) ∧
    (∀ k last spec, p.EndsAt name k last → p.declaration? last = some spec →
      (∀ package type, spec.shape = .named (.foreign package type) →
        p.meaning name = .other (package ++ "." ++ type)) ∧
      ∀ lead, spec.shape = .composite lead → p.meaning name = .other lead) ∧
    (p.IsCyclic name → ∃ again, p.chain name (p.types.length + 1) = some again ∧
      p.meaning name = .other ("invalid recursive type " ++ again)) ∧
    (∀ k last, p.EndsAt name k last → k ≤ p.types.length ∧
      meaningFrom p.types (fun _ => false) (k + 1) 0 name = some (p.meaning name)) ∧
    meaningFrom p.types (fun depth => decide (p.types.length < depth)) (p.types.length + 2) 0 name
      = some (p.meaning name) := by
  refine ⟨?_, ?_, meaning_eq_undeclared_iff, ?_, ?_, IsCyclic.meaning, ?_,
    meaningFrom_eq_meaningWithin p (Nat.zero_add _) name⟩
  · refine ⟨?_, (ends_or_isCyclic p name).resolve_right⟩
    rintro ⟨k, last, ended⟩ cyclic
    exact cyclic.not_endsAt ended
  · refine fun kind => ⟨exists_endsAt_of_integer, ?_⟩
    rintro ⟨k, last, ended, declared, named⟩
    rw [ended.meaning, chainMeaning_of_kind declared named]
  · intro k last ended declared named
    rw [ended.meaning, chainMeaning_succ_of_noKind declared named]
  · intro k last spec ended declared
    rw [ended.meaning, chainMeaning_of_declared declared]
    refine ⟨fun package type shape => ?_, fun lead shape => ?_⟩
    · rw [shape, TypeShape.text, TypeName.text]
    · rw [shape, TypeShape.text]
  · intro k last ended
    refine ⟨ended.le, ?_⟩
    rw [ended.meaning]
    exact meaningFrom_of_reached ended.reached ended.ends (Nat.lt_succ_self k) fun _ _ _ => rfl

/-- Types that are declared in a row, one of them with the name of a kind, and two types that are
declared as each other. -/
def shadePackage : Package where
  name := "ink"
  dir := "ink"
  files := []
  entries := []
  types := [⟨⟨"Shade", ⟨2, 6⟩⟩, false, .named (.own "int")⟩,
    ⟨⟨"int", ⟨3, 6⟩⟩, false, .named (.own "uint8")⟩,
    ⟨⟨"Left", ⟨4, 6⟩⟩, false, .named (.own "Right")⟩,
    ⟨⟨"Right", ⟨5, 6⟩⟩, false, .named (.own "Left")⟩]

theorem meaning_of_chain_shade :
    (shadePackage.EndsAt "Shade" 2 "uint8" ∧ shadePackage.meaning "Shade" = .integer .uint8) ∧
    shadePackage.IsCyclic "Left" ∧
      ∃ again, shadePackage.meaning "Left" = .other ("invalid recursive type " ++ again) := by
  have ended : shadePackage.EndsAt "Shade" 2 "uint8" := endsAt_of_reached rfl rfl
  have cyclic : shadePackage.IsCyclic "Left" := ⟨0, 2, "Left", by decide, rfl, rfl⟩
  obtain ⟨-, integer, -⟩ := meaning_of_chain shadePackage "Shade"
  obtain ⟨-, -, -, -, -, other, -⟩ := meaning_of_chain shadePackage "Left"
  obtain ⟨again, -, meaning⟩ := other cyclic
  exact ⟨⟨ended, (integer .uint8).mpr ⟨2, "uint8", ended, rfl, rfl⟩⟩, cyclic, again, meaning⟩

end Package

end EnumCodec
