import EnumCodec.Constant.Resolution
import EnumCodec.Proofs.DepthFirst
import Mathlib

/-!
# The order of evaluation

`RefGraph.emit` takes the first ready constant again and again, with a counter for each constant
that says how many of those it mentions are still to come.

* `WalkInv` — the counters count, and the constants that are kept as ready are those that are, in
  declaration order; `WalkInv.step` — one round keeps this.
* `Greedy` — what a walk gives: always the least ready constant, until none is ready.
* `emit?` — the walk with counters that must not go below zero; `WalkInv.emit_spec` — it gives the
  same.
* `evaluationOrder_characterized` — there is an order exactly where no constant needs itself, and it
  is the least one in which everything comes after what it mentions.
* `cycle_blames_member` — where some constant needs itself, the failure names one that does.
-/

set_option autoImplicit false

namespace EnumCodec

open Relation

namespace RefGraph

variable {n : Nat} {g : RefGraph n}

/-- The constant is not among those that are done, and all that it mentions is. -/
def Ready (needs : Fin n → Fin n → Prop) (done : List (Fin n)) (i : Fin n) : Prop :=
  i ∉ done ∧ ∀ d, needs i d → d ∈ done

/-- How many of the constants that a constant mentions are still to come. -/
def missing (g : RefGraph n) (done : List (Fin n)) (i : Fin n) : Nat :=
  ((g.deps i).filter fun d => !done.contains d).length

theorem missing_eq_zero_iff {done : List (Fin n)} {i : Fin n} :
    g.missing done i = 0 ↔ ∀ d, g.Needs i d → d ∈ done := by
  simp [missing, Needs]

/-- One more constant is done: each constant that mentions it misses one fewer. -/
theorem missing_snoc (hn : ∀ j, (g.deps j).Nodup) {done : List (Fin n)} {i : Fin n}
    (hi : i ∉ done) (j : Fin n) :
    g.missing (done ++ [i]) j =
      if j ∈ g.dependents i then g.missing done j - 1 else g.missing done j := by
  have hfilter : ((g.deps j).filter fun d => !(done ++ [i]).contains d) =
      ((g.deps j).filter fun d => !done.contains d).erase i := by
    rw [((hn j).filter _).erase_eq_filter, List.filter_filter]
    congr 1
    funext d
    by_cases hd : d = i <;> simp [hd]
  rw [missing, hfilter, List.length_erase]
  simp [missing, mem_dependents, hi]

theorem nodup_dependents (g : RefGraph n) (d : Fin n) : (g.dependents d).Nodup :=
  (List.nodup_finRange n).filter _

/-! ## Letting constants go -/

theorem mem_insertReady {i x : Fin n} {ready : List (Fin n)} :
    x ∈ insertReady i ready ↔ x = i ∨ x ∈ ready := by
  induction ready with
  | nil => simp [insertReady]
  | cons j rest ih =>
    rw [insertReady]
    split
    · simp
    · rw [List.mem_cons, ih, List.mem_cons]
      tauto

theorem mem_ite_insertReady {i x : Fin n} {ready : List (Fin n)} {c : Prop} [Decidable c] :
    (x ∈ if c then insertReady i ready else ready) ↔ x ∈ ready ∨ (x = i ∧ c) := by
  split
  · rename_i hc
    rw [mem_insertReady]
    tauto
  · rename_i hc
    tauto

theorem pairwise_insertReady {i : Fin n} {ready : List (Fin n)} (h : ready.Pairwise (· < ·))
    (hi : i ∉ ready) : (insertReady i ready).Pairwise (· < ·) := by
  induction ready with
  | nil => simp [insertReady]
  | cons j rest ih =>
    obtain ⟨hj, hrest⟩ := List.pairwise_cons.1 h
    rw [List.mem_cons, not_or] at hi
    rw [insertReady]
    split
    · rename_i hlt
      refine List.pairwise_cons.2 ⟨fun x hx => ?_, h⟩
      rcases List.mem_cons.1 hx with rfl | hx
      · exact hlt
      · exact lt_trans hlt (hj x hx)
    · rename_i hge
      refine List.pairwise_cons.2 ⟨fun x hx => ?_, ih hrest hi.2⟩
      rcases mem_insertReady.1 hx with rfl | hx
      · exact lt_of_le_of_ne (not_lt.1 hge) (Ne.symm hi.1)
      · exact hj x hx

theorem get_set {α : Type} (v : Vector α n) (d : Fin n) (x : α) (i : Fin n) :
    (v.set d.val x d.isLt).get i = if i = d then x else v.get i := by
  show (v.set d.val x d.isLt)[i.val] = if i = d then x else v[i.val]
  rw [Vector.getElem_set]
  simp only [Fin.ext_iff, eq_comm]

/-- Each constant of the list has its counter lowered once, and is ready if that makes it zero. -/
theorem release_spec {ds : List (Fin n)} (hds : ds.Nodup) (waiting : Vector Nat n)
    (ready : List (Fin n)) :
    (∀ i : Fin n, (release ds waiting ready).1.get i =
      if i ∈ ds then waiting.get i - 1 else waiting.get i) ∧
    (∀ i, i ∈ (release ds waiting ready).2 ↔ i ∈ ready ∨ (i ∈ ds ∧ waiting.get i - 1 = 0)) := by
  induction ds generalizing waiting ready with
  | nil => simp [release]
  | cons d ds ih =>
    obtain ⟨hd, hds⟩ := List.nodup_cons.1 hds
    have hset := get_set waiting d (waiting.get d - 1)
    obtain ⟨hcount, hready⟩ := ih hds (waiting.set d.val (waiting.get d - 1) d.isLt)
      (if waiting.get d - 1 = 0 then insertReady d ready else ready)
    rw [release]
    refine ⟨fun i => ?_, fun i => ?_⟩
    · rw [hcount, hset]
      by_cases hi : i = d
      · subst hi
        simp [hd]
      · simp [hi]
    · rw [hready, hset, mem_ite_insertReady, List.mem_cons]
      by_cases hi : i = d
      · subst hi
        simp [hd]
      · simp [hi]

theorem pairwise_release {ds : List (Fin n)} (hds : ds.Nodup) (waiting : Vector Nat n)
    {ready : List (Fin n)} (h : ready.Pairwise (· < ·)) (hdisj : ∀ d ∈ ds, d ∉ ready) :
    (release ds waiting ready).2.Pairwise (· < ·) := by
  induction ds generalizing waiting ready with
  | nil => exact h
  | cons d ds ih =>
    obtain ⟨hd, hds⟩ := List.nodup_cons.1 hds
    rw [release]
    apply ih hds
    · split
      · exact pairwise_insertReady h (hdisj d List.mem_cons_self)
      · exact h
    · intro x hx
      have hxr := hdisj x (List.mem_cons_of_mem _ hx)
      split
      · rw [mem_insertReady, not_or]
        exact ⟨fun e => hd (e ▸ hx), hxr⟩
      · exact hxr

/-! ## The walk -/

/-- The invariant of the walk when some constants are done. -/
structure WalkInv (g : RefGraph n) (done : List (Fin n)) (waiting : Vector Nat n)
    (ready : List (Fin n)) : Prop where
  nodup : done.Nodup
  waiting_eq : ∀ i : Fin n, waiting.get i = g.missing done i
  mem_ready : ∀ i, i ∈ ready ↔ Ready g.Needs done i
  sorted : ready.Pairwise (· < ·)
  closed : ∀ i ∈ done, ∀ d, g.Needs i d → d ∈ done

theorem WalkInv.start (g : RefGraph n) :
    WalkInv g [] (Vector.ofFn fun i => (g.deps i).length)
      ((List.finRange n).filter fun i => (g.deps i).isEmpty) where
  nodup := List.nodup_nil
  waiting_eq i := by
    show (Vector.ofFn fun i => (g.deps i).length)[i.val] = g.missing [] i
    simp [missing]
  mem_ready i := by simp [Ready, Needs, List.eq_nil_iff_forall_not_mem]
  sorted := (List.pairwise_lt_finRange n).filter _
  closed i hi := by cases hi

/-- What mentions a constant that is taken now is not done, and waits for at least that one. -/
theorem WalkInv.waiting_pos {done ready : List (Fin n)} {waiting : Vector Nat n} {i d : Fin n}
    (h : WalkInv g done waiting ready) (hi : i ∉ done) (hd : g.Needs d i) : 0 < waiting.get d := by
  rw [h.waiting_eq d, Nat.pos_iff_ne_zero]
  exact fun hz => hi (missing_eq_zero_iff.1 hz i hd)

/-- One more constant is done: what does not need it is ready if it was. -/
theorem ready_snoc_iff {needs : Fin n → Fin n → Prop} {done : List (Fin n)} {i j : Fin n}
    (h : ¬ needs j i) : Ready needs (done ++ [i]) j ↔ j ≠ i ∧ Ready needs done j := by
  simp only [Ready, List.mem_append, List.mem_singleton, not_or]
  constructor
  · rintro ⟨⟨hd, hne⟩, hall⟩
    exact ⟨hne, hd, fun d hd => (hall d hd).resolve_right fun e => h (e ▸ hd)⟩
  · rintro ⟨hne, hd, hall⟩
    exact ⟨⟨hd, hne⟩, fun d hd => Or.inl (hall d hd)⟩

theorem WalkInv.mem_rest {done ready : List (Fin n)} {waiting : Vector Nat n} {i : Fin n}
    (h : WalkInv g done waiting (i :: ready)) (j : Fin n) :
    j ∈ ready ↔ j ≠ i ∧ Ready g.Needs done j := by
  obtain ⟨hlt, -⟩ := List.pairwise_cons.1 h.sorted
  rw [← h.mem_ready j, List.mem_cons]
  constructor
  · intro hj
    exact ⟨ne_of_gt (hlt j hj), Or.inr hj⟩
  · rintro ⟨hne, rfl | hj⟩
    · exact absurd rfl hne
    · exact hj

/-- What needs a constant that is done last is not done before. -/
theorem WalkInv.not_done_snoc {done ready : List (Fin n)} {waiting : Vector Nat n} {i j : Fin n}
    (h : WalkInv g done waiting ready) (hi : Ready g.Needs done i) (hj : g.Needs j i) :
    j ∉ done ++ [i] := by
  intro hmem
  rcases List.mem_append.1 hmem with hmem | hmem
  · exact hi.1 (h.closed j hmem i hj)
  · rw [List.mem_singleton.1 hmem] at hj
    exact hi.1 (hi.2 i hj)

/-- **One round keeps the invariant.** -/
theorem WalkInv.step (hn : ∀ j, (g.deps j).Nodup) {done ready : List (Fin n)}
    {waiting : Vector Nat n} {i : Fin n} (h : WalkInv g done waiting (i :: ready)) :
    WalkInv g (done ++ [i]) (release (g.dependents i) waiting ready).1
      (release (g.dependents i) waiting ready).2 := by
  have hi : Ready g.Needs done i := (h.mem_ready i).1 List.mem_cons_self
  have hdn := nodup_dependents g i
  obtain ⟨hcount, hready⟩ := release_spec hdn waiting ready
  have hmissing : ∀ j : Fin n, (release (g.dependents i) waiting ready).1.get j =
      g.missing (done ++ [i]) j := by
    intro j
    rw [hcount, missing_snoc hn hi.1, h.waiting_eq]
  refine ⟨?_, hmissing, fun j => ?_, ?_, ?_⟩
  · rw [List.nodup_append]
    refine ⟨h.nodup, List.nodup_singleton i, fun x hx y hy e => hi.1 ?_⟩
    rw [← List.mem_singleton.1 hy, ← e]
    exact hx
  · -- a constant is ready now if it was, or if the one that was taken is the last it waited for
    by_cases hj : j ∈ g.dependents i
    · have hneeds : g.Needs j i := mem_dependents.1 hj
      have hjdone := h.not_done_snoc hi hneeds
      have hnot : j ∉ ready := fun hmem => hi.1 (((h.mem_rest j).1 hmem).2.2 i hneeds)
      have hzero : g.missing (done ++ [i]) j = 0 ↔ Ready g.Needs (done ++ [i]) j :=
        missing_eq_zero_iff.trans (by simp [Ready, hjdone])
      rw [hready, ← hzero, ← hmissing, hcount]
      simp [hj, hnot]
    · have hneeds : ¬ g.Needs j i := fun hneeds => hj (mem_dependents.2 hneeds)
      rw [hready, h.mem_rest, ready_snoc_iff hneeds]
      simp [hj]
  · refine pairwise_release hdn waiting (List.pairwise_cons.1 h.sorted).2 fun d hd hmem => ?_
    exact hi.1 (((h.mem_rest d).1 hmem).2.2 i (mem_dependents.1 hd))
  · intro j hj d hd
    rcases List.mem_append.1 hj with hj | hj
    · exact List.mem_append_left _ (h.closed j hj d hd)
    · rw [List.mem_singleton.1 hj] at hd
      exact List.mem_append_left _ (hi.2 d hd)

/-- The walk goes on, from what is done, with the least ready constant each time, until none is
ready. -/
def Greedy (needs : Fin n → Fin n → Prop) : List (Fin n) → List (Fin n) → Prop
  | done, [] => ∀ i, ¬ Ready needs done i
  | done, i :: rest => IsLeast {j | Ready needs done j} i ∧ Greedy needs (done ++ [i]) rest

theorem WalkInv.head_isLeast {done ready : List (Fin n)} {waiting : Vector Nat n} {i : Fin n}
    (h : WalkInv g done waiting (i :: ready)) : IsLeast {j | Ready g.Needs done j} i := by
  refine ⟨(h.mem_ready i).1 List.mem_cons_self, fun j hj => ?_⟩
  rcases List.mem_cons.1 ((h.mem_ready j).2 hj) with rfl | hj
  · exact le_refl _
  · exact le_of_lt ((List.pairwise_cons.1 h.sorted).1 j hj)

theorem WalkInv.ready_eq_nil {done ready : List (Fin n)} {waiting : Vector Nat n}
    (h : WalkInv g done waiting ready) (hlen : n ≤ done.length) : ready = [] := by
  rw [List.eq_nil_iff_forall_not_mem]
  intro i hi
  have hnodup : (i :: done).Nodup := List.nodup_cons.2 ⟨((h.mem_ready i).1 hi).1, h.nodup⟩
  have hle := hnodup.length_le_card
  rw [List.length_cons, Fintype.card_fin] at hle
  omega

/-- The counters lowered as by `release`, unless one of them is zero already. -/
def release? : List (Fin n) → Vector Nat n → List (Fin n) → Option (Vector Nat n × List (Fin n))
  | [], waiting, ready => some (waiting, ready)
  | d :: ds, waiting, ready =>
    if waiting.get d = 0 then none
    else
      let left := waiting.get d - 1
      release? ds (waiting.set d.val left d.isLt) (if left = 0 then insertReady d ready else ready)

/-- The walk of `emit` with counters that must not go below zero; it must also come to its end in
the given number of rounds. -/
def emit? (g : RefGraph n) : Nat → Vector Nat n → List (Fin n) → Option (List (Fin n))
  | _, _, [] => some []
  | 0, _, _ :: _ => none
  | k + 1, waiting, i :: ready =>
    match release? (g.dependents i) waiting ready with
    | none => none
    | some (waiting, ready) => (g.emit? k waiting ready).map (i :: ·)

theorem release?_eq_release {ds : List (Fin n)} (hds : ds.Nodup) {waiting : Vector Nat n}
    (h : ∀ d ∈ ds, 0 < waiting.get d) (ready : List (Fin n)) :
    release? ds waiting ready = some (release ds waiting ready) := by
  induction ds generalizing waiting ready with
  | nil => rfl
  | cons d ds ih =>
    obtain ⟨hd, hds⟩ := List.nodup_cons.1 hds
    have hpos := h d List.mem_cons_self
    rw [release?, if_neg (Nat.ne_of_gt hpos), release]
    refine ih hds (fun x hx => ?_) _
    have hne : x ≠ d := fun e => hd (e ▸ hx)
    rw [get_set, if_neg hne]
    exact h x (List.mem_cons_of_mem _ hx)

/-- **From any state that keeps the invariant the walk never lowers a counter that is zero, comes to
its end, and always takes the least ready constant.** -/
theorem WalkInv.emit_spec (hn : ∀ j, (g.deps j).Nodup) {k : Nat} {done ready : List (Fin n)}
    {waiting : Vector Nat n} (h : WalkInv g done waiting ready) (hlen : n ≤ done.length + k) :
    g.emit? k waiting ready = some (g.emit k waiting ready) ∧
      Greedy g.Needs done (g.emit k waiting ready) := by
  induction k generalizing done waiting ready with
  | zero =>
    have hnil := h.ready_eq_nil hlen
    subst hnil
    exact ⟨by simp [emit?, emit], fun i hi => by simpa using (h.mem_ready i).2 hi⟩
  | succ k ih =>
    cases ready with
    | nil => exact ⟨by simp [emit?, emit], fun i hi => by simpa using (h.mem_ready i).2 hi⟩
    | cons i ready =>
      have hi := ((h.mem_ready i).1 List.mem_cons_self).1
      have hrel := release?_eq_release (nodup_dependents g i)
        (fun d hd => h.waiting_pos hi (mem_dependents.1 hd)) ready
      obtain ⟨hwalk, hgreedy⟩ := ih (h.step hn) (by simp; omega)
      rw [emit?, hrel, emit]
      simp only
      rw [hwalk]
      exact ⟨rfl, h.head_isLeast, hgreedy⟩

/-! ## What a greedy walk gives -/

variable {needs : Fin n → Fin n → Prop}

theorem Greedy.isLeast {done xs ys : List (Fin n)} {i : Fin n}
    (h : Greedy needs done (xs ++ i :: ys)) : IsLeast {j | Ready needs (done ++ xs) j} i := by
  induction xs generalizing done with
  | nil => simpa using h.1
  | cons x xs ih => simpa using ih h.2

theorem Greedy.stuck {done order : List (Fin n)} (h : Greedy needs done order) :
    ∀ i, ¬ Ready needs (done ++ order) i := by
  induction order generalizing done with
  | nil =>
    rw [List.append_nil]
    exact h
  | cons x order ih => simpa using ih h.2

theorem Greedy.nodup {done order : List (Fin n)} (h : Greedy needs done order)
    (hd : done.Nodup) : (done ++ order).Nodup := by
  induction order generalizing done with
  | nil => simpa using hd
  | cons x order ih =>
    have hx : x ∉ done := h.1.1.1
    have hd' : (done ++ [x]).Nodup := by
      rw [List.nodup_append]
      refine ⟨hd, List.nodup_singleton x, fun a ha b hb e => hx ?_⟩
      rw [← List.mem_singleton.1 hb, ← e]
      exact ha
    simpa using ih h.2 hd'

/-- There is only one greedy walk. -/
theorem Greedy.unique {done a b : List (Fin n)} (ha : Greedy needs done a)
    (hb : Greedy needs done b) : a = b := by
  induction a generalizing done b with
  | nil =>
    cases b with
    | nil => rfl
    | cons j b => exact absurd hb.1.1 (ha j)
  | cons i a ih =>
    cases b with
    | nil => exact absurd ha.1.1 (hb i)
    | cons j b =>
      obtain rfl : i = j := ha.1.unique hb.1
      rw [ih ha.2 hb.2]

/-- Where everything can be put into an order, a walk stops only when everything is done. -/
theorem Greedy.dependencyOrder {order other : List (Fin n)} (h : Greedy needs [] order)
    (ho : DependencyOrder needs other) : DependencyOrder needs order where
  complete := by
    -- by induction on the place in the other order
    have hall : ∀ k i, other.idxOf i = k → i ∈ order := by
      intro k
      induction k using Nat.strong_induction_on with
      | _ k ih =>
        intro i hk
        by_contra hi
        refine h.stuck i ⟨by simpa using hi, fun d hd => ?_⟩
        simpa using ih _ (hk ▸ ho.idxOf_lt hd) d rfl
    exact fun i => hall _ i rfl
  nodup := by simpa using h.nodup List.nodup_nil
  before xs i ys he d hd := by
    subst he
    simpa using h.isLeast.1.2 d hd

/-- No order in which everything comes after what it mentions comes before that of a greedy walk. -/
theorem Greedy.le {done order other : List (Fin n)} (h : Greedy needs done order)
    (hc : ∀ i, i ∉ done → i ∈ other)
    (hb : ∀ xs i ys, other = xs ++ i :: ys → Ready needs (done ++ xs) i) : order ≤ other := by
  induction order generalizing done other with
  | nil =>
    cases other with
    | nil => exact le_rfl
    | cons j other => exact le_of_lt List.Lex.nil
  | cons i order ih =>
    cases other with
    | nil =>
      have := hc i h.1.1.1
      simp at this
    | cons j other =>
      have hj : Ready needs done j := by simpa using hb [] j other rfl
      rcases lt_or_eq_of_le (h.1.2 hj) with hlt | rfl
      · exact le_of_lt (List.Lex.rel hlt)
      · refine List.cons_le_cons i (ih h.2 (fun x hx => ?_) fun xs x ys he => ?_)
        · simp only [List.mem_append, List.mem_singleton, not_or] at hx
          exact (List.mem_cons.1 (hc x hx.1)).resolve_left hx.2
        · simpa using hb (i :: xs) x ys (by rw [he]; rfl)

theorem DependencyOrder.ready {order xs ys : List (Fin n)} {i : Fin n}
    (h : DependencyOrder needs order) (he : order = xs ++ i :: ys) : Ready needs ([] ++ xs) i := by
  have hnodup := h.nodup
  rw [he, List.nodup_append] at hnodup
  exact ⟨fun hi => hnodup.2.2 i hi i List.mem_cons_self rfl, h.before xs i ys he⟩

/-! ## The order of a package -/

/-- The order of evaluation, found with counters that must not go below zero. -/
def checkedOrder? (g : RefGraph n) : Option (List (Fin n)) :=
  g.emit? n (Vector.ofFn fun i => (g.deps i).length)
    ((List.finRange n).filter fun i => (g.deps i).isEmpty)

/-- **The order of evaluation is that of a greedy walk with sound counters; there is one unless a
constant needs itself, and then such a constant is blamed.** -/
theorem evaluationOrder_spec (hn : ∀ j, (g.deps j).Nodup) :
    (∀ order, g.evaluationOrder = .ok order →
      Acyclic g ∧ g.checkedOrder? = some order ∧ Greedy g.Needs [] order ∧
        DependencyOrder g.Needs order) ∧
      (∀ i, g.evaluationOrder = .error i → g.OnCycle i) := by
  unfold evaluationOrder
  split
  · rename_i i hc
    refine ⟨fun order he => (by cases he), fun j he => ?_⟩
    cases he
    exact cyclic?_sound hc
  · rename_i hc
    refine ⟨fun order he => ?_, fun j he => (by cases he)⟩
    cases he
    obtain ⟨hwalk, hgreedy⟩ := (WalkInv.start g).emit_spec hn (Nat.le_add_left n 0)
    obtain ⟨other, hother⟩ := exists_dependencyOrder hc
    exact ⟨cyclic?_eq_none_iff.1 hc, hwalk, hgreedy, hgreedy.dependencyOrder hother⟩

theorem exists_evaluationOrder (h : Acyclic g) : ∃ order, g.evaluationOrder = .ok order := by
  unfold evaluationOrder
  rw [cyclic?_eq_none_iff.2 h]
  exact ⟨_, rfl⟩

end RefGraph

open RefGraph in
/-- **The order of evaluation of a package.**  There is one exactly where no chain of references
leads from a constant back to it.  It holds every constant once, each after all that its expression
mentions; at each place stands the first constant that is not yet in the order and has all that it
mentions there, so no other order of this kind comes before it; and no counter of the walk that
finds it goes below zero. -/
theorem evaluationOrder_characterized {entries : List ConstEntry} (hd : DistinctNames entries) :
    ((∃ order, (ofEntries entries).evaluationOrder = .ok order) ↔
      ∀ i, ¬ TransGen (Mentions entries) i i) ∧
    ∀ order, (ofEntries entries).evaluationOrder = .ok order →
      DependencyOrder (Mentions entries) order ∧
      (∀ xs i ys, order = xs ++ i :: ys →
        IsLeast {j | j ∉ xs ∧ ∀ d, Mentions entries j d → d ∈ xs} i) ∧
      (∀ other, DependencyOrder (Mentions entries) other → order ≤ other) ∧
      (ofEntries entries).checkedOrder? = some order := by
  obtain ⟨hok, -⟩ := evaluationOrder_spec (deps_nodup entries)
  rw [needs_ofEntries hd] at hok
  refine ⟨⟨?_, ?_⟩, fun order horder => ?_⟩
  · rintro ⟨order, horder⟩
    have hacyclic := (hok order horder).1
    unfold Acyclic OnCycle at hacyclic
    rwa [needs_ofEntries hd] at hacyclic
  · intro h
    apply exists_evaluationOrder
    unfold Acyclic OnCycle
    rwa [needs_ofEntries hd]
  · obtain ⟨-, hwalk, hgreedy, hdep⟩ := hok order horder
    refine ⟨hdep, ?_, ?_, hwalk⟩
    · rintro xs i ys rfl
      simpa [Ready] using hgreedy.isLeast
    · intro other hother
      exact hgreedy.le (fun i _ => hother.complete i) fun xs i ys he => hother.ready he

/-- `A = B + B`, `C = 3`, `B = C * 2`: two references forward, one of them written twice. -/
def forwardEntries : List ConstEntry :=
  let mention (name : String) : Expr := .name ⟨name, ⟨1, 1⟩⟩
  [⟨"A", "a.go", ⟨2, 7⟩, none, .binary .add (mention "B") (mention "B"), 0, 0⟩,
   ⟨"C", "a.go", ⟨3, 7⟩, none, .integer "3", 0, 1⟩,
   ⟨"B", "a.go", ⟨4, 7⟩, none, .binary .mul (mention "C") (.integer "2"), 0, 2⟩]

open RefGraph in
theorem evaluationOrder_forwardEntries :
    DistinctNames forwardEntries ∧
    ∃ order, order.map Fin.val = [1, 2, 0] ∧
      (ofEntries forwardEntries).evaluationOrder = .ok order ∧
      DependencyOrder (Mentions forwardEntries) order ∧
      (∀ xs i ys, order = xs ++ i :: ys →
        IsLeast {j | j ∉ xs ∧ ∀ d, Mentions forwardEntries j d → d ∈ xs} i) ∧
      (∀ other, DependencyOrder (Mentions forwardEntries) other → order ≤ other) ∧
      (ofEntries forwardEntries).checkedOrder? = some order := by
  have hd : DistinctNames forwardEntries := by decide
  have horder : (ofEntries forwardEntries).evaluationOrder =
      .ok [⟨1, by decide⟩, ⟨2, by decide⟩, ⟨0, by decide⟩] := by cbv
  exact ⟨hd, _, rfl, horder, (evaluationOrder_characterized hd).2 _ horder⟩

open RefGraph in
/-- **Where some constant needs itself, the failure names one that does**: following references from
it leads back to it. -/
theorem cycle_blames_member {entries : List ConstEntry} (hd : DistinctNames entries)
    (h : ∃ i, TransGen (Mentions entries) i i) :
    ∃ i, (ofEntries entries).evaluationOrder = .error i ∧ TransGen (Mentions entries) i i ∧
      ∀ meaning typeName policy, resolveValues entries meaning typeName policy =
        .error (.cycle (entries.get i).name) := by
  obtain ⟨hok, herr⟩ := evaluationOrder_spec (deps_nodup entries)
  unfold Acyclic OnCycle at hok
  unfold OnCycle at herr
  rw [needs_ofEntries hd] at hok herr
  cases he : (ofEntries entries).evaluationOrder with
  | ok order =>
    obtain ⟨i, hi⟩ := h
    exact absurd hi ((hok order he).1 i)
  | error i =>
    refine ⟨i, rfl, herr i he, fun meaning typeName policy => ?_⟩
    simp only [resolveValues, he]

/-- `A = B`, `B = A`, and `C = A`, which only mentions a constant that needs itself. -/
def cyclicEntries : List ConstEntry :=
  let mention (name : String) : Expr := .name ⟨name, ⟨1, 1⟩⟩
  [⟨"C", "a.go", ⟨2, 7⟩, none, mention "A", 0, 0⟩, ⟨"A", "a.go", ⟨3, 7⟩, none, mention "B", 0, 1⟩,
   ⟨"B", "a.go", ⟨4, 7⟩, none, mention "A", 0, 2⟩]

open RefGraph in
theorem cycle_blames_member_cyclicEntries :
    DistinctNames cyclicEntries ∧ (∃ i, TransGen (Mentions cyclicEntries) i i) ∧
    ∃ i, (ofEntries cyclicEntries).evaluationOrder = .error i ∧
      TransGen (Mentions cyclicEntries) i i ∧
      ∀ meaning typeName policy, resolveValues cyclicEntries meaning typeName policy =
        .error (.cycle (cyclicEntries.get i).name) := by
  have hd : DistinctNames cyclicEntries := by decide
  have hAB : Mentions cyclicEntries ⟨1, by decide⟩ ⟨2, by decide⟩ := by decide
  have hBA : Mentions cyclicEntries ⟨2, by decide⟩ ⟨1, by decide⟩ := by decide
  have hcycle : ∃ i, TransGen (Mentions cyclicEntries) i i := ⟨_, .tail (.single hAB) hBA⟩
  exact ⟨hd, hcycle, cycle_blames_member hd hcycle⟩

end EnumCodec
