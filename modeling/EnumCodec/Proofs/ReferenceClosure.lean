import EnumCodec.Proofs.References
import Mathlib

/-!
# All that some constants need

`RefGraph.reach` goes along references in depth, and may have a constant on its list several times.
A `Sweep` goes along them in breadth, as the `closure` of a `ConstGraph` does: it has a queue, into
which a constant is put when it is met, and so only once.

* `Sweep.Inv` — what has been met, is queued, and is done with; `Sweep.Inv.round` — one round keeps it.
* `Sweep.Inv.exists_run?` — a sweep empties its queue, cycles or not: no constant is queued twice.
* `RefGraph.reach_isLeast` — `reach` gives the smallest set of constants that holds the roots and all
  that its members mention; it is what chains of references lead to, and what a sweep has met in as
  many rounds as it has members.
-/

set_option autoImplicit false

namespace EnumCodec

open Relation

/-! ## A sweep in breadth -/

/-- The constants that have been met, and those of them that are still to be looked at, in the order
in which they were met. -/
structure Sweep (n : Nat) where
  met : List (Fin n)
  queue : List (Fin n)

namespace Sweep

variable {n : Nat} {g : RefGraph n} {roots : List (Fin n)} {s : Sweep n}

/-- Meets constants one after the other; those that are new go to the end of the queue. -/
def meet : List (Fin n) → Sweep n → Sweep n
  | [], s => s
  | i :: rest, s =>
    if s.met.contains i then meet rest s else meet rest ⟨i :: s.met, s.queue ++ [i]⟩

/-- The constant at hand is new if it has not been met. -/
theorem meet_cons (i : Fin n) (rest : List (Fin n)) (s : Sweep n) :
    meet (i :: rest) s =
      if i ∈ s.met then meet rest s else meet rest ⟨i :: s.met, s.queue ++ [i]⟩ := by
  simp [meet]

/-- The sweep that is about to begin at some constants. -/
def start (roots : List (Fin n)) : Sweep n := meet roots ⟨[], []⟩

/-- Looks at the first constant of the queue, again and again; the answer is what has been met when
the queue is empty, if that is so after the given number of rounds. -/
def run? (g : RefGraph n) : Nat → Sweep n → Option (List (Fin n))
  | _, ⟨met, []⟩ => some met
  | 0, ⟨_, _ :: _⟩ => none
  | k + 1, ⟨met, i :: queue⟩ => run? g k (meet (g.deps i) ⟨met, queue⟩)

/-! ### Meeting constants -/

theorem mem_met_meet {l : List (Fin n)} {x : Fin n} :
    x ∈ (meet l s).met ↔ x ∈ s.met ∨ x ∈ l := by
  induction l generalizing s with
  | nil => simp [meet]
  | cons i rest ih =>
    rw [meet_cons]
    split
    · rename_i hi
      rw [ih, List.mem_cons]
      constructor
      · rintro (h | h)
        · exact Or.inl h
        · exact Or.inr (Or.inr h)
      · rintro (h | rfl | h)
        · exact Or.inl h
        · exact Or.inl hi
        · exact Or.inr h
    · rw [ih, List.mem_cons, List.mem_cons]
      tauto

/-- What is met is queued if it is new. -/
theorem mem_queue_meet {l : List (Fin n)} {x : Fin n} :
    x ∈ (meet l s).queue ↔ x ∈ s.queue ∨ (x ∈ l ∧ x ∉ s.met) := by
  induction l generalizing s with
  | nil => simp [meet]
  | cons i rest ih =>
    rw [meet_cons]
    split
    · rename_i hi
      rw [ih, List.mem_cons]
      constructor
      · rintro (h | ⟨h, hx⟩)
        · exact Or.inl h
        · exact Or.inr ⟨Or.inr h, hx⟩
      · rintro (h | ⟨rfl | h, hx⟩)
        · exact Or.inl h
        · exact absurd hi hx
        · exact Or.inr ⟨h, hx⟩
    · rename_i hi
      rw [ih]
      by_cases hx : x = i
      · subst hx
        simp [hi]
      · simp [hx]

theorem nodup_meet {l : List (Fin n)} (h : s.met.Nodup) : (meet l s).met.Nodup := by
  induction l generalizing s with
  | nil => exact h
  | cons i rest ih =>
    rw [meet_cons]
    split
    · exact ih h
    · rename_i hi
      exact ih (List.nodup_cons.2 ⟨hi, h⟩)

/-- As many constants are queued as are new. -/
theorem length_meet (l : List (Fin n)) (s : Sweep n) :
    (meet l s).met.length + s.queue.length = s.met.length + (meet l s).queue.length := by
  induction l generalizing s with
  | nil => rfl
  | cons i rest ih =>
    rw [meet_cons]
    split
    · exact ih s
    · have hrest := ih ⟨i :: s.met, s.queue ++ [i]⟩
      simp only [List.length_cons, List.length_append, List.length_nil] at hrest
      omega

/-! ### The invariant -/

/-- What holds between the rounds of a sweep from some constants. -/
structure Inv (g : RefGraph n) (roots : List (Fin n)) (s : Sweep n) : Prop where
  nodup : s.met.Nodup
  queued : ∀ i ∈ s.queue, i ∈ s.met
  reached : ∀ i ∈ s.met, ∃ r ∈ roots, ReflTransGen g.Needs r i
  begun : ∀ r ∈ roots, r ∈ s.met
  /-- A constant that has been met and is not queued has been looked at. -/
  looked : ∀ i ∈ s.met, i ∉ s.queue → ∀ d, g.Needs i d → d ∈ s.met

theorem Inv.start (g : RefGraph n) (roots : List (Fin n)) : Inv g roots (start roots) where
  nodup := nodup_meet List.nodup_nil
  queued i hi := by
    rcases mem_queue_meet.1 hi with h | ⟨h, -⟩
    · cases h
    · exact mem_met_meet.2 (Or.inr h)
  reached i hi := by
    rcases mem_met_meet.1 hi with h | h
    · cases h
    · exact ⟨i, h, .refl⟩
  begun r hr := mem_met_meet.2 (Or.inr hr)
  looked i hi hq := by
    -- all that has been met so far is queued
    rcases mem_met_meet.1 hi with h | h
    · cases h
    · exact absurd (mem_queue_meet.2 (Or.inr ⟨h, List.not_mem_nil⟩)) hq

/-- **One round keeps the invariant.** -/
theorem Inv.round {met queue : List (Fin n)} {i : Fin n} (h : Inv g roots ⟨met, i :: queue⟩) :
    Inv g roots (meet (g.deps i) ⟨met, queue⟩) := by
  have hi : i ∈ met := h.queued i List.mem_cons_self
  refine ⟨nodup_meet h.nodup, ?_, ?_, ?_, ?_⟩
  · intro x hx
    rcases mem_queue_meet.1 hx with hx | ⟨hx, -⟩
    · exact mem_met_meet.2 (Or.inl (h.queued x (List.mem_cons_of_mem i hx)))
    · exact mem_met_meet.2 (Or.inr hx)
  · intro x hx
    rcases mem_met_meet.1 hx with hx | hx
    · exact h.reached x hx
    · obtain ⟨r, hr, hchain⟩ := h.reached i hi
      exact ⟨r, hr, hchain.tail hx⟩
  · intro r hr
    exact mem_met_meet.2 (Or.inl (h.begun r hr))
  · intro x hx hq d hd
    rw [mem_queue_meet, not_or] at hq
    -- what this round meets first is queued now, so `x` was met before
    have hmet : x ∈ met := by
      rcases mem_met_meet.1 hx with hx | hx
      · exact hx
      · by_contra hnew
        exact hq.2 ⟨hx, hnew⟩
    by_cases hxi : x = i
    · subst hxi
      exact mem_met_meet.2 (Or.inr hd)
    · have hold : x ∉ i :: queue := by simp [hxi, hq.1]
      exact mem_met_meet.2 (Or.inl (h.looked x hmet hold d hd))

/-- When nothing is queued, what has been met is what chains of references lead to. -/
theorem Inv.mem_iff {met : List (Fin n)} (h : Inv g roots ⟨met, []⟩) {i : Fin n} :
    i ∈ met ↔ ∃ r ∈ roots, ReflTransGen g.Needs r i := by
  constructor
  · exact h.reached i
  · rintro ⟨r, hr, hchain⟩
    induction hchain with
    | refl => exact h.begun r hr
    | tail _ hstep ih => exact h.looked _ ih List.not_mem_nil _ hstep

/-- **A sweep comes to its end.**  Each round takes a constant from the queue that never comes back,
so there are no more rounds than constants that can be met. -/
theorem Inv.exists_run? {k : Nat} (h : Inv g roots s)
    (hk : (g.reach [] roots).length + s.queue.length ≤ s.met.length + k) :
    ∃ met, run? g k s = some met ∧ Inv g roots ⟨met, []⟩ := by
  induction k generalizing s with
  | zero =>
    obtain ⟨met, queue⟩ := s
    cases queue with
    | nil => exact ⟨met, by simp [run?], h⟩
    | cons i queue =>
      have hsub : met ⊆ g.reach [] roots := fun x hx => RefGraph.mem_reach_iff.2 (h.reached x hx)
      -- all that can be met has been met, so there is no room for what is queued
      have hle := (h.nodup.subperm hsub).length_le
      simp only [List.length_cons] at hk hle
      omega
  | succ k ih =>
    obtain ⟨met, queue⟩ := s
    cases queue with
    | nil => exact ⟨met, by simp [run?], h⟩
    | cons i queue =>
      have hbalance := length_meet (g.deps i) ⟨met, queue⟩
      simp only [List.length_cons] at hk hbalance
      rw [run?]
      exact ih h.round (by omega)

end Sweep

/-! ## The least closed set -/

namespace RefGraph

variable {n : Nat}

theorem nodup_reach (g : RefGraph n) {seen : List (Fin n)} (h : seen.Nodup)
    (todo : List (Fin n)) : (g.reach seen todo).Nodup := by
  fun_induction g.reach seen todo with
  | case1 seen => exact h
  | case2 seen i rest _ ih => exact ih h
  | case3 seen i rest hi ih => exact ih (List.nodup_cons.2 ⟨hi, h⟩)

/-- A sweep from some constants meets what `reach` gives, in as many rounds. -/
theorem exists_sweep (g : RefGraph n) (roots : List (Fin n)) :
    ∃ met, Sweep.run? g (g.reach [] roots).length (Sweep.start roots) = some met ∧
      met.Perm (g.reach [] roots) := by
  have hbalance := Sweep.length_meet roots ⟨[], []⟩
  have hrounds : (g.reach [] roots).length + (Sweep.start roots).queue.length ≤
      (Sweep.start roots).met.length + (g.reach [] roots).length := by
    simp only [Sweep.start, List.length_nil] at hbalance ⊢
    omega
  obtain ⟨met, hrun, hinv⟩ := (Sweep.Inv.start g roots).exists_run? hrounds
  refine ⟨met, hrun, ?_⟩
  rw [List.perm_ext_iff_of_nodup hinv.nodup (nodup_reach g List.nodup_nil roots)]
  intro i
  rw [hinv.mem_iff, mem_reach_iff]

end RefGraph

/-- The set holds some constants, and with each of its members all that this mentions. -/
structure Supplies (entries : List ConstEntry) (roots : List (Fin entries.length))
    (S : Set (Fin entries.length)) : Prop where
  roots : ∀ r ∈ roots, r ∈ S
  mentions : ∀ i ∈ S, ∀ d, Mentions entries i d → d ∈ S

theorem Supplies.mem_of_chain {entries : List ConstEntry} {roots : List (Fin entries.length)}
    {S : Set (Fin entries.length)} (h : Supplies entries roots S) {r i : Fin entries.length}
    (hr : r ∈ roots) (hchain : ReflTransGen (Mentions entries) r i) : i ∈ S := by
  induction hchain with
  | refl => exact h.roots r hr
  | tail _ hstep ih => exact h.mentions _ ih _ hstep

open RefGraph in
/-- **What some constants need is the smallest set that supplies them**, whether or not there are
cycles: what chains of references from them lead to.  Each constant is in it once, and a sweep from
the same constants has met all of them, and nothing else, when it has looked at each of them once. -/
theorem RefGraph.reach_isLeast {entries : List ConstEntry} (hd : DistinctNames entries)
    (roots : List (Fin entries.length)) :
    IsLeast {S | Supplies entries roots S} {i | i ∈ (ofEntries entries).reach [] roots} ∧
    (∀ i, i ∈ (ofEntries entries).reach [] roots ↔
      ∃ r ∈ roots, ReflTransGen (Mentions entries) r i) ∧
    ((ofEntries entries).reach [] roots).Nodup ∧
    ∃ met, Sweep.run? (ofEntries entries) ((ofEntries entries).reach [] roots).length
        (Sweep.start roots) = some met ∧
      met.Perm ((ofEntries entries).reach [] roots) := by
  have hchain : ∀ i, i ∈ (ofEntries entries).reach [] roots ↔
      ∃ r ∈ roots, ReflTransGen (Mentions entries) r i := by
    intro i
    rw [mem_reach_iff, needs_ofEntries hd]
  refine ⟨⟨⟨?_, ?_⟩, ?_⟩, hchain, nodup_reach _ List.nodup_nil roots, exists_sweep _ roots⟩
  · intro r hr
    exact (hchain r).2 ⟨r, hr, .refl⟩
  · intro i hi d hstep
    obtain ⟨r, hr, hri⟩ := (hchain i).1 hi
    exact (hchain d).2 ⟨r, hr, hri.tail hstep⟩
  · intro S hS i hi
    obtain ⟨r, hr, hri⟩ := (hchain i).1 hi
    exact hS.mem_of_chain hr hri

/-- `Left = Right + Base`, `Right = Left`, `Base = 1`, and `Apart = Left + Apart`, which nothing else
mentions. -/
def ringEntries : List ConstEntry :=
  let mention (name : String) : Expr := .name ⟨name, ⟨1, 1⟩⟩
  [⟨"Left", "a.go", ⟨2, 7⟩, none, .binary .add (mention "Right") (mention "Base"), 0, 0⟩,
   ⟨"Right", "a.go", ⟨3, 7⟩, none, mention "Left", 0, 1⟩,
   ⟨"Base", "a.go", ⟨4, 7⟩, none, .integer "1", 0, 2⟩,
   ⟨"Apart", "a.go", ⟨5, 7⟩, none, .binary .add (mention "Left") (mention "Apart"), 0, 3⟩]

open RefGraph in
theorem RefGraph.reach_isLeast_ringEntries :
    DistinctNames ringEntries ∧
    ∃ left right base : Fin ringEntries.length,
      [left.val, right.val, base.val] = [0, 1, 2] ∧
      (ofEntries ringEntries).reach [] [left, right] = [base, right, left] ∧
      IsLeast {S | Supplies ringEntries [left, right] S} {i | i ∈ [base, right, left]} ∧
      (∀ i, i ∈ [base, right, left] ↔
        ∃ r ∈ [left, right], ReflTransGen (Mentions ringEntries) r i) ∧
      ∃ met, Sweep.run? (ofEntries ringEntries) 3 (Sweep.start [left, right]) = some met ∧
        met.Perm [base, right, left] := by
  have hd : DistinctNames ringEntries := by decide
  have hreach : (ofEntries ringEntries).reach [] [⟨0, by decide⟩, ⟨1, by decide⟩] =
      [⟨2, by decide⟩, ⟨1, by decide⟩, ⟨0, by decide⟩] := by cbv
  have hall := RefGraph.reach_isLeast hd [⟨0, by decide⟩, ⟨1, by decide⟩]
  rw [hreach] at hall
  obtain ⟨hleast, hchain, -, hsweep⟩ := hall
  exact ⟨hd, _, _, _, rfl, hreach, hleast, hchain, hsweep⟩

end EnumCodec
