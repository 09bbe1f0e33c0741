import EnumCodec.Constant.Order
import EnumCodec.Proofs.References

/-!
# The depth-first search and the constant it blames

`RefGraph.searchOrder` lists the constants in the order opposite to that in which a depth-first
search from all of them leaves them; `RefGraph.cyclic?` then searches back along the references, in
that order, for a second constant that is met in one turn.

* `Search.Inv` — what holds at every moment of the search; `Search.run_spec` and
  `Search.runAll_spec` — so, what holds of its answer.
* `LeavingOrder` — what the list is: each constant once, none mentions itself, and a constant that
  mentions one to its right is needed by that one in turn.
* `cyclic?_sound` — the constant that is blamed needs itself; `cyclic?_eq_none_iff` — one is blamed
  exactly when some constant needs itself.
-/

set_option autoImplicit false

namespace EnumCodec.RefGraph

open Relation

variable {n : Nat} {g : RefGraph n}

/-- The constant needs itself, directly or through others. -/
def OnCycle (g : RefGraph n) (i : Fin n) : Prop := TransGen g.Needs i i

/-- No constant needs itself. -/
def Acyclic (g : RefGraph n) : Prop := ∀ i, ¬ g.OnCycle i

/-- A list of the constants in which what stands too far left is needed in turn. -/
structure LeavingOrder (g : RefGraph n) (order : List (Fin n)) : Prop where
  complete : ∀ i, i ∈ order
  nodup : order.Nodup
  loopFree : ∀ i, ¬ g.Needs i i
  back : ∀ xs d ys, order = xs ++ d :: ys →
    ∀ i, g.Needs i d → i ∈ ys ∨ ReflTransGen g.Needs d i

/-! ## The search -/

namespace Search

/-- The constant has been met and not yet been left. -/
def Open (s : Search n) (i : Fin n) : Prop := i ∈ s.seen ∧ i ∉ s.left

/-- What stands on the stack over the uppermost place of a constant. -/
def above (s : Search n) (i : Fin n) : List (Fin n) := s.stack.takeWhile (· != i)

/-- The invariant of the search.  Over an open constant stands only what needs it, and all that
mentions it and has not been met. -/
structure Inv (g : RefGraph n) (s : Search n) : Prop where
  entered : ∀ i ∈ s.seen, i ∈ s.left ∨ i ∈ s.stack
  left_nodup : s.left.Nodup
  left_seen : ∀ i ∈ s.left, i ∈ s.seen
  loopFree : ∀ i ∈ s.seen, ¬ g.Needs i i
  above_needs : ∀ i, s.Open i → ∀ x ∈ s.above i, ReflTransGen g.Needs x i
  pushed : ∀ i, s.Open i → ∀ x, g.Needs x i → x ∈ s.seen ∨ x ∈ s.above i
  back : ∀ xs d ys, s.left = xs ++ d :: ys →
    ∀ i, g.Needs i d → i ∈ ys ∨ ReflTransGen g.Needs d i

theorem Inv.start (g : RefGraph n) : Inv g ⟨[], [], []⟩ where
  entered i hi := by cases hi
  left_nodup := List.nodup_nil
  left_seen i hi := by cases hi
  loopFree i hi := by cases hi
  above_needs i hi := by cases hi.1
  pushed i hi := by cases hi.1
  back xs d ys h := by simp at h

/-- A search that has come to its end can go on from a constant that it has not met. -/
theorem Inv.push {seen left : List (Fin n)} (h : Inv g ⟨seen, left, []⟩) (i : Fin n) :
    Inv g ⟨seen, left, [i]⟩ :=
  have hclosed : ∀ j, ¬ Open ⟨seen, left, [i]⟩ j := fun j hj =>
    (h.entered j hj.1).elim hj.2 (by simp)
  { entered := fun j hj => Or.inl ((h.entered j hj).resolve_right (by simp))
    left_nodup := h.left_nodup
    left_seen := h.left_seen
    loopFree := h.loopFree
    above_needs := fun j hj => absurd hj (hclosed j)
    pushed := fun j hj => absurd hj (hclosed j)
    back := h.back }

theorem takeWhile_ne_cons {i j : Fin n} (h : j ≠ i) (rest : List (Fin n)) :
    (j :: rest).takeWhile (· != i) = j :: rest.takeWhile (· != i) := by
  simp [h]

/-- The constant on top is taken off and is among those that have been left. -/
theorem Inv.pop {seen left left' rest : List (Fin n)} {i : Fin n}
    (h : Inv g ⟨seen, left, i :: rest⟩) (hi : i ∈ seen)
    (hmem : ∀ j, j ∈ left' ↔ j = i ∨ j ∈ left) (hnodup : left'.Nodup)
    (hback : ∀ xs d ys, left' = xs ++ d :: ys →
      ∀ j, g.Needs j d → j ∈ ys ∨ ReflTransGen g.Needs d j) : Inv g ⟨seen, left', rest⟩ where
  entered j hj := by
    rw [hmem]
    rcases h.entered j hj with hj | hj
    · exact Or.inl (Or.inr hj)
    · rcases List.mem_cons.1 hj with rfl | hj
      · exact Or.inl (Or.inl rfl)
      · exact Or.inr hj
  left_nodup := hnodup
  left_seen j hj := by
    rcases (hmem j).1 hj with rfl | hj
    · exact hi
    · exact h.left_seen j hj
  loopFree := h.loopFree
  above_needs j hj x hx := by
    have hne : i ≠ j := fun e => hj.2 ((hmem j).2 (Or.inl e.symm))
    refine h.above_needs j ⟨hj.1, fun hl => hj.2 ((hmem j).2 (Or.inr hl))⟩ x ?_
    rw [above, takeWhile_ne_cons hne]
    exact List.mem_cons_of_mem _ hx
  pushed j hj x hx := by
    have hne : i ≠ j := fun e => hj.2 ((hmem j).2 (Or.inl e.symm))
    have := h.pushed j ⟨hj.1, fun hl => hj.2 ((hmem j).2 (Or.inr hl))⟩ x hx
    rw [above, takeWhile_ne_cons hne, List.mem_cons] at this
    rcases this with hs | rfl | hx
    · exact Or.inl hs
    · exact Or.inl hi
    · exact Or.inr hx
  back := hback

/-- A constant on top that has been left before is taken off. -/
theorem Inv.discard {seen left rest : List (Fin n)} {i : Fin n}
    (h : Inv g ⟨seen, left, i :: rest⟩) (hi : i ∈ seen) (hl : i ∈ left) :
    Inv g ⟨seen, left, rest⟩ := by
  refine h.pop hi (fun j => ⟨Or.inr, fun hj => ?_⟩) h.left_nodup h.back
  rcases hj with rfl | hj
  · exact hl
  · exact hj

/-- What mentions the constant on top has been met; what of it is still open stands below. -/
theorem Inv.back_top {seen left rest : List (Fin n)} {d : Fin n}
    (h : Inv g ⟨seen, left, d :: rest⟩) (hd : d ∈ seen) (hl : d ∉ left) {i : Fin n}
    (hi : g.Needs i d) : i ∈ left ∨ ReflTransGen g.Needs d i := by
  have hseen : i ∈ seen := by
    rcases h.pushed d ⟨hd, hl⟩ i hi with hs | hs
    · exact hs
    · simp [above] at hs
  have hne : d ≠ i := fun e => h.loopFree d hd (e ▸ hi)
  by_cases hil : i ∈ left
  · exact Or.inl hil
  · refine Or.inr (h.above_needs i ⟨hseen, hil⟩ d ?_)
    rw [above, takeWhile_ne_cons hne]
    exact List.mem_cons_self

/-- The constant on top is left. -/
theorem Inv.leave {seen left rest : List (Fin n)} {i : Fin n}
    (h : Inv g ⟨seen, left, i :: rest⟩) (hi : i ∈ seen) (hl : i ∉ left) :
    Inv g ⟨seen, i :: left, rest⟩ := by
  refine h.pop hi (fun j => List.mem_cons) (List.nodup_cons.2 ⟨hl, h.left_nodup⟩) ?_
  intro xs d ys he j hj
  cases xs with
  | nil =>
    obtain ⟨rfl, rfl⟩ := List.cons.inj he
    exact h.back_top hi hl hj
  | cons x xs => exact h.back xs d ys (List.cons.inj he).2 j hj

/-- What a constant that is met puts on the stack: all that mentions it and has not been met. -/
def further (g : RefGraph n) (seen : List (Fin n)) (i : Fin n) : List (Fin n) :=
  (g.dependents i).filter fun d => !(i :: seen).contains d

theorem mem_further {seen : List (Fin n)} {i x : Fin n} :
    x ∈ further g seen i ↔ g.Needs x i ∧ x ≠ i ∧ x ∉ seen := by
  simp [further, mem_dependents, Needs]

theorem takeWhile_further {seen rest : List (Fin n)} {i j : Fin n} (hj : j = i ∨ j ∈ seen) :
    ((further g seen i).reverse ++ rest).takeWhile (· != j) =
      (further g seen i).reverse ++ rest.takeWhile (· != j) := by
  rw [List.takeWhile_append_of_pos]
  intro x hx
  obtain ⟨_, hne, hseen⟩ := mem_further.1 (List.mem_reverse.1 hx)
  rcases hj with rfl | hj
  · simpa using hne
  · simpa using fun e : x = j => hseen (e ▸ hj)

/-- The constant on top is met. -/
theorem Inv.meet {seen left rest : List (Fin n)} {i : Fin n}
    (h : Inv g ⟨seen, left, i :: rest⟩) (hi : i ∉ seen) (hloop : ¬ g.Needs i i) :
    Inv g ⟨i :: seen, left, (further g seen i).reverse ++ i :: rest⟩ where
  entered j hj := by
    rcases List.mem_cons.1 hj with rfl | hj
    · exact Or.inr (List.mem_append_right _ List.mem_cons_self)
    · rcases h.entered j hj with hj | hj
      · exact Or.inl hj
      · exact Or.inr (List.mem_append_right _ hj)
  left_nodup := h.left_nodup
  left_seen j hj := List.mem_cons_of_mem _ (h.left_seen j hj)
  loopFree j hj := by
    rcases List.mem_cons.1 hj with rfl | hj
    · exact hloop
    · exact h.loopFree j hj
  above_needs j hj x hx := by
    rw [above, takeWhile_further (List.mem_cons.1 hj.1), List.mem_append, List.mem_reverse] at hx
    rcases List.mem_cons.1 hj.1 with rfl | hs
    · rcases hx with hx | hx
      · exact .single (mem_further.1 hx).1
      · simp at hx
    · -- what needs `i` also needs what stands below `i`
      have hold := h.above_needs j ⟨hs, hj.2⟩
      have hne : i ≠ j := fun e => hi (e ▸ hs)
      rw [above, takeWhile_ne_cons hne] at hold
      rw [takeWhile_ne_cons hne] at hx
      rcases hx with hx | hx
      · exact .head (mem_further.1 hx).1 (hold i List.mem_cons_self)
      · exact hold x hx
  pushed j hj x hx := by
    rw [above, takeWhile_further (List.mem_cons.1 hj.1), List.mem_append, List.mem_reverse]
    rcases List.mem_cons.1 hj.1 with rfl | hs
    · by_cases hx' : x ∈ j :: seen
      · exact Or.inl hx'
      · rw [List.mem_cons, not_or] at hx'
        exact Or.inr (Or.inl (mem_further.2 ⟨hx, hx'⟩))
    · rcases h.pushed j ⟨hs, hj.2⟩ x hx with hx | hx
      · exact Or.inl (List.mem_cons_of_mem _ hx)
      · exact Or.inr (Or.inr hx)
  back := h.back

/-- **A run keeps the invariant and meets all it had to look at**; it stops early only at a constant
that mentions itself. -/
theorem run_spec {s : Search n} (h : Inv g s) :
    (∀ t, run g s = .ok t →
      Inv g t ∧ t.stack = [] ∧ ∀ i, i ∈ s.seen ∨ i ∈ s.stack → i ∈ t.seen) ∧
      (∀ i, run g s = .error i → g.Needs i i) := by
  fun_induction run g s with
  | case1 s hs =>
    refine ⟨fun t he => ?_, fun i he => by cases he⟩
    cases he
    exact ⟨h, hs, fun i hi => hi.resolve_right (by simp [hs])⟩
  | case2 s i rest hs hi ih =>
    obtain ⟨seen, left, stack⟩ := s
    cases hs
    have hnext : Inv g ⟨seen, if i ∈ left then left else i :: left, rest⟩ := by
      split
      · rename_i hl
        exact h.discard hi hl
      · rename_i hl
        exact h.leave hi hl
    obtain ⟨hok, herr⟩ := ih hnext
    refine ⟨fun t he => ?_, herr⟩
    obtain ⟨hinv, hstack, hmet⟩ := hok t he
    refine ⟨hinv, hstack, fun j hj => hmet j ?_⟩
    rcases hj with hj | hj
    · exact Or.inl hj
    · rcases List.mem_cons.1 hj with rfl | hj
      · exact Or.inl hi
      · exact Or.inr hj
  | case3 s i rest hs hi hloop =>
    refine ⟨fun t he => (by cases he), fun j he => ?_⟩
    cases he
    exact mem_dependents.1 hloop
  | case4 s i rest hs hi hloop further ih =>
    obtain ⟨seen, left, stack⟩ := s
    cases hs
    obtain ⟨hok, herr⟩ := ih (h.meet hi fun hn => hloop (mem_dependents.2 hn))
    refine ⟨fun t he => ?_, herr⟩
    obtain ⟨hinv, hstack, hmet⟩ := hok t he
    refine ⟨hinv, hstack, fun j hj => hmet j ?_⟩
    rcases hj with hj | hj
    · exact Or.inl (List.mem_cons_of_mem _ hj)
    · exact Or.inr (List.mem_append_right _ hj)

theorem runAll_spec (nodes : List (Fin n)) {s : Search n} (h : Inv g s) (hs : s.stack = []) :
    (∀ t, runAll g nodes s = .ok t →
      Inv g t ∧ t.stack = [] ∧ ∀ i, i ∈ s.seen ∨ i ∈ nodes → i ∈ t.seen) ∧
      (∀ i, runAll g nodes s = .error i → g.Needs i i) := by
  fun_induction runAll g nodes s with
  | case1 s =>
    refine ⟨fun t he => ?_, fun i he => by cases he⟩
    cases he
    exact ⟨h, hs, fun i hi => hi.resolve_right (by simp)⟩
  | case2 i rest s hi ih =>
    obtain ⟨hok, herr⟩ := ih h hs
    refine ⟨fun t he => ?_, herr⟩
    obtain ⟨hinv, hstack, hmet⟩ := hok t he
    refine ⟨hinv, hstack, fun j hj => hmet j ?_⟩
    rcases hj with hj | hj
    · exact Or.inl hj
    · rcases List.mem_cons.1 hj with rfl | hj
      · exact Or.inl hi
      · exact Or.inr hj
  | case3 i rest s hi j hrun =>
    obtain ⟨seen, left, stack⟩ := s
    cases hs
    refine ⟨fun t he => (by cases he), fun k he => ?_⟩
    cases he
    exact (run_spec (h.push i)).2 j hrun
  | case4 i rest s hi s' hrun ih =>
    obtain ⟨seen, left, stack⟩ := s
    cases hs
    obtain ⟨hinv', hstack', hmet'⟩ := (run_spec (h.push i)).1 s' hrun
    obtain ⟨hok, herr⟩ := ih hinv' hstack'
    refine ⟨fun t he => ?_, herr⟩
    obtain ⟨hinv, hstack, hmet⟩ := hok t he
    refine ⟨hinv, hstack, fun j hj => ?_⟩
    rcases hj with hj | hj
    · exact hmet j (Or.inl (hmet' j (Or.inl hj)))
    · rcases List.mem_cons.1 hj with rfl | hj
      · exact hmet j (Or.inl (hmet' j (Or.inr List.mem_cons_self)))
      · exact hmet j (Or.inr hj)

end Search

/-- **The search gives a leaving order, or a constant that mentions itself.** -/
theorem searchOrder_spec (g : RefGraph n) :
    (∀ order, g.searchOrder = .ok order → LeavingOrder g order) ∧
      (∀ i, g.searchOrder = .error i → g.Needs i i) := by
  obtain ⟨hok, herr⟩ := Search.runAll_spec (List.finRange n) (Search.Inv.start g) rfl
  unfold searchOrder
  split
  · rename_i i hrun
    refine ⟨fun order he => (by cases he), fun j he => ?_⟩
    cases he
    exact herr i hrun
  · rename_i t hrun
    refine ⟨fun order he => ?_, fun j he => (by cases he)⟩
    cases he
    obtain ⟨hinv, hstack, hmet⟩ := hok t hrun
    have hseen : ∀ i, i ∈ t.seen := fun i => hmet i (Or.inr (List.mem_finRange i))
    exact {
      complete := fun i => (hinv.entered i (hseen i)).resolve_right (by simp [hstack])
      nodup := hinv.left_nodup
      loopFree := fun i => hinv.loopFree i (hseen i)
      back := hinv.back }

/-! ## The search back -/

theorem meetBack?_some {seen stack : List (Fin n)} {k : Fin n} {rest : List (Fin n)}
    (h : g.meetBack? seen stack = some (k, rest)) : k ∈ stack ∧ k ∉ seen := by
  fun_induction g.meetBack? seen stack with
  | case1 => cases h
  | case2 i stack hi ih => exact ⟨List.mem_cons_of_mem _ (ih h).1, (ih h).2⟩
  | case3 i stack hi further =>
    cases h
    exact ⟨List.mem_cons_self, hi⟩

theorem meetBack?_none {seen stack : List (Fin n)} (h : g.meetBack? seen stack = none) :
    ∀ k ∈ stack, k ∈ seen := by
  fun_induction g.meetBack? seen stack with
  | case1 => exact fun k hk => by cases hk
  | case2 i stack hi ih =>
    intro k hk
    rcases List.mem_cons.1 hk with rfl | hk
    · exact hi
    · exact ih h k hk
  | case3 i stack hi further => cases h

/-- The first constant of a turn is the one it starts from; what it mentions comes next. -/
theorem meetBack?_start {seen : List (Fin n)} {i : Fin n} (hi : i ∉ seen) :
    g.meetBack? seen [i] =
      some (i, ((g.deps i).filter fun d => !(i :: seen).contains d).reverse ++ []) := by
  simp only [meetBack?, if_neg hi]

/-- A second constant of a turn is mentioned by the one the turn starts from, and was met in no turn
before. -/
theorem secondMet?_some {seen order : List (Fin n)} {d : Fin n}
    (h : g.secondMet? seen order = some d) :
    d ∉ seen ∧ ∃ xs i ys, order = xs ++ i :: ys ∧ g.Needs i d ∧ d ≠ i ∧ d ∉ xs := by
  fun_induction g.secondMet? seen order with
  | case1 => cases h
  | case2 seen i rest hnone ih =>
    obtain ⟨hd, xs, j, ys, rfl, hneeds, hne, hxs⟩ := ih h
    have hi : i ∈ seen := meetBack?_none hnone i List.mem_cons_self
    refine ⟨hd, i :: xs, j, ys, rfl, hneeds, hne, ?_⟩
    rw [List.mem_cons, not_or]
    exact ⟨fun e => hd (e ▸ hi), hxs⟩
  | case3 seen i rest j stack hfirst k rest' hsecond =>
    cases h
    have hi := (meetBack?_some hfirst).2
    obtain rfl : j = i := by simpa using (meetBack?_some hfirst).1
    rw [meetBack?_start hi] at hfirst
    cases hfirst
    obtain ⟨hmem, hd⟩ := meetBack?_some hsecond
    rw [List.mem_cons, not_or] at hd
    simp only [List.append_nil, List.mem_reverse, List.mem_filter] at hmem
    exact ⟨hd.2, [], j, rest, rfl, hmem.1, hd.1, by simp⟩
  | case4 seen i rest j stack hfirst hsecond ih =>
    obtain rfl : j = i := by simpa using (meetBack?_some hfirst).1
    obtain ⟨hd, xs, i, ys, rfl, hneeds, hne, hxs⟩ := ih h
    rw [List.mem_cons, not_or] at hd
    refine ⟨hd.2, j :: xs, i, ys, rfl, hneeds, hne, ?_⟩
    rw [List.mem_cons, not_or]
    exact ⟨hd.1, hxs⟩

/-- If every turn meets one constant, all that a constant mentions stands before it. -/
theorem secondMet?_none {seen order : List (Fin n)} (h : g.secondMet? seen order = none)
    (hnodup : order.Nodup) (hfresh : ∀ i ∈ order, i ∉ seen) :
    ∀ xs i ys, order = xs ++ i :: ys → ∀ d, g.Needs i d → d ∈ seen ∨ d ∈ xs ∨ d = i := by
  fun_induction g.secondMet? seen order with
  | case1 seen => intro xs i ys he; simp at he
  | case2 seen i rest hnone ih =>
    exact absurd (meetBack?_none hnone i List.mem_cons_self) (hfresh i List.mem_cons_self)
  | case3 => cases h
  | case4 seen i rest j stack hfirst hsecond ih =>
    obtain rfl : j = i := by simpa using (meetBack?_some hfirst).1
    rw [meetBack?_start (hfresh j List.mem_cons_self)] at hfirst
    cases hfirst
    obtain ⟨hj, hrest⟩ := List.nodup_cons.1 hnodup
    have hfresh' : ∀ i ∈ rest, i ∉ j :: seen := fun i hi hmem => by
      rcases List.mem_cons.1 hmem with rfl | hmem
      · exact hj hi
      · exact hfresh i (List.mem_cons_of_mem _ hi) hmem
    intro xs i ys he d hd
    cases xs with
    | nil =>
      obtain ⟨rfl, rfl⟩ := List.cons.inj he
      by_cases hmem : d ∈ j :: seen
      · rcases List.mem_cons.1 hmem with rfl | hmem
        · exact Or.inr (Or.inr rfl)
        · exact Or.inl hmem
      · refine absurd (meetBack?_none hsecond d ?_) hmem
        simp only [List.append_nil, List.mem_reverse, List.mem_filter]
        exact ⟨hd, by simpa using hmem⟩
    | cons x xs =>
      obtain ⟨rfl, hrest'⟩ := List.cons.inj he
      rcases ih h hrest hfresh' xs i ys hrest' d hd with hmem | hmem | hmem
      · rcases List.mem_cons.1 hmem with rfl | hmem
        · exact Or.inr (Or.inl List.mem_cons_self)
        · exact Or.inl hmem
      · exact Or.inr (Or.inl (List.mem_cons_of_mem _ hmem))
      · exact Or.inr (Or.inr hmem)

/-! ## The constant that is blamed -/

/-- A constant that is mentioned to its left is needed by what mentions it, and needs it. -/
theorem LeavingOrder.onCycle {order : List (Fin n)} (h : LeavingOrder g order)
    {xs ys : List (Fin n)} {i d : Fin n} (he : order = xs ++ i :: ys) (hneeds : g.Needs i d)
    (hne : d ≠ i) (hd : d ∉ xs) : g.OnCycle d := by
  have hmem : d ∈ ys := by
    have := h.complete d
    simpa [he, hne, hd] using this
  obtain ⟨zs, ws, rfl⟩ := List.append_of_mem hmem
  have hnodup := h.nodup
  rcases h.back (xs ++ i :: zs) d ws (by simp [he]) i hneeds with hi | hi
  · simp [he, List.nodup_append, hi] at hnodup
  · exact .tail' hi hneeds

/-- An order in which all that a constant mentions stands before it leaves no room for a cycle. -/
theorem acyclic_of_rank (rank : Fin n → Nat) (h : ∀ i d, g.Needs i d → rank d < rank i) :
    Acyclic g := by
  have hlt : ∀ i d, TransGen g.Needs i d → rank d < rank i := by
    intro i d hid
    induction hid with
    | single hstep => exact h _ _ hstep
    | tail _ hstep ih => exact (h _ _ hstep).trans ih
  exact fun i hi => Nat.lt_irrefl _ (hlt i i hi)

theorem idxOf_lt_idxOf {order xs ys : List (Fin n)} {i d : Fin n} (he : order = xs ++ i :: ys)
    (hi : i ∉ xs) (hd : d ∈ xs) : order.idxOf d < order.idxOf i := by
  rw [he, List.idxOf_append_of_mem hd, List.idxOf_append_of_notMem hi]
  exact Nat.lt_of_lt_of_le (List.idxOf_lt_length_iff.2 hd) (Nat.le_add_right _ _)

/-- **The constant that is blamed needs itself.** -/
theorem cyclic?_sound {d : Fin n} (h : g.cyclic? = some d) : g.OnCycle d := by
  obtain ⟨hok, herr⟩ := searchOrder_spec g
  unfold cyclic? at h
  split at h
  · rename_i i hsearch
    cases h
    exact .single (herr _ hsearch)
  · rename_i order hsearch
    obtain ⟨_, xs, i, ys, he, hneeds, hne, hd⟩ := secondMet?_some h
    exact (hok order hsearch).onCycle he hneeds hne hd

/-- A list of all the constants, each once, in which all that a constant mentions stands before
it. -/
structure DependencyOrder (needs : Fin n → Fin n → Prop) (order : List (Fin n)) : Prop where
  complete : ∀ i, i ∈ order
  nodup : order.Nodup
  before : ∀ xs i ys, order = xs ++ i :: ys → ∀ d, needs i d → d ∈ xs

theorem exists_dependencyOrder (h : g.cyclic? = none) :
    ∃ order, DependencyOrder g.Needs order := by
  obtain ⟨hok, -⟩ := searchOrder_spec g
  unfold cyclic? at h
  split at h
  · cases h
  · rename_i order hsearch
    have horder := hok order hsearch
    refine ⟨order, horder.complete, horder.nodup, fun xs i ys he d hd => ?_⟩
    rcases secondMet?_none h horder.nodup (by simp) xs i ys he d hd with hd' | hd' | rfl
    · cases hd'
    · exact hd'
    · exact absurd hd (horder.loopFree d)

theorem DependencyOrder.idxOf_lt {needs : Fin n → Fin n → Prop} {order : List (Fin n)}
    (h : DependencyOrder needs order) {i d : Fin n} (hneeds : needs i d) :
    order.idxOf d < order.idxOf i := by
  obtain ⟨xs, ys, he⟩ := List.append_of_mem (h.complete i)
  refine idxOf_lt_idxOf he ?_ (h.before xs i ys he d hneeds)
  have hnodup := h.nodup
  rw [he, List.nodup_append] at hnodup
  exact fun hi => hnodup.2.2 i hi i List.mem_cons_self rfl

/-- **A constant is blamed exactly when some constant needs itself.** -/
theorem cyclic?_eq_none_iff : g.cyclic? = none ↔ Acyclic g := by
  constructor
  · intro h
    obtain ⟨order, horder⟩ := exists_dependencyOrder h
    exact acyclic_of_rank order.idxOf fun i d hd => horder.idxOf_lt hd
  · intro h
    cases hc : g.cyclic? with
    | none => rfl
    | some d => exact absurd (cyclic?_sound hc) (h d)

end EnumCodec.RefGraph
