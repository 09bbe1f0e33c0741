import EnumCodec.Constant.References

/-!
# The order of evaluation

Constants are evaluated after the constants they mention; where there is a choice, the one declared
first comes first.  There is such an order unless a constant needs itself, directly or through
others.

* `RefGraph.cyclic?` looks for a constant that needs itself.  A depth-first search lists the
  constants, each before those that mention it, as far as possible; then, in the order of that list,
  a search back along the references meets each constant alone, or else a second one, which is the
  answer.
* `RefGraph.evaluationOrder` gives the order, or the constant that was found.

In the generator this is `evaluation_order`, and `RefGraph.cyclic?` is the `toposort` that it calls
first, with its two phases.
-/

set_option autoImplicit false

namespace EnumCodec

namespace RefGraph

variable {n : Nat}

/-- A depth-first search: the constants it has met, those it has left, last one first, and those it
still has to look at, with the way to the current one between them. -/
structure Search (n : Nat) where
  seen : List (Fin n)
  left : List (Fin n)
  stack : List (Fin n)

theorem length_dependents_le (g : RefGraph n) (d : Fin n) : (g.dependents d).length ≤ n := by
  have := List.length_filter_le (fun i => (g.deps i).contains d) (List.finRange n)
  simpa [dependents] using this

/-- Runs a search until there is nothing left to look at, or up to a constant that mentions
itself. -/
def Search.run (g : RefGraph n) (s : Search n) : Except (Fin n) (Search n) :=
  match _hs : s.stack with
  | [] => .ok s
  | i :: rest =>
    if _hi : i ∈ s.seen then
      Search.run g ⟨s.seen, if i ∈ s.left then s.left else i :: s.left, rest⟩
    else if i ∈ g.dependents i then .error i
    else
      let further := (g.dependents i).filter fun d => !(i :: s.seen).contains d
      Search.run g ⟨i :: s.seen, s.left, further.reverse ++ i :: rest⟩
termination_by unseen s.seen * (n + 1) + s.stack.length
decreasing_by
  · simp [_hs]
  · have h1 := unseen_cons_lt _hi
    have h2 := length_dependents_le g i
    have h3 := List.length_filter_le (fun d => !(i :: s.seen).contains d) (g.dependents i)
    have h4 : (unseen (i :: s.seen) + 1) * (n + 1) ≤ unseen s.seen * (n + 1) :=
      Nat.mul_le_mul_right _ h1
    simp only [_hs, List.length_append, List.length_reverse, List.length_cons]
    rw [Nat.add_mul] at h4
    omega

/-- Goes on with a search from each constant of a list that it has not met. -/
def Search.runAll (g : RefGraph n) : List (Fin n) → Search n → Except (Fin n) (Search n)
  | [], s => .ok s
  | i :: rest, s =>
    if i ∈ s.seen then Search.runAll g rest s
    else
      match Search.run g ⟨s.seen, s.left, [i]⟩ with
      | .error j => .error j
      | .ok s => Search.runAll g rest s

/-- The constants in the order opposite to that in which a search from all of them leaves them, or a
constant that mentions itself. -/
def searchOrder (g : RefGraph n) : Except (Fin n) (List (Fin n)) :=
  match Search.runAll g (List.finRange n) ⟨[], [], []⟩ with
  | .error i => .error i
  | .ok s => .ok s.left

/-- The next constant that a search back along the references meets, and what it then has to look
at, when it has met some constants before. -/
def meetBack? (g : RefGraph n) (seen : List (Fin n)) : List (Fin n) → Option (Fin n × List (Fin n))
  | [] => none
  | i :: stack =>
    if i ∈ seen then g.meetBack? seen stack
    else
      let further := (g.deps i).filter fun d => !(i :: seen).contains d
      some (i, further.reverse ++ stack)

/-- Searches back from each constant of a list in turn.  The answer is the first constant that is
met as the second one of its turn. -/
def secondMet? (g : RefGraph n) (seen : List (Fin n)) : List (Fin n) → Option (Fin n)
  | [] => none
  | i :: rest =>
    match g.meetBack? seen [i] with
    | none => g.secondMet? seen rest
    | some (j, stack) =>
      match g.meetBack? (j :: seen) stack with
      | some (k, _) => some k
      | none => g.secondMet? (j :: seen) rest

/-- A constant that needs itself. -/
def cyclic? (g : RefGraph n) : Option (Fin n) :=
  match g.searchOrder with
  | .error i => some i
  | .ok order => g.secondMet? [] order

/-- Puts a constant into a list in declaration order. -/
def insertReady (i : Fin n) : List (Fin n) → List (Fin n)
  | [] => [i]
  | j :: rest => if i < j then i :: j :: rest else j :: insertReady i rest

/-- Tells constants that one of those they wait for has been evaluated: each waits for one fewer,
and is ready when it waits for none. -/
def release : List (Fin n) → Vector Nat n → List (Fin n) → Vector Nat n × List (Fin n)
  | [], waiting, ready => (waiting, ready)
  | d :: ds, waiting, ready =>
    let left := waiting.get d - 1
    release ds (waiting.set d.val left d.isLt) (if left = 0 then insertReady d ready else ready)

/-- Takes the first ready constant, a given number of times. -/
def emit (g : RefGraph n) : Nat → Vector Nat n → List (Fin n) → List (Fin n)
  | 0, _, _ => []
  | _ + 1, _, [] => []
  | k + 1, waiting, i :: ready =>
    let (waiting, ready) := release (g.dependents i) waiting ready
    i :: g.emit k waiting ready

/-- The order of evaluation (`evaluation_order`), or a constant that needs itself. -/
def evaluationOrder (g : RefGraph n) : Except (Fin n) (List (Fin n)) :=
  match g.cyclic? with
  | some i => .error i
  | none =>
    .ok (g.emit n (Vector.ofFn fun i => (g.deps i).length)
      ((List.finRange n).filter fun i => (g.deps i).isEmpty))

end RefGraph

end EnumCodec
