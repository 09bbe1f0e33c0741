import EnumCodec.Constant.Entry

/-!
# References between constants

`RefGraph n` has `n` constants and, for each, the constants that its expression mentions, in the
order of the text and each once.

* `RefGraph.ofEntries` — the graph of the constants of a package.
* `RefGraph.reach` — all constants that some of them need, directly or not.
* `unseen` counts the constants that a search has not met; `unseen_cons_lt` is why a search ends.

In the generator this is the `ConstGraph`: `findConstant?` is `lookup`, `RefGraph.ofEntries` is `new`,
and `RefGraph.reach` is `closure`.
-/

set_option autoImplicit false

namespace EnumCodec

/-- Constants, and the constants that each of them mentions. -/
structure RefGraph (n : Nat) where
  deps : Fin n → List (Fin n)

/-- The constant with the given name; of several with the name, the last one. -/
def findConstant? (entries : List ConstEntry) (name : String) : Option (Fin entries.length) :=
  (List.finRange entries.length).findRev? fun i => (entries.get i).name == name

/-- How many constants are not in the list. -/
def unseen {n : Nat} (seen : List (Fin n)) : Nat :=
  (List.finRange n).countP fun i => !seen.contains i

theorem unseen_cons_lt {n : Nat} {seen : List (Fin n)} {i : Fin n} (h : i ∉ seen) :
    unseen (i :: seen) < unseen seen := by
  unfold unseen
  rw [List.countP_eq_length_filter, List.countP_eq_length_filter]
  have hsub : (List.finRange n).filter (fun j => !(i :: seen).contains j) =
      ((List.finRange n).filter (fun j => !seen.contains j)).filter (fun j => j != i) := by
    rw [List.filter_filter]
    congr 1
    funext j
    by_cases hj : j = i <;> simp [hj]
  rw [hsub]
  apply List.length_filter_lt_length_iff_exists.2
  exact ⟨i, by simp [h], by simp⟩

namespace RefGraph

/-- The references between the constants of a package. -/
def ofEntries (entries : List ConstEntry) : RefGraph entries.length :=
  let table : Vector (List (Fin entries.length)) entries.length :=
    Vector.ofFn fun i =>
      ((entries.get i).expr.references.filterMap (findConstant? entries)).eraseDups
  ⟨fun i => table[i]⟩

variable {n : Nat}

/-- The constants that mention the given one, in their own order. -/
def dependents (g : RefGraph n) (d : Fin n) : List (Fin n) :=
  (List.finRange n).filter fun i => (g.deps i).contains d

theorem mem_dependents {g : RefGraph n} {d i : Fin n} : i ∈ g.dependents d ↔ d ∈ g.deps i := by
  simp [dependents]

/-- The constants already met, those of the list, and all that they need (`closure`). -/
def reach (g : RefGraph n) (seen : List (Fin n)) : List (Fin n) → List (Fin n)
  | [] => seen
  | i :: rest =>
    if _h : i ∈ seen then g.reach seen rest
    else g.reach (i :: seen) (g.deps i ++ rest)
termination_by todo => (unseen seen, todo.length)
decreasing_by
  · exact Prod.Lex.right _ (by simp)
  · exact Prod.Lex.left _ _ (unseen_cons_lt _h)

end RefGraph

end EnumCodec
