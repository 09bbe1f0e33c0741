import EnumCodec.Proofs.Word

/-!
# Runs of the machine

A run is a computation with words that is written in `do` blocks and keeps the list of its
instructions.

* `WordRun.Computes` — a run stands for a computation on integers: every instruction is defined, and
  none has lost anything if there is a result.
* `WordRun.Computes.bind` — so do two runs one after the other; `WordRun.Computes.exec_bind` — an
  instruction may lose something if the run ends without a result.
-/

set_option autoImplicit false

namespace EnumCodec

/-- A computation with words: the instructions in their order, and what comes out of it. -/
structure WordRun (α : Type) where
  trace : List Instr
  outcome : Except EvalProblem α

namespace WordRun

variable {α β γ δ : Type}

instance : Monad WordRun where
  pure a := ⟨[], .ok a⟩
  bind r f :=
    match r.outcome with
    | .error e => ⟨r.trace, .error e⟩
    | .ok a => ⟨r.trace ++ (f a).trace, (f a).outcome⟩

theorem bind_eq (r : WordRun α) (f : α → WordRun β) : (r >>= f) =
    match r.outcome with
    | .error e => ⟨r.trace, .error e⟩
    | .ok a => ⟨r.trace ++ (f a).trace, (f a).outcome⟩ := rfl

/-- A run that ends without a result. -/
def fail (e : EvalProblem) : WordRun α := ⟨[], .error e⟩

/-- A run with the outcome of something else, and no instruction. -/
def done (x : Except EvalProblem α) : WordRun α := ⟨[], x⟩

/-- One instruction. -/
def exec (i : Instr) : WordRun Word := ⟨[i], .ok i.result⟩

/-- One instruction whose result is dropped if it is said to be out of range. -/
def checked (overflow : Bool) (i : Instr) : WordRun Word := do
  let a ← exec i
  if overflow then fail (.overflow .arithmetic) else pure a

/-- A division, which is not begun if it has no result in range. -/
def divided (a b : Word) (i : Instr) : WordRun Word :=
  if b = 0 || (a = BitVec.intMin 128 && b = -1) then fail (.overflow .arithmetic) else exec i

/-- The run does what a computation on integers says: every instruction is defined, the outcomes
stand for each other, and if there is a result, no instruction has lost anything. -/
structure Computes (view : α → β) (r : WordRun α) (x : Except EvalProblem β) : Prop where
  defined : ∀ i ∈ r.trace, i.Defined
  outcome : r.outcome.map view = x
  exact : ∀ a, r.outcome = .ok a → ∀ i ∈ r.trace, i.Exact

section

variable {view : α → β} {view' : γ → δ}

theorem Computes.pure (a : α) : (Pure.pure a : WordRun α).Computes view (.ok (view a)) :=
  ⟨nofun, rfl, fun _ _ => nofun⟩

theorem Computes.fail (e : EvalProblem) : (fail e : WordRun α).Computes view (.error e) :=
  ⟨nofun, rfl, nofun⟩

theorem Computes.done (x : Except EvalProblem α) : (done x).Computes id x :=
  ⟨nofun, by cases x <;> rfl, fun _ _ => nofun⟩

theorem Computes.exec (i : Instr) (hd : i.Defined) (he : i.Exact) :
    (exec i).Computes BitVec.toInt (.ok i.meaning) := by
  refine ⟨?_, ?_, fun a ha => ?_⟩
  · simpa [WordRun.exec] using hd
  · rw [← he]
    rfl
  · simpa [WordRun.exec] using he

/-- **One run after the other**: if the first stands for a computation that has a result, and the
second for what is computed from that. -/
theorem Computes.bind {r : WordRun α} {x : Except EvalProblem β} {f : α → WordRun γ}
    {y : Except EvalProblem δ} (hr : r.Computes view x) (herr : ∀ e, x = .error e → y = .error e)
    (hok : ∀ a, x = .ok (view a) → (f a).Computes view' y) : (r >>= f).Computes view' y := by
  obtain ⟨hdef, hout, hexact⟩ := hr
  rw [bind_eq]
  split
  · rename_i e he
    rw [he] at hout
    exact ⟨hdef, (herr e hout.symm).symm, fun a ha => (by cases ha)⟩
  · rename_i a ha
    rw [ha] at hout
    obtain ⟨hdef', hout', hexact'⟩ := hok a hout.symm
    refine ⟨fun i hi => ?_, hout', fun c hc i hi => ?_⟩
    · rcases List.mem_append.1 hi with hi | hi
      · exact hdef i hi
      · exact hdef' i hi
    · rcases List.mem_append.1 hi with hi | hi
      · exact hexact a ha i hi
      · exact hexact' c hc i hi

/-- One instruction and what follows: it may lose something where there is no result in the end. -/
theorem Computes.exec_bind {i : Instr} {f : Word → WordRun γ} {y : Except EvalProblem δ}
    (hd : i.Defined) (he : ∀ c, y = .ok c → i.Exact) (hf : (f i.result).Computes view' y) :
    (WordRun.exec i >>= f).Computes view' y := by
  obtain ⟨hdef, hout, hexact⟩ := hf
  rw [bind_eq]
  refine ⟨fun j hj => ?_, hout, fun c hc j hj => ?_⟩
  · rcases List.mem_cons.1 hj with rfl | hj
    · exact hd
    · exact hdef j hj
  · rcases List.mem_cons.1 hj with rfl | hj
    · exact he (view' c) (by rw [← hout]; exact congrArg _ hc)
    · exact hexact c hc j hj

end

end WordRun

end EnumCodec
