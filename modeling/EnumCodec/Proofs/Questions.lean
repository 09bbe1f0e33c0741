import EnumCodec.Constant.Resolution
import EnumCodec.Proofs.Agreement
import EnumCodec.Proofs.References
import Mathlib

/-!
# What evaluation asks its scope

A `Scope` answers two kinds of questions: for the value of a constant, and for the meaning of a type.
An `Inquiry` is a computation that sees a scope through such questions only.

* `Inquiry.run_congr` — where two scopes answer alike what a run asks the first one, they are asked
  the same and give the same outcome.
* `Expr.inquiry` — evaluation as an inquiry; `Scope.run_inquiry` — its run is what `Scope.eval` gives.
* `Expr.asked_sublist_references` — whatever the scope, it is asked about names that the expression
  mentions, in the order of the text and once for each mention at most.
* `Scope.eval_asks_references` — so an expression has the same outcome in scopes that answer alike
  about these names, and the graph of a package has an edge to every constant that is ever asked for.
-/

set_option autoImplicit false

namespace EnumCodec

/-! ## Questions -/

/-- What a scope can be asked. -/
inductive Question
  /-- The value of a constant. -/
  | constant (name : String)
  /-- The meaning of a type. -/
  | type (name : String)
deriving DecidableEq, Repr

namespace Question

/-- The name that a question is about. -/
def name : Question → String
  | constant name | type name => name

/-- What answers a question. -/
abbrev Answer : Question → Type
  | constant _ => Option Value
  | type _ => TypeMeaning

end Question

/-- The answer of a scope to a question. -/
def Scope.answer (scope : Scope) : (q : Question) → q.Answer
  | .constant name => scope.constant? name
  | .type name => scope.typeMeaning name

theorem Scope.answer_congr {s t : Scope} {q : Question}
    (hc : s.constant? q.name = t.constant? q.name)
    (ht : s.typeMeaning q.name = t.typeMeaning q.name) : s.answer q = t.answer q := by
  cases q with
  | constant name => exact hc
  | type name => exact ht

/-! ## Inquiries -/

/-- A computation that asks questions one after the other, each chosen by the answers before it, and
ends with an outcome. -/
inductive Inquiry (α : Type)
  | settled (outcome : Except EvalProblem α)
  | ask (question : Question) (next : question.Answer → Inquiry α)

namespace Inquiry

variable {α β : Type}

/-- One computation after the other; it ends where the first one has no result. -/
protected def bind : Inquiry α → (α → Inquiry β) → Inquiry β
  | settled (.error e), _ => settled (.error e)
  | settled (.ok a), f => f a
  | ask q next, f => ask q fun answer => (next answer).bind f

instance : Monad Inquiry where
  pure a := settled (.ok a)
  bind := Inquiry.bind

/-- The outcome if a scope answers. -/
def run (scope : Scope) : Inquiry α → Except EvalProblem α
  | settled outcome => outcome
  | ask q next => (next (scope.answer q)).run scope

/-- What a scope is asked, the first question first. -/
def asked (scope : Scope) : Inquiry α → List Question
  | settled _ => []
  | ask q next => q :: (next (scope.answer q)).asked scope

theorem run_bind (scope : Scope) (x : Inquiry α) (f : α → Inquiry β) :
    (x >>= f).run scope =
      match x.run scope with
      | .error e => .error e
      | .ok a => (f a).run scope := by
  induction x with
  | settled outcome => cases outcome <;> rfl
  | ask q next ih => exact ih (scope.answer q)

theorem asked_bind (scope : Scope) (x : Inquiry α) (f : α → Inquiry β) :
    (x >>= f).asked scope = x.asked scope ++
      match x.run scope with
      | .error _ => []
      | .ok a => (f a).asked scope := by
  induction x with
  | settled outcome => cases outcome <;> rfl
  | ask q next ih => exact congrArg (q :: ·) (ih (scope.answer q))

/-- **Two scopes that answer alike what the first one is asked lead to the same run.** -/
theorem run_congr {s t : Scope} {x : Inquiry α} (h : ∀ q ∈ x.asked s, s.answer q = t.answer q) :
    x.run t = x.run s ∧ x.asked t = x.asked s := by
  induction x with
  | settled outcome => exact ⟨rfl, rfl⟩
  | ask q next ih =>
    have hq : s.answer q = t.answer q := h q List.mem_cons_self
    obtain ⟨hrun, hasked⟩ := ih (s.answer q) fun p hp => h p (List.mem_cons_of_mem q hp)
    simp only [run, asked, ← hq]
    exact ⟨hrun, by rw [hasked]⟩

/-- The names that the scope is asked about stand in the list, in its order. -/
def AsksWithin (x : Inquiry α) (names : List String) : Prop :=
  ∀ scope, ((x.asked scope).map Question.name).Sublist names

theorem AsksWithin.settled (outcome : Except EvalProblem α) (names : List String) :
    (settled outcome).AsksWithin names :=
  fun _ => List.nil_sublist names

theorem AsksWithin.ask {q : Question} {next : q.Answer → Inquiry α} {names : List String}
    (h : ∀ answer, (next answer).AsksWithin names) : (ask q next).AsksWithin (q.name :: names) := by
  intro scope
  exact (h (scope.answer q) scope).cons_cons q.name

/-- One computation after the other asks first within what is the first one's, then within the rest. -/
theorem AsksWithin.bind {x : Inquiry α} {f : α → Inquiry β} {names more : List String}
    (hx : x.AsksWithin names) (hf : ∀ a, (f a).AsksWithin more) :
    (x >>= f).AsksWithin (names ++ more) := by
  intro scope
  rw [asked_bind, List.map_append]
  apply (hx scope).append
  split
  · exact List.nil_sublist more
  · exact hf _ scope

theorem AsksWithin.bind_settled {x : Inquiry α} {names : List String} (hx : x.AsksWithin names)
    (f : α → Except EvalProblem β) :
    (x >>= fun a => Inquiry.settled (f a)).AsksWithin names := by
  have hthen := hx.bind fun a => AsksWithin.settled (f a) []
  rw [List.append_nil] at hthen
  exact hthen

end Inquiry

/-! ## Evaluation -/

open Inquiry

/-- Asks for the constant of a name that is not selected from another one. -/
def nameInquiry (iota : Nat) (name : String) : Inquiry Value :=
  .ask (.constant name) fun answer =>
    .settled (Scope.nameValue ⟨fun _ => answer, fun _ => .undeclared⟩ iota name)

/-- Asks for the type of a conversion, if what is called can be one. -/
def kindInquiry (callee : Expr) (args : List Expr) : Inquiry IntKind :=
  match calledName? callee, args with
  | some target, [_] =>
    .ask (.type target) fun answer =>
      .settled (Scope.conversionKind ⟨fun _ => none, fun _ => answer⟩ callee args)
  | _, _ => .settled (.error (.unsupported (.call (.call callee args))))

namespace Expr

mutual

/-- The evaluation of an expression on a line of a group of constants. -/
def inquiry (iota : Nat) : Expr → Inquiry Value
  | .integer text => settled (literalValue text)
  | .rune code => pure ⟨code, none⟩
  | .float text => settled (.error (.unsupported (.floatLiteral text)))
  | .imaginary text => settled (.error (.unsupported (.imaginaryLiteral text)))
  | .string body => settled (.error (.unsupported (.stringLiteral (.string body))))
  | .name ident => nameInquiry iota ident.name
  | .selector base field =>
    settled (.error (.unsupported (.foreignReference (.selector base field))))
  | .paren inner => inner.inquiry iota
  | .unary op operand => do
    let v ← operand.inquiry iota
    settled (unaryValue op v (.unary op operand))
  | .binary op left right =>
    if op.isBoolean then settled (.error (.unsupported (.booleanExpression (.binary op left right))))
    else do
      let l ← left.inquiry iota
      let r ← right.inquiry iota
      settled (binaryValue op l r (.binary op left right))
  | .call callee args => do
    let kind ← kindInquiry callee args
    let v ← inquiryFirst iota args (.unsupported (.call (.call callee args)))
    settled (convert v.value kind)
  | .opaqueForm c => settled (.error (.unsupported (.construct c)))

/-- The evaluation of the first expression of a list. -/
def inquiryFirst (iota : Nat) : List Expr → EvalProblem → Inquiry Value
  | [], problem => settled (.error problem)
  | e :: _, _ => e.inquiry iota

end

end Expr

theorem Scope.run_kindInquiry (scope : Scope) (callee : Expr) (args : List Expr) :
    (kindInquiry callee args).run scope = scope.conversionKind callee args := by
  unfold kindInquiry
  split
  · rename_i target arg hcalled
    simp only [run, Scope.answer, Scope.conversionKind, hcalled]
  · rename_i hother
    unfold Scope.conversionKind
    split
    · rename_i target arg hcalled
      exact absurd rfl (hother target arg hcalled)
    · rfl

/-- **Evaluation sees a scope through its answers only.** -/
theorem Scope.run_inquiry (scope : Scope) (iota : Nat) (e : Expr) :
    (e.inquiry iota).run scope = scope.eval iota e := by
  induction e using Expr.induct with
  | integer | float | imaginary | rune | string | opaqueForm => rfl
  | selector => rfl
  | name ident => exact Scope.nameValue_congr rfl
  | paren inner ih => exact ih
  | unary op operand ih =>
    rw [Expr.inquiry, run_bind, ih, Scope.eval]
    cases scope.eval iota operand <;> rfl
  | binary op left right ihl ihr =>
    rw [Expr.inquiry, Scope.eval]
    split
    · rfl
    · rw [run_bind, ihl]
      cases scope.eval iota left with
      | error e => rfl
      | ok l =>
        simp only
        rw [run_bind, ihr]
        cases scope.eval iota right <;> rfl
  | call callee args _ ih =>
    rw [Expr.inquiry, run_bind, Scope.run_kindInquiry, Scope.eval]
    cases scope.conversionKind callee args with
    | error e => rfl
    | ok kind =>
      simp only
      rw [run_bind]
      cases args with
      | nil => rfl
      | cons a args =>
        rw [Expr.inquiryFirst, ih a List.mem_cons_self, Scope.evalFirst]
        cases scope.eval iota a <;> rfl

/-! ## Questions and references -/

/-- What is called is the one name that the callee mentions. -/
theorem references_of_calledName? {callee : Expr} {target : String}
    (h : calledName? callee = some target) : callee.references = [target] := by
  induction callee using Expr.induct with
  | name ident =>
    cases h
    rfl
  | paren inner ih => exact ih h
  | integer | float | imaginary | rune | string | opaqueForm => cases h
  | selector | unary | binary | call => cases h

theorem asksWithin_kindInquiry (callee : Expr) (args : List Expr) :
    (kindInquiry callee args).AsksWithin callee.references := by
  unfold kindInquiry
  split
  · rename_i target arg hcalled
    rw [references_of_calledName? hcalled]
    exact .ask fun answer => .settled _ []
  · exact .settled _ _

/-- **Evaluation asks only about names that the expression mentions**, each mention once at most. -/
theorem Expr.asked_sublist_references (iota : Nat) (e : Expr) :
    (e.inquiry iota).AsksWithin e.references := by
  induction e using Expr.induct with
  | integer | float | imaginary | rune | string | opaqueForm => exact .settled _ _
  | selector => exact .settled _ _
  | name ident => exact .ask fun answer => .settled _ []
  | paren inner ih => exact ih
  | unary op operand ih =>
    rw [Expr.inquiry, Expr.references]
    exact ih.bind_settled fun v => unaryValue op v (.unary op operand)
  | binary op left right ihl ihr =>
    rw [Expr.inquiry, Expr.references]
    split
    · exact .settled _ _
    · apply ihl.bind
      intro l
      exact ihr.bind_settled fun r => binaryValue op l r (.binary op left right)
  | call callee args _ ih =>
    rw [Expr.inquiry, Expr.references]
    apply (asksWithin_kindInquiry callee args).bind
    intro kind
    -- only the first argument is evaluated, but all of them are mentioned
    cases args with
    | nil => exact fun scope => List.nil_sublist _
    | cons a args =>
      rw [Expr.inquiryFirst, Expr.referencesAll]
      apply (ih a List.mem_cons_self).bind
      exact fun v => .settled _ _

open RefGraph in
/-- **Evaluation sees nothing of a scope but what it answers about the names that an expression
mentions.**  Where two scopes agree on these, the expression has the same value and kind in both, or
the same failure, whatever constant it belongs to.  Evaluation is the run of an inquiry, which asks
any scope about names among the references only; so a constant of a package that is asked for when
another one is evaluated is one that this needs in the graph. -/
theorem Scope.eval_asks_references (e : Expr) (iota : Nat) :
    (∀ (constant : String) (s t : Scope),
      (∀ name ∈ e.references, s.constant? name = t.constant? name) →
      (∀ name ∈ e.references, s.typeMeaning name = t.typeMeaning name) →
      s.eval iota e = t.eval iota e ∧
      (s.eval iota e).mapError (Failure.ofEval constant) =
        (t.eval iota e).mapError (Failure.ofEval constant)) ∧
    (∀ s : Scope, (e.inquiry iota).run s = s.eval iota e ∧
      (((e.inquiry iota).asked s).map Question.name).Sublist e.references) ∧
    ∀ (entries : List ConstEntry) (i d : Fin entries.length) (s : Scope), DistinctNames entries →
      (entries.get i).expr = e →
      .constant (entries.get d).name ∈ (e.inquiry iota).asked s → (ofEntries entries).Needs i d := by
  have hwithin := e.asked_sublist_references iota
  refine ⟨?_, fun s => ⟨s.run_inquiry iota e, hwithin s⟩, ?_⟩
  · intro constant s t hconstant htype
    have hanswer : ∀ q ∈ (e.inquiry iota).asked s, s.answer q = t.answer q := by
      intro q hq
      have hname : q.name ∈ e.references := (hwithin s).subset (List.mem_map_of_mem hq)
      exact Scope.answer_congr (hconstant q.name hname) (htype q.name hname)
    have heval : s.eval iota e = t.eval iota e := by
      rw [← s.run_inquiry, ← t.run_inquiry, (run_congr hanswer).1]
    exact ⟨heval, by rw [heval]⟩
  · intro entries i d s hd he hasked
    have hname : (entries.get d).name ∈ e.references :=
      (hwithin s).subset (List.mem_map_of_mem hasked)
    apply (needs_ofEntries_iff hd).2
    rw [Mentions, he]
    exact hname

/-- `uint8(First) << iota`. -/
def shiftedFirst : Expr :=
  let mention (name : String) : Expr := .name ⟨name, ⟨1, 1⟩⟩
  .binary .shiftLeft (.call (mention "uint8") [mention "First"]) (mention "iota")

/-- `Dose = uint8(First) << iota` and `First = 3`. -/
def doseEntries : List ConstEntry :=
  [⟨"Dose", "dose.go", ⟨2, 7⟩, none, shiftedFirst, 2, 0⟩,
   ⟨"First", "dose.go", ⟨3, 7⟩, none, .integer "3", 0, 1⟩]

/-- What `Dose` sees of `First`. -/
def firstScope : Scope where
  constant? name := [("First", ⟨3, none⟩)].lookup name
  typeMeaning := .predeclared

/-- A constant and a type more. -/
def spareScope : Scope where
  constant? name := [("Spare", ⟨9, some .int8⟩), ("First", ⟨3, none⟩)].lookup name
  typeMeaning name := if name = "Spare" then .other "string" else .predeclared name

open RefGraph in
theorem Scope.eval_asks_references_shiftedFirst :
    (∀ name ∈ shiftedFirst.references, firstScope.constant? name = spareScope.constant? name) ∧
    (∀ name ∈ shiftedFirst.references,
      firstScope.typeMeaning name = spareScope.typeMeaning name) ∧
    firstScope.eval 2 shiftedFirst = .ok ⟨12, some .uint8⟩ ∧
    spareScope.eval 2 shiftedFirst = .ok ⟨12, some .uint8⟩ ∧
    (shiftedFirst.inquiry 2).run firstScope = .ok ⟨12, some .uint8⟩ ∧
    (shiftedFirst.inquiry 2).asked firstScope =
      [.type "uint8", .constant "First", .constant "iota"] ∧
    DistinctNames doseEntries ∧
    (ofEntries doseEntries).Needs ⟨0, by decide⟩ ⟨1, by decide⟩ := by
  obtain ⟨hsame, hasks, hgraph⟩ := Scope.eval_asks_references shiftedFirst 2
  have hconstant : ∀ name ∈ shiftedFirst.references,
      firstScope.constant? name = spareScope.constant? name := by decide
  have htype : ∀ name ∈ shiftedFirst.references,
      firstScope.typeMeaning name = spareScope.typeMeaning name := by decide
  have hvalue : firstScope.eval 2 shiftedFirst = .ok ⟨12, some .uint8⟩ := by cbv
  have hasked : (shiftedFirst.inquiry 2).asked firstScope =
      [.type "uint8", .constant "First", .constant "iota"] := by cbv
  have hd : DistinctNames doseEntries := by decide
  refine ⟨hconstant, htype, hvalue, ?_, ?_, hasked, hd, ?_⟩
  · rw [← (hsame "Dose" firstScope spareScope hconstant htype).1, hvalue]
  · rw [(hasks firstScope).1, hvalue]
  · apply hgraph doseEntries _ _ firstScope hd rfl
    rw [hasked]
    decide

end EnumCodec
