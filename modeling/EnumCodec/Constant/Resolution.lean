import EnumCodec.Constant.Evaluation
import EnumCodec.Constant.Order
import EnumCodec.Constant.ValueTable
import EnumCodec.Failure

/-!
# The values of a type

`resolveValues` evaluates the constants that are declared with a type, and all that they need, and
collects them in a value table.  A constant belongs to the type if the type is written on its line,
or on the line that its own line repeats; an untyped constant never does.

In the generator this is `resolve_values`, `scopeOf` is its `PassScope`, and `kindOfType` is what it
asks the types first.
-/

set_option autoImplicit false

namespace EnumCodec

/-- The kind of the type that a constant is declared with, if that is a type of this package or a
predeclared one with integer values. -/
def ConstEntry.kind? (meaning : String → TypeMeaning) (e : ConstEntry) : Option IntKind :=
  match e.type.bind TypeName.own? with
  | none => none
  | some name =>
    match meaning name with
    | .integer kind => some kind
    | _ => none

/-- What an expression can refer to when some constants have their values. -/
def scopeOf (entries : List ConstEntry) (meaning : String → TypeMeaning)
    (known : List (Fin entries.length × Value)) : Scope :=
  ⟨fun name => (findConstant? entries name).bind fun i => known.lookup i, meaning⟩

/-- The value of a constant in a scope: that of its expression, converted if the constant is declared
with a type that has integer values. -/
def ConstEntry.valueIn (scope : Scope) (e : ConstEntry) : Except EvalProblem Value :=
  match scope.eval e.iota e.expr with
  | .error problem => .error problem
  | .ok v =>
    match e.kind? scope.typeMeaning with
    | some kind => convert v.value kind
    | none => .ok v

/-- Adds the values of constants, each of which may refer to those before it. -/
def evaluateAll (entries : List ConstEntry) (meaning : String → TypeMeaning) :
    List (Fin entries.length) → List (Fin entries.length × Value) →
      Except Failure (List (Fin entries.length × Value))
  | [], known => .ok known
  | i :: rest, known =>
    match (entries.get i).valueIn (scopeOf entries meaning known) with
    | .error problem => .error (.ofEval (entries.get i).name problem)
    | .ok v => evaluateAll entries meaning rest ((i, v) :: known)

/-- The constants that are declared with a type. -/
def membersOf (entries : List ConstEntry) (typeName : String) : List (Fin entries.length) :=
  (List.finRange entries.length).filter fun i =>
    (entries.get i).type.bind TypeName.own? == some typeName

theorem mem_membersOf {entries : List ConstEntry} {typeName : String} {m : Fin entries.length} :
    m ∈ membersOf entries typeName ↔ (entries.get m).type = some (.own typeName) := by
  rw [membersOf, List.mem_filter]
  cases (entries.get m).type with
  | none => simp
  | some t => cases t <;> simp [TypeName.own?]

/-- The constants to evaluate for some members, in the given order: the members and all that they
need. -/
def evaluationPlan {n : Nat} (graph : RefGraph n) (members order : List (Fin n)) : List (Fin n) :=
  let needed := graph.reach [] members
  order.filter fun i => needed.contains i

/-- The constants that are declared with a type, with the values that are known. -/
def resolvedMembers (entries : List ConstEntry) (typeName : String)
    (known : List (Fin entries.length × Value)) : List ResolvedConstant :=
  (membersOf entries typeName).map fun i =>
    let value := ((known.lookup i).map (·.value)).getD 0
    ⟨(entries.get i).name, value, (entries.get i).index⟩

/-- The kind of a type that is to have integer values. -/
def kindOfType (meaning : String → TypeMeaning) (typeName : String) : Except Failure IntKind :=
  match meaning typeName with
  | .integer kind => .ok kind
  | .other description => .error (.nonIntegerType typeName description)
  | .undeclared => .error (.typeNotFound typeName)

/-- The value table of a type (`resolve_values`). -/
def resolveValues (entries : List ConstEntry) (meaning : String → TypeMeaning) (typeName : String)
    (policy : AliasPolicy) : Except Failure ValueTable :=
  let graph := RefGraph.ofEntries entries
  match graph.evaluationOrder with
  | .error i => .error (.cycle (entries.get i).name)
  | .ok order =>
    match kindOfType meaning typeName with
    | .error e => .error e
    | .ok kind =>
      let members := membersOf entries typeName
      if members.isEmpty then .error (.typeNotFound typeName)
      else
        match evaluateAll entries meaning (evaluationPlan graph members order) [] with
        | .error e => .error e
        | .ok known =>
          .ok (ValueTable.build typeName kind (resolvedMembers entries typeName known) policy)

end EnumCodec
