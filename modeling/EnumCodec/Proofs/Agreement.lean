import EnumCodec.Constant.Evaluation

/-!
# Evaluation sees only what an expression mentions

* `Expr.induct` — induction over expressions, with one case for a call and all its arguments.
* `Scope.eval_congr` — two scopes that agree on the names an expression mentions, and on the meaning
  of types, give it the same outcome.
-/

set_option autoImplicit false

namespace EnumCodec

/-- Induction over expressions. -/
@[elab_as_elim]
theorem Expr.induct {P : Expr → Prop} (e : Expr)
    (integer : ∀ text, P (.integer text))
    (float : ∀ text, P (.float text))
    (imaginary : ∀ text, P (.imaginary text))
    (rune : ∀ code, P (.rune code))
    (string : ∀ body, P (.string body))
    (name : ∀ ident, P (.name ident))
    (selector : ∀ base field, P base → P (.selector base field))
    (paren : ∀ inner, P inner → P (.paren inner))
    (unary : ∀ op operand, P operand → P (.unary op operand))
    (binary : ∀ op left right, P left → P right → P (.binary op left right))
    (call : ∀ callee args, P callee → (∀ a ∈ args, P a) → P (.call callee args))
    (opaqueForm : ∀ construct, P (.opaqueForm construct)) : P e :=
  @Expr.rec P (fun args => ∀ a ∈ args, P a) integer float imaginary rune string name selector paren
    unary binary call opaqueForm (fun _ ha => by cases ha)
    (fun _ _ h hs a ha => (List.mem_cons.1 ha).elim (fun e => e ▸ h) (hs a)) e

namespace Scope

theorem nameValue_congr {s t : Scope} {iota : Nat} {name : String}
    (h : s.constant? name = t.constant? name) : s.nameValue iota name = t.nameValue iota name := by
  unfold nameValue
  rw [h]

theorem conversionKind_congr {s t : Scope} (h : s.typeMeaning = t.typeMeaning) (callee : Expr)
    (args : List Expr) : s.conversionKind callee args = t.conversionKind callee args := by
  unfold conversionKind
  rw [h]

/-- **Scopes that agree on what an expression mentions give it the same outcome.** -/
theorem eval_congr {s t : Scope} (ht : s.typeMeaning = t.typeMeaning) (iota : Nat) (e : Expr)
    (h : ∀ name ∈ e.references, s.constant? name = t.constant? name) :
    s.eval iota e = t.eval iota e := by
  induction e using Expr.induct with
  | integer | float | imaginary | rune | string | opaqueForm => rfl
  | selector => rfl
  | name ident => exact nameValue_congr (h ident.name (by simp [Expr.references]))
  | paren inner ih => exact ih h
  | unary op operand ih =>
    rw [eval, eval, ih h]
  | binary op left right ihl ihr =>
    have hl := ihl fun name hn => h name (List.mem_append_left _ hn)
    have hr := ihr fun name hn => h name (List.mem_append_right _ hn)
    rw [eval, eval, hl, hr]
  | call callee args _ ih =>
    rw [eval, eval, conversionKind_congr ht]
    cases args with
    | nil => rfl
    | cons a args =>
      have ha := ih a List.mem_cons_self fun name hn =>
        h name (List.mem_append_right _ (List.mem_append_left _ hn))
      rw [evalFirst, evalFirst, ha]

end Scope

end EnumCodec
