import NoiseShader.Proofs.Shading.Reading
import NoiseShader.Proofs.Shading.Literal
import Mathlib.Data.List.Forall2

set_option autoImplicit false

/-! # What programs compute

An interpretation says what literals, operators and functions of the shading language are. Under
it a declaration, given as text, computes a value from the variables declared before it.
-/

namespace NoiseShader.Shading

universe u

structure Interpretation (V : Type u) where
  /-- Literals have no sign; a minus sign before them is an operator. -/
  literal : String → V
  negate : V → V
  add : V → V → V
  subtract : V → V → V
  multiply : V → V → V
  divide : V → V → V
  component : Axis → V → V
  /-- The functions by their names, vector constructors among them. -/
  call : String → List V → V

namespace Interpretation

variable {V : Type u} (I : Interpretation V)

def binary : Operator → V → V → V
  | .add => I.add
  | .subtract => I.subtract
  | .multiply => I.multiply
  | .divide => I.divide

/-- The value of a finite number: that of its literal. -/
def constant (x : Binary32) : V :=
  let magnitude := I.literal (String.ofList (literalLayout.magnitude x.code))
  if x.negative then I.negate magnitude else magnitude

/-- Terms as their own values. -/
def free : Interpretation Term where
  literal := .literal
  negate := .negate
  add := .binary .add
  subtract := .binary .subtract
  multiply := .binary .multiply
  divide := .binary .divide
  component axis t := .member t axis
  call := .call

end Interpretation

variable {V : Type u}

/-- The variables that have been declared, with their values. -/
abbrev Environment (V : Type u) := List (String × V)

mutual

/-- The value of a term, if all its variables have been declared. A variable hides the function
of its name. -/
def Term.eval (I : Interpretation V) (env : Environment V) : Term → Option V
  | .literal text => some (I.literal text)
  | .reference name => env.lookup name
  | .negate operand => (operand.eval I env).map I.negate
  | .binary operator left right =>
    match left.eval I env, right.eval I env with
    | some a, some b => some (I.binary operator a b)
    | _, _ => none
  | .call function arguments =>
    if (env.lookup function).isSome then none
    else (Term.evalAll I env arguments).map (I.call function)
  | .member object axis => (object.eval I env).map (I.component axis)

def Term.evalAll (I : Interpretation V) (env : Environment V) : List Term → Option (List V)
  | [] => some []
  | t :: ts =>
    match t.eval I env, Term.evalAll I env ts with
    | some v, some vs => some (v :: vs)
    | _, _ => none

end

/-- Executes the text of a declaration. Nothing can be declared twice. -/
def exec (I : Interpretation V) (env : Environment V) (text : String) : Option (Environment V) :=
  match readDeclaration text with
  | none => none
  | some (name, value) =>
    if (env.lookup name).isSome then none
    else (value.eval I env).map fun v => (name, v) :: env

def execAll (I : Interpretation V) (env : Environment V) (texts : List String) :
    Option (Environment V) := texts.foldlM (exec I) env

/-! ## Expressions and their values -/

/-- The literal of a number can be read, as its magnitude behind a minus sign if there is one. -/
theorem Expr.term_constant {x : Binary32} {text : String} (h : literal? x = some text) :
    (Expr.atom text).Readable ∧ (Expr.atom text).term =
      if x.negative then .negate (.literal (String.ofList (literalLayout.magnitude x.code)))
      else .literal (String.ofList (literalLayout.magnitude x.code)) := by
  obtain ⟨_, htext⟩ := literal?_eq_some h
  have hliteral := Layout.isLiteral_magnitude literalLayout x.code
  cases hnegative : x.negative with
  | false =>
      rw [hnegative] at htext
      have hplain : text.toList = literalLayout.magnitude x.code := htext
      rw [← hplain] at hliteral
      refine ⟨.inr (.inl hliteral), ?_⟩
      rw [Expr.term, atomTerm_literal hliteral, ← hplain, String.ofList_toList]
      rfl
  | true =>
      rw [hnegative] at htext
      refine ⟨.inr (.inr ⟨_, htext, hliteral⟩), ?_⟩
      rw [Expr.term, atomTerm_minus htext]
      rfl

/-- The expression can be read, and then has the value `v`. -/
structure Expr.Means (I : Interpretation V) (env : Environment V) (e : Expr) (v : V) : Prop where
  readable : e.Readable
  value : e.term.eval I env = some v

section

variable {I : Interpretation V} {env : Environment V}

theorem Expr.Means.negate {e : Expr} {v : V} (h : e.Means I env v) :
    (Expr.negate e).Means I env (I.negate v) := by
  refine ⟨h.readable, ?_⟩
  rw [Expr.term, Term.eval, h.value]
  rfl

theorem Expr.Means.binary {left right : Expr} {a b : V} (hleft : left.Means I env a)
    (hright : right.Means I env b) (operator : Operator) :
    (Expr.binary operator left right).Means I env (I.binary operator a b) := by
  refine ⟨⟨hleft.readable, hright.readable⟩, ?_⟩
  rw [Expr.term, Term.eval, hleft.value, hright.value]

theorem Expr.means_all {es : List Expr} {vs : List V}
    (h : List.Forall₂ (fun e v => e.Means I env v) es vs) :
    AllReadable es ∧ Term.evalAll I env (terms es) = some vs := by
  induction h with
  | nil => exact ⟨trivial, rfl⟩
  | cons he _ ih =>
      refine ⟨⟨he.readable, ih.1⟩, ?_⟩
      rw [terms, Term.evalAll, he.value, ih.2]

theorem Expr.means_call {function : String} (hword : Token.IsWord function.toList)
    (hfree : env.lookup function = none) {es : List Expr} {vs : List V}
    (h : List.Forall₂ (fun e v => e.Means I env v) es vs) :
    (Expr.call function es).Means I env (I.call function vs) := by
  obtain ⟨hreadable, hvalues⟩ := means_all h
  refine ⟨⟨hword, hreadable⟩, ?_⟩
  rw [Expr.term, Term.eval, hfree, hvalues]
  rfl

theorem Expr.means_component {object : String} (hword : Token.IsWord object.toList) {v : V}
    (hobject : env.lookup object = some v) (axis : Axis) :
    (Expr.component object axis).Means I env (I.component axis v) := by
  refine ⟨hword, ?_⟩
  rw [Expr.term, Term.eval, Term.eval, hobject]
  rfl

theorem Expr.means_variable {name : String} (hword : Token.IsWord name.toList) {v : V}
    (hname : env.lookup name = some v) : (Expr.atom name).Means I env v := by
  refine ⟨.inl hword, ?_⟩
  rw [Expr.term, atomTerm_word hword, Term.eval, hname]

theorem Expr.means_literal {text : String} (hliteral : Token.isLiteral text.toList = true) :
    (Expr.atom text).Means I env (I.literal text) := by
  refine ⟨.inr (.inl hliteral), ?_⟩
  rw [Expr.term, atomTerm_literal hliteral, Term.eval]

/-- The literal of a number has the value of the number. -/
theorem Expr.means_constant {x : Binary32} {text : String} (h : literal? x = some text) :
    (Expr.atom text).Means I env (I.constant x) := by
  obtain ⟨hreadable, hterm⟩ := term_constant h
  refine ⟨hreadable, ?_⟩
  rw [hterm, Interpretation.constant]
  cases x.negative <;> rfl

/-- A declaration of something new adds the value of its expression. -/
theorem exec_render {d : Declaration} {v : V} (hname : Token.IsWord d.variableName.toList)
    (hnew : env.lookup d.variableName = none) (hvalue : d.value.Means I env v) :
    exec I env d.render = some ((d.variableName, v) :: env) := by
  rw [exec, readDeclaration_render d hname hvalue.readable]
  simp [hnew, hvalue.value]

end

end NoiseShader.Shading
