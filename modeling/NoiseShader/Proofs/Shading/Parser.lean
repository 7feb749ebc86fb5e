import NoiseShader.Proofs.Shading.Token

set_option autoImplicit false

/-! # Reading expressions

Tokens are read from left to right with a stack of what is still open. Calls and component
accesses bind most tightly, then the unary minus, then products and quotients, then sums and
differences, all of them to the left.
-/

namespace NoiseShader.Shading

inductive Term
  | literal (text : String)
  | reference (name : String)
  | negate (operand : Term)
  | binary (operator : Operator) (left right : Term)
  | call (function : String) (arguments : List Term)
  | member (object : Term) (axis : Axis)
deriving Repr

/-- What is open: something that waits for the operand to its right, or for a parenthesis to be
closed. -/
inductive Frame
  | negation
  | leftOf (operator : Operator) (left : Term)
  | group
  | arguments (function : String) (done : List Term)

/-- What the next token follows. -/
inductive Place
  /-- An operand has to follow. -/
  | due
  | behind (operand : Term)
  | point (object : Term)
  | finished (t : Term)

structure Reading where
  stack : List Frame
  place : Place

namespace Reading

/-- Takes in the operand whatever on the stack binds it at least as tightly as needed. -/
def settle (needed : Nat) : List Frame → Term → List Frame × Term
  | .negation :: stack, t => settle needed stack (.negate t)
  | .leftOf operator left :: stack, t =>
    if needed ≤ operator.strength then settle needed stack (.binary operator left t)
    else (.leftOf operator left :: stack, t)
  | stack, t => (stack, t)

/-- A mark where an operand is due. -/
def stepDue (stack : List Frame) : List Char → Option Reading
  | ['-'] => some ⟨.negation :: stack, .due⟩
  | ['('] => some ⟨.group :: stack, .due⟩
  | [')'] =>
    match stack with
    | .arguments function [] :: stack => some ⟨stack, .behind (.call function [])⟩
    | _ => none
  | _ => none

def operate (operator : Operator) (stack : List Frame) (t : Term) : Reading :=
  let (stack, left) := settle operator.strength stack t
  ⟨.leftOf operator left :: stack, .due⟩

/-- A mark behind an operand. -/
def stepBehind (stack : List Frame) (t : Term) : List Char → Option Reading
  | ['+'] => some (operate .add stack t)
  | ['-'] => some (operate .subtract stack t)
  | ['*'] => some (operate .multiply stack t)
  | ['/'] => some (operate .divide stack t)
  | ['.'] => some ⟨stack, .point t⟩
  | ['('] =>
    match t with
    | .reference function => some ⟨.arguments function [] :: stack, .due⟩
    | _ => none
  | [','] =>
    match settle 0 stack t with
    | (.arguments function done :: stack, t) =>
      some ⟨.arguments function (done ++ [t]) :: stack, .due⟩
    | _ => none
  | [')'] =>
    match settle 0 stack t with
    | (.group :: stack, t) => some ⟨stack, .behind t⟩
    | (.arguments function done :: stack, t) =>
      some ⟨stack, .behind (.call function (done ++ [t]))⟩
    | _ => none
  | [';'] =>
    match settle 0 stack t with
    | ([], t) => some ⟨[], .finished t⟩
    | _ => none
  | _ => none

def axis? (field : List Char) : Option Axis :=
  Axis.all.find? fun axis => axis.component.toList == field

def step (r : Reading) : Token → Option Reading
  | .number text =>
    match r.place with
    | .due =>
      if Token.isLiteral text then some ⟨r.stack, .behind (.literal (String.ofList text))⟩
      else none
    | _ => none
  | .word text =>
    match r.place with
    | .due => some ⟨r.stack, .behind (.reference (String.ofList text))⟩
    | .point object =>
      (axis? text).map fun axis => ⟨r.stack, .behind (.member object axis)⟩
    | _ => none
  | .mark text =>
    match r.place with
    | .due => stepDue r.stack text
    | .behind t => stepBehind r.stack t text
    | _ => none

def run (r : Reading) (ts : List Token) : Option Reading := ts.foldlM step r

/-- The expression that was read, once its semicolon has been. -/
def result? (r : Reading) : Option Term :=
  match r.place with
  | .finished t => some t
  | _ => none

end Reading

/-- An expression and the semicolon behind it. -/
def parse (ts : List Token) : Option Term := (Reading.run ⟨[], .due⟩ ts).bind Reading.result?

/-- The declaration of a number: its name and its value. -/
def parseDeclaration : List Token → Option (String × Term)
  | .word keyword :: .word name :: .mark mark :: ts =>
    if keyword = "float".toList ∧ mark = "=".toList then
      (parse ts).map fun value => (String.ofList name, value)
    else none
  | _ => none

-- products before sums, to the left, and the minus before both
example : (tokens "a - b - -c.x * f(d, 1.0);").bind parse =
    some (.binary .subtract (.binary .subtract (.reference "a") (.reference "b"))
      (.binary .multiply (.negate (.member (.reference "c") .x))
        (.call "f" [.reference "d", .literal "1.0"]))) := by
  rfl

namespace Reading

theorem run_cons (r : Reading) (t : Token) (ts : List Token) :
    r.run (t :: ts) = (r.step t).bind (·.run ts) := rfl

theorem run_append (r : Reading) (ts us : List Token) :
    r.run (ts ++ us) = (r.run ts).bind (·.run us) := by
  rw [run, List.foldlM_append]
  rfl

/-! ## What the stack takes in -/

/-- An operand of the given strength is not torn apart by what is on top of the stack. -/
def Admits : List Frame → Nat → Prop
  | .negation :: _, strength => 3 ≤ strength
  | .leftOf operator _ :: _, strength => operator.strength < strength
  | _, _ => True

theorem Admits.mono {stack : List Frame} {m n : Nat} (h : Admits stack m) (hmn : m ≤ n) :
    Admits stack n := by
  match stack, h with
  | [], _ => trivial
  | .negation :: _, h =>
      have hm : 3 ≤ m := h
      show 3 ≤ n
      omega
  | .leftOf operator _ :: _, h =>
      have hm : operator.strength < m := h
      show operator.strength < n
      omega
  | .group :: _, _ => trivial
  | .arguments _ _ :: _, _ => trivial

/-- The operator after an operand leaves alone what does not bind the operand more tightly. -/
theorem settle_of_admits {stack : List Frame} {operator : Operator}
    (h : Admits stack operator.strength) (t : Term) :
    settle operator.strength stack t = (stack, t) := by
  match stack, h with
  | [], _ => rfl
  | .negation :: _, h =>
      have hm : 3 ≤ operator.strength := h
      cases operator <;> simp [Operator.strength] at hm
  | .leftOf other _ :: _, h =>
      have hlt : other.strength < operator.strength := h
      rw [settle, if_neg (by omega)]
  | .group :: _, _ => rfl
  | .arguments _ _ :: _, _ => rfl

end Reading

end NoiseShader.Shading
