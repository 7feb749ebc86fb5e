import NoiseShader.Dimension
import NoiseShader.Decimal.Layout

set_option autoImplicit false

/-! # Expressions of the shading language

The expressions that nodes compile to, and how they are written. Operands of an operator are
put in parentheses when they bind less tightly than it, and always when they begin with a
minus sign.
-/

namespace NoiseShader.Shading

inductive Operator
  | add
  | subtract
  | multiply
  | divide
deriving DecidableEq, Repr

namespace Operator

def symbol : Operator → String
  | add => "+"
  | subtract => "-"
  | multiply => "*"
  | divide => "/"

/-- Products bind more tightly than sums. -/
def strength : Operator → Nat
  | add => 1
  | subtract => 1
  | multiply => 2
  | divide => 2

end Operator

inductive Expr
  /-- A literal, a variable or a parameter, by its text. -/
  | atom (text : String)
  | negate (operand : Expr)
  | binary (operator : Operator) (left right : Expr)
  | call (function : String) (arguments : List Expr)
  | component (object : String) (axis : Axis)
deriving Repr

namespace Expr

def beginsWithMinus (text : String) : Bool := text.toList.head? == some '-'

def parenthesize (text : String) : String := "(" ++ text ++ ")"

/-- How tightly an expression holds together as an operand; zero for what always needs
parentheses. -/
def strength : Expr → Nat
  | atom text => if beginsWithMinus text then 0 else 3
  | negate _ => 0
  | binary operator _ _ => operator.strength
  | call _ _ => 3
  | component _ _ => 3

/-- The text of an operand whose place asks for the given strength. -/
def operandText (needed : Nat) (e : Expr) (text : String) : String :=
  if e.strength < needed then parenthesize text else text

mutual

def render : Expr → String
  | atom text => text
  | negate operand => "-" ++ operandText 3 operand (render operand)
  | binary operator left right =>
    operandText operator.strength left (render left) ++ " " ++ operator.symbol ++ " " ++
      operandText (operator.strength + 1) right (render right)
  | call function arguments =>
    function ++ "(" ++ String.intercalate ", " (renderAll arguments) ++ ")"
  | component object axis => object ++ "." ++ axis.component

def renderAll : List Expr → List String
  | [] => []
  | e :: es => render e :: renderAll es

end

end Expr

/-- The arguments that pass a position: its one component as it stands, or a vector. -/
def positionArguments (d : Dimension) (components : List Expr) : List Expr :=
  match d with
  | .one => components
  | _ => [.call d.typeName components]

/-- The declaration of a number. -/
structure Declaration where
  variableName : String
  value : Expr
deriving Repr

def Declaration.render (d : Declaration) : String :=
  "float " ++ d.variableName ++ " = " ++ d.value.render ++ ";"

/-- Literals have a point or an exponent, and an exponent only outside `10 ^ -4` to
`10 ^ 16`. -/
def literalLayout : Layout where
  tie := .up
  isPlain point := decide (-3 ≤ point ∧ point ≤ 16)
  plusSign := false

/-- The literal for a number; there is none for infinities and what is not a number. -/
def literal? (x : Binary32) : Option String :=
  if x.isFinite then some (literalLayout.finite x) else none

/-- A line of generated text at a depth of nesting. -/
def indented (depth : Nat) (text : String) : String :=
  String.join (List.replicate depth "    ") ++ text

/-- Each line with its line feed. -/
def joinLines (lines : List String) : String := String.join (lines.map (· ++ "\n"))

end NoiseShader.Shading
