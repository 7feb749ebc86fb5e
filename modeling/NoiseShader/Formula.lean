import NoiseShader.Text.Blank

set_option autoImplicit false

/-! # Formulas with two placeholders

A formula is text in which `$1` and `$2` stand for two operands. It is cut into pieces once,
from left to right, so text put in for a placeholder is never looked at again; any other
dollar sign is text.
-/

namespace NoiseShader.Formula

inductive Piece
  | char (c : Char)
  | first
  | second
deriving DecidableEq, Repr

def pieces : List Char → List Piece
  | [] => []
  | '$' :: '1' :: rest => .first :: pieces rest
  | '$' :: '2' :: rest => .second :: pieces rest
  | c :: rest => .char c :: pieces rest

def Piece.fill (first second : List Char) : Piece → List Char
  | char c => [c]
  | .first => first
  | .second => second

structure Expansion where
  text : String
  usesFirst : Bool
  usesSecond : Bool
deriving DecidableEq, Repr

/-- Whether the formula has no placeholder at all. -/
def Expansion.isConstant (e : Expansion) : Bool := !e.usesFirst && !e.usesSecond

/-- The formula with its placeholders filled in. -/
def expand (formula first second : String) : Expansion :=
  let ps := pieces formula.toList
  { text := String.ofList (ps.flatMap (Piece.fill first.toList second.toList))
    usesFirst := ps.contains .first
    usesSecond := ps.contains .second }

/-- The formula on one line: its lines without the blanks at their ends, the empty ones left
out, with one space between two. -/
def flatten (formula : String) : String :=
  let parts := (Text.splitLines formula.toList).map Text.trim
  String.ofList (List.intercalate [' '] (parts.filter fun part => !part.isEmpty))

end NoiseShader.Formula
