import NoiseShader.ObjectText.Token

set_option autoImplicit false

/-! # Values of the object text -/

namespace NoiseShader.ObjectText

inductive Value
  | bool (b : Bool)
  | number (spelling : List Char)
  | text (content : String)
  /-- A literal that no record here has a use for. -/
  | foreign
  /-- Parentheses with nothing at all between them. -/
  | unit
  | none
  | some (content : Value)
  | list (items : List Value)
  /-- A map, as the list of its keys and values. -/
  | map (items : List Value)
  /-- A name that stands alone. -/
  | bare (name : String)
  | tuple (name : Option String) (items : List Value)
  | record (name : Option String) (fields : List (String × Value))
deriving Repr

namespace Value

mutual

/-- How many levels of nesting it takes to read a value. A container is one level and each of
its items another; an option is one. -/
def height : Value → Nat
  | bool _ => 0
  | number _ => 0
  | text _ => 0
  | foreign => 0
  | unit => 0
  | none => 0
  | some content => height content + 1
  | list items => heights items + 1
  | map items => heights items + 1
  | bare _ => 0
  | tuple _ items => heights items + 1
  | record _ fields => fieldHeights fields + 1

def heights : List Value → Nat
  | [] => 0
  | v :: vs => max (height v + 1) (heights vs)

def fieldHeights : List (String × Value) → Nat
  | [] => 0
  | (_, v) :: fields => max (height v + 1) (fieldHeights fields)

end

end Value

/-- Options that a text may begin with. -/
structure Extensions where
  /-- A bare value may stand for an option that holds it. -/
  implicitSome : Bool := false
  /-- The content of a variant or an option is written without parentheses of its own. -/
  unwrapVariants : Bool := false
  /-- Records have to be named. -/
  explicitNames : Bool := false
deriving DecidableEq, Repr

end NoiseShader.ObjectText
