import NoiseShader.Text.Quoted

set_option autoImplicit false

/-! # Text for a terminal

A log line can hold names and paths from outside. The characters by which such a text could ring
the bell, move the cursor or change colours are given by number; the rest is left as it is.
-/

namespace NoiseShader.Text

/-- The low controls that a terminal acts on: bell, backspace, form feed, escape and delete. -/
def isLowControl (c : Char) : Bool :=
  c == '\x07' || c == '\x08' || c == '\x0c' || c == '\x1b' || c == '\x7f'

/-- The controls that stand for an escape and a letter. -/
def isHighControl (c : Char) : Bool := 0x80 ≤ c.toNat && c.toNat ≤ 0x9F

def tame (c : Char) : List Char :=
  if isLowControl c then '\\' :: 'x' :: hexPair c.toNat
  else if isHighControl c then byNumber c
  else [c]

/-- A text that no terminal acts on. -/
def forTerminal (s : String) : String := String.ofList (s.toList.flatMap tame)

end NoiseShader.Text
