import NoiseShader.Text.Hidden

set_option autoImplicit false

/-! # Quoted text

A quoted text stands between double quotes. Quotes, backslashes, the common controls and the
characters that do not show are escaped; the rest is written as it is.
-/

namespace NoiseShader.Text

/-- A number below 256 as two hexadecimal digits. -/
def hexPair (n : Nat) : List Char := [Nat.digitChar (n / 16), Nat.digitChar (n % 16)]

/-- A character by its number. -/
def byNumber (c : Char) : List Char :=
  '\\' :: 'u' :: '\x7b' :: (Nat.toDigits 16 c.toNat ++ ['\x7d'])

/-- One character of a quoted text. Apostrophes are escaped on request. -/
def escape (apostrophe : Bool) (c : Char) : List Char :=
  if c = '\x00' then ['\\', '0']
  else if c = '\t' then ['\\', 't']
  else if c = '\r' then ['\\', 'r']
  else if c = '\n' then ['\\', 'n']
  else if c = '\x22' then ['\\', '\x22']
  else if c = '\\' then ['\\', '\\']
  else if c = '\x27' && apostrophe then ['\\', '\x27']
  else if isHidden c then byNumber c
  else [c]

def quoteChars (apostrophe : Bool) (cs : List Char) : List Char :=
  '\x22' :: (cs.flatMap (escape apostrophe) ++ ['\x22'])

/-- Text in double quotes, as messages show it. -/
def quote (s : String) : String := String.ofList (quoteChars false s.toList)

/-- A list of quoted texts in brackets. -/
def quoteList (texts : List String) : String :=
  "[" ++ String.intercalate ", " (texts.map quote) ++ "]"

end NoiseShader.Text
