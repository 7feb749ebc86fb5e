import NoiseShader.ObjectText.Value
import NoiseShader.Text.Quoted

set_option autoImplicit false

/-! # Writing values

Records and lists have one item a line, each with a comma; all else is on one line.
-/

namespace NoiseShader.ObjectText

/-- A line break and the indentation of the line after it. -/
def newLine (depth : Nat) : List Char := '\n' :: List.replicate (4 * depth) ' '

def writeText (content : String) : List Char := Text.quoteChars true content.toList

mutual

/-- The text of a value whose first line is at the given depth. -/
def write (depth : Nat) : Value → List Char
  | .bool b => if b then ['t', 'r', 'u', 'e'] else ['f', 'a', 'l', 's', 'e']
  | .number spelling => spelling
  | .text content => writeText content
  | .foreign => []
  | .unit => ['(', ')']
  | .none => ['N', 'o', 'n', 'e']
  | .some content => ['S', 'o', 'm', 'e', '('] ++ write depth content ++ [')']
  | .list items =>
    if items.isEmpty then ['[', ']']
    else '[' :: (writeItems (depth + 1) items ++ newLine depth ++ [']'])
  | .map _ => []
  | .bare name => name.toList
  | .tuple name items =>
    ((name.map String.toList).getD []) ++ '(' :: (writeInline depth items ++ [')'])
  | .record name fields =>
    ((name.map String.toList).getD []) ++
      '(' :: (writeFields (depth + 1) fields ++ newLine depth ++ [')'])

/-- Items on lines of their own. -/
def writeItems (depth : Nat) : List Value → List Char
  | [] => []
  | v :: vs => newLine depth ++ write depth v ++ ',' :: writeItems depth vs

/-- Items on one line. -/
def writeInline (depth : Nat) : List Value → List Char
  | [] => []
  | [v] => write depth v
  | v :: vs => write depth v ++ ',' :: ' ' :: writeInline depth vs

def writeFields (depth : Nat) : List (String × Value) → List Char
  | [] => []
  | (name, v) :: fields =>
    newLine depth ++ name.toList ++ ':' :: ' ' :: (write depth v ++ ',' :: writeFields depth fields)

end

def render (v : Value) : String := String.ofList (write 0 v)

end NoiseShader.ObjectText
