import NoiseShader.ObjectText.Content
import NoiseShader.ObjectText.Value

set_option autoImplicit false

/-! # Reading values

Values are read from tokens. The depth to which containers may be nested bounds the recursion,
and the length of the text bounds each list.
-/

namespace NoiseShader.ObjectText

/-- What reads an `α` from the front of the tokens. -/
abbrev Reader (α : Type) := List Lexeme → Option (α × List Lexeme)

/-- Items up to a closing mark, with commas between them and one more allowed at the end. The
items found so far come newest first; the number bounds those to come. -/
def itemsUntil {α : Type} (item : Reader α) (closing : Char) (found : List α) :
    Nat → Reader (List α)
  | 0, _ => none
  | fuel + 1, tokens =>
    match tokens with
    | [] => none
    | first :: rest =>
      if first.token = .mark closing then some (found.reverse, rest)
      else
        match item tokens with
        | none => none
        | some (x, ⟨.mark ',', _⟩ :: rest) => itemsUntil item closing (x :: found) fuel rest
        | some (x, ⟨.mark c, _⟩ :: rest) =>
          if c = closing then some ((x :: found).reverse, rest) else none
        | some _ => none

/-- Fewer than `bound` items up to a closing mark. -/
def items {α : Type} (bound : Nat) (item : Reader α) (closing : Char) : Reader (List α) :=
  itemsUntil item closing [] bound

/-- A key and its value. -/
def entry {α : Type} (key : Reader α) (value : Reader Value) : Reader (α × Value) := fun tokens =>
  match key tokens with
  | some (k, ⟨.mark ':', _⟩ :: rest) => (value rest).map fun (v, rest) => ((k, v), rest)
  | _ => none

def fieldName : Reader String
  | ⟨.name _ text, _⟩ :: rest => some (text, rest)
  | _ => none

/-- Whether the content of parentheses begins like the fields of a record. -/
def beginsWithField : List Lexeme → Bool
  | ⟨.name _ _, _⟩ :: ⟨.mark ':', _⟩ :: _ => true
  | _ => false

/-- The fields of a record, behind its opening parenthesis. -/
def recordBody (bound : Nat) (name : Option String) (value : Reader Value) : Reader Value :=
  fun tokens =>
  (items bound (entry fieldName value) ')' tokens).map fun (fields, rest) =>
    (.record name fields, rest)

/-- The items of a tuple, behind its opening parenthesis. -/
def tupleBody (bound : Nat) (name : Option String) (value : Reader Value) : Reader Value :=
  fun tokens => (items bound value ')' tokens).map fun (vs, rest) => (.tuple name vs, rest)

/-- The content of parentheses, behind the opening one: fields or items. -/
def parenthesized (bound : Nat) (name : Option String) (value : Reader Value) : Reader Value :=
  fun tokens =>
  if beginsWithField tokens then recordBody bound name value tokens
  else tupleBody bound name value tokens

/-- The only value between parentheses, behind the opening one. -/
def single (bound : Nat) (value : Reader Value) : Reader Value := fun tokens =>
  match items bound value ')' tokens with
  | some ([v], rest) => some (v, rest)
  | _ => none

/-- The content of an option, behind its opening parenthesis, where the text goes on with `after`:
one value, or, if variants are unwrapped, what the option holds without its own parentheses. -/
def optionContent (bound : Nat) (extensions : Extensions) (value : Reader Value)
    (after : List Char) : Reader Value := fun tokens =>
  if extensions.unwrapVariants then
    match content? bound after with
    | none => none
    | some .nothing => some (.unit, tokens.tail)
    | some .fields => recordBody bound none value tokens
    | some .one => single bound value tokens
    | some .several => tupleBody bound none value tokens
  else single bound value tokens

/-- The names of numbers. -/
def isNumberName (name : String) : Bool :=
  name == "inf" || name == "inff32" || name == "inff64" || name == "NaN" || name == "NaNf32" ||
    name == "NaNf64"

/-- Reads a value with at most `room` containers inside one another, each of them with fewer
than `bound` items. -/
def value (bound : Nat) (extensions : Extensions) : (room : Nat) → Reader Value
  | room, ⟨.name raw name, _⟩ :: rest =>
    if !raw && name == "true" then some (.bool true, rest)
    else if !raw && name == "false" then some (.bool false, rest)
    else if !raw && name == "None" then some (.none, rest)
    else if !raw && isNumberName name then some (.number name.toList, rest)
    else if !raw && name == "Some" then
      match room, rest with
      | room + 1, ⟨.mark '(', after⟩ :: rest =>
        (optionContent bound extensions (value bound extensions room) after rest).map
          fun (v, rest) => (.some v, rest)
      | room + 1, rest =>
        if extensions.implicitSome then
          (value bound extensions room rest).map fun (v, rest) => (.some v, rest)
        else none
      | 0, _ => none
    else
      match room, rest with
      | room + 1, ⟨.mark '(', _⟩ :: rest =>
        parenthesized bound (some name) (value bound extensions room) rest
      | _, _ => some (.bare name, rest)
  | _, ⟨.number spelling, _⟩ :: rest =>
    if isInteger spelling || isDecimal spelling then some (.number spelling, rest) else none
  | _, ⟨.text content, _⟩ :: rest => some (.text content, rest)
  | _, ⟨.foreign, _⟩ :: rest => some (.foreign, rest)
  | _, ⟨.mark '(', ')' :: _⟩ :: rest => some (.unit, rest.tail)
  | room + 1, ⟨.mark '(', _⟩ :: rest =>
    parenthesized bound none (value bound extensions room) rest
  | room + 1, ⟨.mark '[', _⟩ :: rest =>
    (items bound (value bound extensions room) ']' rest).map fun (vs, rest) => (.list vs, rest)
  | room + 1, ⟨.mark '\x7b', _⟩ :: rest =>
    let item := value bound extensions room
    (items bound (entry item item) '\x7d' rest).map fun (entries, rest) =>
      (.map (entries.flatMap fun (k, v) => [k, v]), rest)
  | _, _ => none

/-! ## Extensions -/

def Extensions.enable? (e : Extensions) : String → Option Extensions
  | "implicit_some" => some { e with implicitSome := true }
  | "unwrap_newtypes" => some e
  | "unwrap_variant_newtypes" => some { e with unwrapVariants := true }
  | "explicit_struct_names" => some { e with explicitNames := true }
  | _ => none

/-- The extensions before a value. Each attribute names at least one. -/
def attributes (bound : Nat) (e : Extensions) : Nat → Reader Extensions
  | fuel + 1, ⟨.mark '#', _⟩ :: rest =>
    match rest with
    | ⟨.mark '!', _⟩ :: ⟨.mark '[', _⟩ :: ⟨.name false "enable", _⟩ :: ⟨.mark '(', _⟩ :: rest =>
      match items bound fieldName ')' rest with
      | some (names, ⟨.mark ']', _⟩ :: rest) =>
        if names.isEmpty then none
        else
          match names.foldlM Extensions.enable? e with
          | some e => attributes bound e fuel rest
          | none => none
      | _ => none
    | _ => none
  | _, tokens => some (e, tokens)

/-- How deep containers can be nested. -/
def maxDepth : Nat := 128

/-- Reads a text that holds one value and nothing else. -/
def read? (text : String) : Option (Extensions × Value) :=
  let cs := text.toList
  let bound := cs.length + 1
  match lexemes? bound cs with
  | none => none
  | some tokens =>
    match attributes bound {} bound tokens with
    | none => none
    | some (extensions, rest) =>
      match value bound extensions maxDepth rest with
      | some (v, []) => some (extensions, v)
      | _ => none

end NoiseShader.ObjectText
