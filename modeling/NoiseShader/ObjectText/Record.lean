import NoiseShader.ObjectText.Reader
import NoiseShader.Dimension

set_option autoImplicit false

/-! # From values to records

What is read of a value when its type is known. Fields of a record that its type does not have
are dropped, if they are not nested too deep.
-/

namespace NoiseShader.ObjectText

/-- What a value stands for, given the extensions in force. -/
abbrev Decode (α : Type) := Extensions → Value → Option α

def asWord : Decode UInt32
  | _, .number spelling => word? spelling
  | _, _ => none

def asNumber : Decode Binary32
  | _, .number spelling => number? spelling
  | _, _ => none

def asText : Decode String
  | _, .text content => some content
  | _, _ => none

def asBool : Decode Bool
  | _, .bool b => some b
  | _, _ => none

def asList {α : Type} (item : Decode α) : Decode (List α)
  | e, .list items => items.mapM (item e)
  | _, _ => none

/-- An option; if extensions allow it, a bare value is an option that holds it. -/
def asOption {α : Type} (content : Decode α) : Decode (Option α)
  | _, .none => some none
  | e, .some v => (content e v).map some
  | e, v => if e.implicitSome then (content e v).map some else none

/-- A variant without content, by its name. -/
def asVariant {α : Type} (all : List α) (name : α → String) : Decode α
  | _, .bare text => all.find? fun x => name x == text
  | _, _ => none

/-- The fields of a record by name, each at most once. -/
structure Fields where
  entries : List (String × Value)

namespace Fields

/-- Takes in one field. A known field may not be repeated, and the value of an unknown one has
to stay within the room that nesting has left. -/
def insert? (known : List String) (room : Nat) (fields : Fields) (field : String × Value) :
    Option Fields :=
  if known.contains field.1 then
    if fields.entries.any fun entry => entry.1 == field.1 then none
    else some ⟨field :: fields.entries⟩
  else if field.2.height ≤ room then some fields
  else none

def ofList? (known : List String) (room : Nat) (fields : List (String × Value)) :
    Option Fields :=
  fields.foldlM (insert? known room) ⟨[]⟩

def find? (fields : Fields) (name : String) : Option Value :=
  (fields.entries.find? fun entry => entry.1 == name).map Prod.snd

/-- A field that has to be there. -/
def required {α : Type} (fields : Fields) (e : Extensions) (name : String) (decode : Decode α) :
    Option α :=
  match fields.find? name with
  | none => none
  | some v => decode e v

/-- A field that may be left out. -/
def optional {α : Type} (fields : Fields) (e : Extensions) (name : String) (decode : Decode α)
    (otherwise : α) : Option α :=
  match fields.find? name with
  | none => some otherwise
  | some v => decode e v

end Fields

/-- Whether a record may be written under this name. -/
def acceptsName (e : Extensions) (expected : String) : Option String → Bool
  | none => !e.explicitNames
  | some name => name == expected

/-- The fields of a record that is read `depth` levels down. Each field is two levels further. -/
def asFields (expected : String) (known : List String) (depth : Nat) : Decode Fields
  | e, .record name fields =>
    if acceptsName e expected name then Fields.ofList? known (maxDepth - depth - 2) fields
    else none
  | e, .tuple name [] => if acceptsName e expected name then some ⟨[]⟩ else none
  | e, .unit => if acceptsName e expected none then some ⟨[]⟩ else none
  | _, _ => none

/-- The fields of the record that a variant holds, read `depth` levels down. -/
def asVariantFields (variant expected : String) (known : List String) (depth : Nat) :
    Decode Fields
  | e, .record (some name) fields =>
    if e.unwrapVariants && name == variant then Fields.ofList? known (maxDepth - depth - 2) fields
    else none
  | e, .tuple (some name) [v] =>
    if !e.unwrapVariants && name == variant then asFields expected known depth e v else none
  | _, _ => none

/-- The content of a variant that holds a plain value. -/
def asContent {α : Type} (variant : String) (content : Decode α) : Decode α
  | e, .tuple (some name) [v] => if name == variant then content e v else none
  | _, _ => none

/-! ## Dimensions -/

def dimensionName : Dimension → String
  | .one => "One"
  | .two => "Two"
  | .three => "Three"

def asDimension : Decode Dimension := asVariant Dimension.all dimensionName

end NoiseShader.ObjectText
