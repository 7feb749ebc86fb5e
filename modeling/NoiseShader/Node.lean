import NoiseShader.Kind

set_option autoImplicit false

/-! # Nodes and their names in generated text -/

namespace NoiseShader

/-- A name cut down to ASCII letters and digits, with a letter in front if it has none. -/
def identifier (name : String) : String :=
  let kept := name.toList.filter Char.isAlphanum
  match kept with
  | [] => "n"
  | c :: _ => String.ofList (if c.isDigit then 'n' :: kept else kept)

structure Node where
  uid : UID
  name : String
  kind : Kind
  /-- In the order in which the kind declares them. -/
  slots : List Slot
deriving DecidableEq, Repr

namespace Node

def ofKind (uid : UID) (kind : Kind) : Node :=
  ⟨uid, kind.displayName, kind, kind.slots.map SlotSpec.slot⟩

/-- The nodes referred to, in slot order. -/
def targets (n : Node) : List UID := n.slots.filterMap fun s => s.signal.target?

def slotIndex? (n : Node) (name : String) : Option Nat :=
  n.slots.findIdx? fun s => s.name == name

/-- The variable that holds the node's value. A node whose name comes down to that of the
helper functions gets a letter in front, so that it hides none of them. -/
def variableName (n : Node) : String :=
  let stem := identifier n.name
  (if stem == Noise.helperStem then "n" ++ stem else stem) ++ "_" ++ UID.text n.uid

def same (n m : Node) : Bool :=
  n.uid == m.uid && n.name == m.name && n.kind == m.kind &&
    n.slots.length == m.slots.length && (n.slots.zip m.slots).all fun (s, t) => s.same t

/-- The slots that refer to `uid`. -/
def sitesOf (n : Node) (uid : UID) : List Site :=
  (n.slots.zipIdx.filter fun (s, _) => s.signal.refersTo uid).map fun (_, i) => .slot n.uid i

end Node

end NoiseShader
