import NoiseShader.Document
import NoiseShader.ObjectText.Record
import NoiseShader.ObjectText.Writer

set_option autoImplicit false

/-! # Documents as text -/

namespace NoiseShader.Document.Text

open ObjectText

/-! ## Writing -/

def signalValue : Signal → Value
  | .constant x => .tuple (some "Constant") [.number (spellNumber x)]
  | .node uid => .tuple (some "Node") [.number (spellWord uid)]

def formulasValue (f : CellFormulas) : Value :=
  .record (some "WorleyFormulas") [("distance", .text f.distance), ("combine", .text f.combine)]

def noiseValue (n : Noise) : Value :=
  .record (some "NoiseNode") [
    ("kind", .bare n.family.label),
    ("dimensions", .bare (dimensionName n.dimension)),
    ("formulas", formulasValue n.formulas)]

def kindValue : Kind → Value
  | .noise n => .tuple (some "Noise") [noiseValue n]
  | .math operation => .tuple (some "Math") [.bare operation.typeId]
  | .coordinate axis => .tuple (some "Coordinate") [.bare axis.label]

def slotValue (s : Slot) : Value :=
  .record (some "Slot") [
    ("name", .text s.name),
    ("default", .number (spellNumber s.initial)),
    ("expression", signalValue s.signal),
    ("pinned", .bool s.pinned)]

def nodeValue (n : Node) : Value :=
  .record (some "Node") [
    ("uid", .number (spellWord n.uid)),
    ("name", .text n.name),
    ("kind", kindValue n.kind),
    ("inputs", .list (n.slots.map slotValue))]

def documentValue (d : Document) : Value :=
  .record (some "GraphDocument") [
    ("version", .number (spellWord d.version)),
    ("name", .text d.name),
    ("next_uid", .number (spellWord d.nextUID)),
    ("output", signalValue d.output),
    ("nodes", .list (d.nodes.map nodeValue))]

def write (d : Document) : String := render (documentValue d)

/-! ## Reading -/

def asSignal : Decode Signal := fun e v =>
  ((asContent "Constant" asNumber e v).map .constant).or
    ((asContent "Node" asWord e v).map .node)

def asFormulas : Decode CellFormulas := fun e v => do
  let fields ← asFields "WorleyFormulas" ["distance", "combine"] 10 e v
  let distance ← fields.required e "distance" asText
  let combine ← fields.required e "combine" asText
  return ⟨distance, combine⟩

def noiseOf (e : Extensions) (fields : Fields) : Option Noise := do
  let family ← fields.required e "kind" (asVariant NoiseFamily.all NoiseFamily.label)
  let dimension ← fields.required e "dimensions" asDimension
  let formulas ← fields.optional e "formulas" asFormulas .standard
  return ⟨family, dimension, formulas⟩

def asNoise : Decode Noise := fun e v =>
  (asVariantFields "Noise" "NoiseNode" ["kind", "dimensions", "formulas"] 8 e v).bind (noiseOf e)

def asKind : Decode Kind := fun e v =>
  ((asNoise e v).map .noise).or
    (((asContent "Math" (asVariant Operation.all Operation.typeId) e v).map .math).or
      ((asContent "Coordinate" (asVariant Axis.all Axis.label) e v).map .coordinate))

def asSlot : Decode Slot := fun e v => do
  let fields ← asFields "Slot" ["name", "default", "expression", "pinned"] 8 e v
  let name ← fields.required e "name" asText
  let initial ← fields.required e "default" asNumber
  let signal ← fields.required e "expression" asSignal
  let pinned ← fields.optional e "pinned" asBool false
  return ⟨name, initial, signal, pinned⟩

def asNode : Decode Node := fun e v => do
  let fields ← asFields "Node" ["uid", "name", "kind", "inputs"] 4 e v
  let uid ← fields.required e "uid" asWord
  let name ← fields.required e "name" asText
  let kind ← fields.required e "kind" asKind
  let slots ← fields.required e "inputs" (asList asSlot)
  return ⟨uid, name, kind, slots⟩

def asDocument : Decode Document := fun e v => do
  let fields ← asFields "GraphDocument" ["version", "name", "next_uid", "output", "nodes"] 0 e v
  let version ← fields.required e "version" asWord
  let name ← fields.required e "name" asText
  let nextUID ← fields.required e "next_uid" asWord
  let output ← fields.required e "output" asSignal
  let nodes ← fields.required e "nodes" (asList asNode)
  return ⟨version, name, nextUID, output, nodes⟩

/-- The document that a text holds. -/
def read? (text : String) : Option Document :=
  match ObjectText.read? text with
  | none => none
  | some (e, v) => asDocument e v

end NoiseShader.Document.Text
