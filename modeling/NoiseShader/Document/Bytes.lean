import NoiseShader.Document

set_option autoImplicit false

/-! # Documents as bytes

Numbers have a fixed width, least significant byte first; texts and lists come after their
length, and variants after their index. Bytes behind a document are ignored.
-/

namespace NoiseShader.Document.Bytes

/-- What reads an `α` from the front of some bytes. -/
abbrev Decoder (α : Type) := List UInt8 → Option (α × List UInt8)

/-! ## Numbers -/

def encodeNat : (width n : Nat) → List UInt8
  | 0, _ => []
  | width + 1, n => UInt8.ofNat n :: encodeNat width (n / 256)

def decodeNat : (width : Nat) → Decoder Nat
  | 0, bytes => some (0, bytes)
  | _ + 1, [] => none
  | width + 1, b :: bytes =>
    (decodeNat width bytes).map fun (n, rest) => (b.toNat + 256 * n, rest)

def encodeWord (x : UInt32) : List UInt8 := encodeNat 4 x.toNat

def decodeWord : Decoder UInt32 := fun bytes =>
  (decodeNat 4 bytes).map fun (n, rest) => (UInt32.ofNat n, rest)

def encodeLength (n : Nat) : List UInt8 := encodeNat 8 n

def decodeLength : Decoder Nat := decodeNat 8

def encodeBool (b : Bool) : List UInt8 := [if b then 1 else 0]

def decodeBool : Decoder Bool
  | [] => none
  | b :: rest => if b = 0 then some (false, rest) else if b = 1 then some (true, rest) else none

def encodeNumber (x : Binary32) : List UInt8 := encodeWord x.bits

def decodeNumber : Decoder Binary32 := fun bytes =>
  (decodeWord bytes).map fun (bits, rest) => (⟨bits⟩, rest)

/-! ## Texts, lists and variants -/

/-- The first `n` bytes and the rest, if there are that many. -/
def splitBytes : (n : Nat) → Decoder (List UInt8)
  | 0, bytes => some ([], bytes)
  | _ + 1, [] => none
  | n + 1, b :: bytes => (splitBytes n bytes).map fun (front, rest) => (b :: front, rest)

def encodeText (s : String) : List UInt8 :=
  let bytes := s.toUTF8.data.toList
  encodeLength bytes.length ++ bytes

def decodeText : Decoder String := fun bytes =>
  match decodeLength bytes with
  | none => none
  | some (n, rest) =>
    match splitBytes n rest with
    | none => none
    | some (content, rest) => (String.fromUTF8? ⟨content.toArray⟩).map fun s => (s, rest)

def encodeList {α : Type} (encode : α → List UInt8) (xs : List α) : List UInt8 :=
  encodeLength xs.length ++ xs.flatMap encode

/-- Reads `n` items. -/
def decodeItems {α : Type} (decode : Decoder α) : (n : Nat) → Decoder (List α)
  | 0, bytes => some ([], bytes)
  | n + 1, bytes =>
    match decode bytes with
    | none => none
    | some (x, rest) => (decodeItems decode n rest).map fun (xs, rest) => (x :: xs, rest)

def decodeList {α : Type} (decode : Decoder α) : Decoder (List α) := fun bytes =>
  match decodeLength bytes with
  | none => none
  | some (n, rest) => decodeItems decode n rest

/-- A variant without content, by its place among all of them. -/
def encodeVariant {α : Type} [BEq α] (all : List α) (x : α) : List UInt8 :=
  encodeNat 4 (all.idxOf x)

def decodeVariant {α : Type} (all : List α) : Decoder α := fun bytes =>
  match decodeNat 4 bytes with
  | none => none
  | some (i, rest) => all[i]?.map fun x => (x, rest)

/-! ## Parts of a document -/

def encodeSignal : Signal → List UInt8
  | .constant x => encodeNat 4 0 ++ encodeNumber x
  | .node uid => encodeNat 4 1 ++ encodeWord uid

def decodeSignal : Decoder Signal := fun bytes =>
  match decodeNat 4 bytes with
  | some (0, rest) => (decodeNumber rest).map fun (x, rest) => (.constant x, rest)
  | some (1, rest) => (decodeWord rest).map fun (uid, rest) => (.node uid, rest)
  | _ => none

def encodeNoise (n : Noise) : List UInt8 :=
  encodeVariant NoiseFamily.all n.family ++ encodeVariant Dimension.all n.dimension ++
    encodeText n.formulas.distance ++ encodeText n.formulas.combine

def decodeNoise : Decoder Noise := fun bytes => do
  let (family, bytes) ← decodeVariant NoiseFamily.all bytes
  let (dimension, bytes) ← decodeVariant Dimension.all bytes
  let (distance, bytes) ← decodeText bytes
  let (combine, bytes) ← decodeText bytes
  return (⟨family, dimension, ⟨distance, combine⟩⟩, bytes)

def encodeKind : Kind → List UInt8
  | .noise n => encodeNat 4 0 ++ encodeNoise n
  | .math operation => encodeNat 4 1 ++ encodeVariant Operation.all operation
  | .coordinate axis => encodeNat 4 2 ++ encodeVariant Axis.all axis

def decodeKind : Decoder Kind := fun bytes =>
  match decodeNat 4 bytes with
  | some (0, rest) => (decodeNoise rest).map fun (n, rest) => (.noise n, rest)
  | some (1, rest) => (decodeVariant Operation.all rest).map fun (o, rest) => (.math o, rest)
  | some (2, rest) => (decodeVariant Axis.all rest).map fun (a, rest) => (.coordinate a, rest)
  | _ => none

def encodeSlot (s : Slot) : List UInt8 :=
  encodeText s.name ++ encodeNumber s.initial ++ encodeSignal s.signal ++ encodeBool s.pinned

def decodeSlot : Decoder Slot := fun bytes => do
  let (name, bytes) ← decodeText bytes
  let (initial, bytes) ← decodeNumber bytes
  let (signal, bytes) ← decodeSignal bytes
  let (pinned, bytes) ← decodeBool bytes
  return (⟨name, initial, signal, pinned⟩, bytes)

def encodeNode (n : Node) : List UInt8 :=
  encodeWord n.uid ++ encodeText n.name ++ encodeKind n.kind ++ encodeList encodeSlot n.slots

def decodeNode : Decoder Node := fun bytes => do
  let (uid, bytes) ← decodeWord bytes
  let (name, bytes) ← decodeText bytes
  let (kind, bytes) ← decodeKind bytes
  let (slots, bytes) ← decodeList decodeSlot bytes
  return (⟨uid, name, kind, slots⟩, bytes)

/-! ## Documents -/

def encode (d : Document) : List UInt8 :=
  encodeWord d.version ++ encodeText d.name ++ encodeWord d.nextUID ++
    encodeSignal d.output ++ encodeList encodeNode d.nodes

/-- The document at the front of some bytes, and the bytes behind it. -/
def decode : Decoder Document := fun bytes => do
  let (version, bytes) ← decodeWord bytes
  let (name, bytes) ← decodeText bytes
  let (nextUID, bytes) ← decodeWord bytes
  let (output, bytes) ← decodeSignal bytes
  let (nodes, bytes) ← decodeList decodeNode bytes
  return (⟨version, name, nextUID, output, nodes⟩, bytes)

end NoiseShader.Document.Bytes
