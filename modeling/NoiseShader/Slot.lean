import NoiseShader.Signal

set_option autoImplicit false

/-! # Input slots -/

namespace NoiseShader

/-- A slot as a kind of node declares it. -/
structure SlotSpec where
  name : String
  initial : Binary32
deriving DecidableEq, Repr

structure Slot where
  name : String
  /-- The declared value, for when nothing else is wired in. -/
  initial : Binary32
  signal : Signal
  /-- Pinned constants are never offered as parameters. -/
  pinned : Bool
deriving DecidableEq, Repr

def SlotSpec.slot (spec : SlotSpec) : Slot :=
  ⟨spec.name, spec.initial, .constant spec.initial, false⟩

namespace Slot

def spec (s : Slot) : SlotSpec := ⟨s.name, s.initial⟩

/-- Back to the declared value. -/
def reset (s : Slot) : Slot := { s with signal := .constant s.initial }

/-- Whether the slot holds something else than it was declared with, bit for bit. -/
def isEdited (s : Slot) : Bool := s.pinned || s.signal != .constant s.initial

/-- The constant that the slot offers as a parameter. -/
def tunable? (s : Slot) : Option Binary32 := if s.pinned then none else s.signal.constant?

def same (s t : Slot) : Bool :=
  s.name == t.name && s.initial.sameNumber t.initial && s.signal.same t.signal &&
    s.pinned == t.pinned

/-- The slots that `specs` declare. A slot takes over signal and flag of the first edited old
slot of its name. -/
def reshape (old : List Slot) (specs : List SlotSpec) : List Slot :=
  specs.map fun spec =>
    match old.find? fun s => s.name == spec.name && s.isEdited with
    | some s => { spec.slot with signal := s.signal, pinned := s.pinned }
    | none => spec.slot

/-- The slots with every reference to `uid` reset. -/
def detach (uid : UID) (slots : List Slot) : List Slot :=
  slots.map fun s => if s.signal.refersTo uid then s.reset else s

end Slot

end NoiseShader
