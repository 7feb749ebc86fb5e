import NoiseShader.Binary32

set_option autoImplicit false

/-! # Signals and where they are held

A signal is what flows into an input slot or out of the graph: a constant, or the value of a
node named by its UID.
-/

namespace NoiseShader

/-- The number that names a node for as long as the graph lives. -/
abbrev UID := UInt32

def UID.text (uid : UID) : String := toString uid.toNat

/-- The one UID that is never assigned. -/
def UID.last : UID := 0xFFFFFFFF

/-- The UID after this one; there is none after the last. -/
def UID.next (uid : UID) : UID := if uid = UID.last then uid else uid + 1

inductive Signal
  | constant (value : Binary32)
  | node (uid : UID)
deriving DecidableEq, Repr

namespace Signal

def zero : Signal := constant Binary32.zero

def target? : Signal → Option UID
  | constant _ => none
  | node uid => some uid

def constant? : Signal → Option Binary32
  | constant value => some value
  | node _ => none

def refersTo (s : Signal) (uid : UID) : Bool := s.target? == some uid

/-- Equality of what flows, with constants compared as numbers. -/
def same : Signal → Signal → Bool
  | constant x, constant y => x.sameNumber y
  | node u, node v => u == v
  | _, _ => false

end Signal

/-- Where a graph holds a signal. -/
inductive Site
  | slot (node : UID) (index : Nat)
  | output
deriving DecidableEq, Repr

namespace Site

def text : Site → String
  | slot node index => "node " ++ UID.text node ++ " slot " ++ toString index
  | output => "graph output"

/-- Slots by node, then by index; the output comes last. -/
def le : Site → Site → Bool
  | slot n i, slot m j => decide (n < m) || (n == m && decide (i ≤ j))
  | slot _ _, output => true
  | output, slot _ _ => false
  | output, output => true

end Site

end NoiseShader
