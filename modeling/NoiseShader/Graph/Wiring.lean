import NoiseShader.Graph
import Std.Data.TreeMap
import Std.Data.TreeSet

set_option autoImplicit false

/-! # The wiring of a graph

The wiring is what the searches through a graph need of it: its nodes by UID, so that each
step of a search costs a look-up in a tree and not a pass over the nodes.
-/

namespace NoiseShader

abbrev UIDSet := Std.TreeSet UID

/-- The distinct elements in ascending order. -/
def ascending (uids : List UID) : List UID := (Std.TreeSet.ofList uids compare).toList

theorem size_erase_lt {set : UIDSet} {uid : UID} (h : uid ∈ set) :
    (set.erase uid).size < set.size := by
  have hpos : 0 < set.size := by
    refine Nat.pos_of_ne_zero fun h0 => ?_
    have hempty : set.isEmpty = true := by simp [Std.TreeSet.isEmpty_eq_size_eq_zero, h0]
    exact Std.TreeSet.not_mem_of_isEmpty hempty h
  rw [Std.TreeSet.size_erase, if_pos (Std.TreeSet.mem_iff_contains.mp h)]
  omega

structure Wiring where
  nodes : Std.TreeMap UID Node

/-- The nodes by UID; of two with one UID the first counts. -/
def Graph.wiring (g : Graph) : Wiring :=
  ⟨g.nodes.foldr (fun n nodes => nodes.insert n.uid n) ∅⟩

namespace Wiring

def node? (w : Wiring) (uid : UID) : Option Node := w.nodes[uid]?

def contains (w : Wiring) (uid : UID) : Bool := w.nodes.contains uid

/-- The UIDs of all nodes, ascending. -/
def uids (w : Wiring) : List UID := w.nodes.keys

/-- What the slots of a node refer to, in slot order; nothing for a node that the graph lacks. -/
def targets (w : Wiring) (uid : UID) : List UID := (w.node? uid).elim [] Node.targets

/-- The nodes of the graph that a node refers to, distinct and ascending; none for a node that
the graph lacks. -/
def dependencies (w : Wiring) (uid : UID) : List UID :=
  match w.node? uid with
  | none => []
  | some n => ascending (n.targets.filter w.contains)

end Wiring

end NoiseShader
