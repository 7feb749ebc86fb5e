import NoiseShader.Graph.Wiring

set_option autoImplicit false

/-! # The nodes that the output depends on -/

namespace NoiseShader

namespace Reach

/-- What is left of `fresh` when everything that can be reached from `work` is taken out. -/
def unreached (dependencies : UID → List UID) (fresh : UIDSet) : (work : List UID) → UIDSet
  | [] => fresh
  | uid :: work =>
    if uid ∈ fresh then
      unreached dependencies (fresh.erase uid) (dependencies uid ++ work)
    else unreached dependencies fresh work
termination_by work => (fresh.size, work.length)
decreasing_by
  · exact Prod.Lex.left _ _ (size_erase_lt ‹_›)
  · exact Prod.Lex.right _ (by simp)

end Reach

/-- The nodes that the output refers to, directly or through other nodes, ascending. Loose ends and
references to what was reached before are put to the work like all others. -/
def Wiring.reachable (w : Wiring) (output : Signal) : List UID :=
  let rest := Reach.unreached w.targets (Std.TreeSet.ofList w.uids compare)
    output.target?.toList
  w.uids.filter fun uid => !rest.contains uid

def Graph.reachable (g : Graph) : List UID := g.wiring.reachable g.output

end NoiseShader
