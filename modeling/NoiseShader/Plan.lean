import NoiseShader.Graph.Cycle
import NoiseShader.Graph.Order
import NoiseShader.Graph.Reach

set_option autoImplicit false

/-! # Plans

A plan is the order in which the nodes that matter are to be computed. There is none for a
graph with a fault in it; what is odd without being a fault is reported with the plan.
-/

namespace NoiseShader

/-- Why a graph cannot be compiled. -/
inductive Fault
  | cycle (path : List UID)
  | dangling (site : Site) (target : UID)
  | nonFinite (site : Site)
  | emptyFormula (node : UID) (role : Worley.Role)
  | slotMismatch (node : UID) (declared found : Nat)
  | axisOutOfRange (node : UID) (axis : Axis) (components : Nat)
deriving DecidableEq, Repr

def Fault.message : Fault → String
  | cycle path =>
    "Graph contains a cycle through node " ++ ((path.head?).map UID.text).getD "" ++ ": " ++
      String.intercalate " -> " (path.map UID.text)
  | dangling site target => site.text ++ " references missing node " ++ UID.text target
  | nonFinite site => site.text ++ " holds a non-finite constant"
  | emptyFormula node role =>
    "Worley node " ++ UID.text node ++ " has an empty " ++ role.text ++ " formula"
  | slotMismatch node declared found =>
    "Node " ++ UID.text node ++ " has " ++ toString found ++ " slot(s), its kind declares " ++
      toString declared
  | axisOutOfRange node axis components =>
    "Coordinate node " ++ UID.text node ++ " reads axis " ++ axis.label ++
      " but the seed has " ++ toString components ++ " component(s)"

inductive Severity
  | note
  | warning
deriving DecidableEq, Repr

def Severity.text : Severity → String
  | note => "note"
  | warning => "warning"

/-- Something odd that does not keep a graph from being compiled. -/
structure Diagnostic where
  severity : Severity
  node : Option UID
  message : String
deriving DecidableEq, Repr

def Diagnostic.text (d : Diagnostic) : String :=
  match d.node with
  | some uid => d.severity.text ++ ": node " ++ UID.text uid ++ ": " ++ d.message
  | none => d.severity.text ++ ": " ++ d.message

structure Plan where
  order : List UID
  diagnostics : List Diagnostic
deriving DecidableEq, Repr

/-- A slot that refers to a node that the graph lacks. -/
structure LooseEnd where
  node : UID
  slot : Nat
  target : UID
deriving DecidableEq, Repr

namespace LooseEnd

def fault (l : LooseEnd) : Fault := .dangling (.slot l.node l.slot) l.target

def warning (l : LooseEnd) : Diagnostic :=
  ⟨.warning, some l.node,
    "unreachable slot " ++ toString l.slot ++ " references missing node " ++ UID.text l.target⟩

end LooseEnd

namespace Wiring

def looseEndsOf (w : Wiring) (n : Node) : List LooseEnd :=
  n.slots.zipIdx.filterMap fun (s, i) =>
    match s.signal.target? with
    | none => none
    | some target => if w.contains target then none else some ⟨n.uid, i, target⟩

/-- The loose ends of all nodes, by UID and slot. -/
def looseEnds (w : Wiring) : List LooseEnd :=
  (w.uids.filterMap w.node?).flatMap w.looseEndsOf

/-- What is said of the nodes that are not part of the plan. -/
def skipped (count : Nat) : List Diagnostic :=
  if count = 0 then []
  else
    [⟨.note, none,
      toString count ++ " node(s) do not contribute to the output and were skipped"⟩]

/-- Looks for faults in this order: an output without node, a cycle anywhere, a loose end of a
node that matters. -/
def plan (w : Wiring) (output : Signal) : Except Fault Plan :=
  match output.target?.filter fun uid => !w.contains uid with
  | some target => .error (.dangling .output target)
  | none =>
    match w.cycle? with
    | some path => .error (.cycle path)
    | none =>
      let live := w.reachable output
      let liveSet := Std.TreeSet.ofList live compare
      let ends := w.looseEnds
      match ends.find? fun l => liveSet.contains l.node with
      | some l => .error l.fault
      | none =>
        .ok ⟨w.order live,
          ends.map LooseEnd.warning ++ skipped (w.uids.length - live.length)⟩

end Wiring

def Graph.plan (g : Graph) : Except Fault Plan := g.wiring.plan g.output

end NoiseShader
