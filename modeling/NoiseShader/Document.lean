import NoiseShader.Graph.Wiring

set_option autoImplicit false

/-! # Documents

A document is a graph as it is stored. Any document can be written and read; only some of them
are the documents of graphs.
-/

namespace NoiseShader

structure Document where
  version : UInt32
  name : String
  nextUID : UID
  output : Signal
  nodes : List Node
deriving DecidableEq, Repr

/-- Why a document is not that of a graph. -/
inductive DocumentError
  | unsupportedVersion (found : UInt32)
  | duplicateUID (uid : UID)
  | slotMismatch (node : UID) (found declared : List String)
deriving DecidableEq, Repr

namespace Document

/-- The version that is written, and the highest that is read. -/
def currentVersion : UInt32 := 1

end Document

def DocumentError.message : DocumentError → String
  | unsupportedVersion found =>
    "Graph format version " ++ toString found.toNat ++ " is newer than supported version " ++
      toString Document.currentVersion.toNat
  | duplicateUID uid => "Duplicate node UID " ++ UID.text uid
  | slotMismatch node found declared =>
    "Node " ++ UID.text node ++ " has slots " ++ Text.quoteList found ++
      ", its kind declares " ++ Text.quoteList declared

def Graph.document (g : Graph) : Document :=
  ⟨Document.currentVersion, g.name, g.nextUID, g.output, g.nodes⟩

namespace Document

/-- The node with the declared values of its kind, if it has the slots of its kind. -/
def checkNode (n : Node) : Except DocumentError Node :=
  let found := n.slots.map Slot.name
  let declared := n.kind.slots.map SlotSpec.name
  if found = declared then
    .ok { n with
      slots := n.slots.zipWith (fun s spec => { s with initial := spec.initial }) n.kind.slots }
  else .error (.slotMismatch n.uid found declared)

/-- Checks nodes in turn; `seen` are the UIDs of those before. -/
def checkNodes (seen : UIDSet) : List Node → Except DocumentError (List Node)
  | [] => .ok []
  | n :: rest =>
    if n.uid ∈ seen then .error (.duplicateUID n.uid)
    else
      match checkNode n with
      | .error e => .error e
      | .ok checked => (checkNodes (seen.insert n.uid) rest).map (checked :: ·)

/-- The graph of a document. Its next UID lies past those of all nodes, whatever the document
says. -/
def graph (d : Document) : Except DocumentError Graph :=
  if currentVersion < d.version then .error (.unsupportedVersion d.version)
  else
    (checkNodes ∅ d.nodes).map fun nodes =>
      { name := d.name
        nodes := nodes
        nextUID := nodes.foldl (fun next n => max next n.uid.next) d.nextUID
        output := d.output }

end Document

end NoiseShader
