import NoiseShader.Node
import NoiseShader.Text.Quoted

set_option autoImplicit false

/-! # Graphs and their editing

A graph holds its nodes in the order in which they were added. References are not checked by
edits; a graph may refer to nodes that it lacks, and in circles.
-/

namespace NoiseShader

structure Graph where
  name : String
  nodes : List Node
  /-- The UID of the next node; it never goes down. -/
  nextUID : UID
  output : Signal
deriving DecidableEq, Repr

inductive EditError
  | nodeNotFound (uid : UID)
  | slotOutOfRange (node : UID) (slot count : Nat)
  | unknownSlot (node : UID) (name : String)
  | uidsExhausted
deriving DecidableEq, Repr

def EditError.message : EditError → String
  | nodeNotFound uid => "Node not found: " ++ UID.text uid
  | slotOutOfRange node slot count =>
    "Node " ++ UID.text node ++ " has " ++ toString count ++ " slots, no slot " ++ toString slot
  | unknownSlot node name => "Node " ++ UID.text node ++ " has no slot named " ++ Text.quote name
  | uidsExhausted => "No node UIDs left to assign"

/-- A graph without one of its nodes, and where that node was referred to. -/
structure Removal where
  node : Node
  resetSites : List Site
  graph : Graph

namespace Graph

def empty (name : String) : Graph := ⟨name, [], 0, .zero⟩

/-- The name of a graph that was given none. -/
def untitled : String := "Untitled"

def node? (g : Graph) (uid : UID) : Option Node := g.nodes.find? fun n => n.uid == uid

def contains (g : Graph) (uid : UID) : Bool := (g.node? uid).isSome

def uids (g : Graph) : List UID := g.nodes.map Node.uid

/-- Equality of what graphs hold: the order of nodes does not count, and constants are
compared as numbers. -/
def same (g h : Graph) : Bool :=
  g.name == h.name && g.output.same h.output && g.nextUID == h.nextUID &&
    g.nodes.length == h.nodes.length &&
    g.nodes.all fun n => (h.node? n.uid).any fun m => n.same m

/-- The graph with a node appended; the last UID is never given out. -/
def add (g : Graph) (kind : Kind) : Except EditError (UID × Graph) :=
  if g.nextUID = UID.last then .error .uidsExhausted
  else
    .ok (g.nextUID,
      { g with nodes := g.nodes ++ [Node.ofKind g.nextUID kind], nextUID := g.nextUID.next })

/-- The graph with a node in place of the one that has its UID. -/
def replace (g : Graph) (n : Node) : Graph :=
  { g with nodes := g.nodes.map fun m => if m.uid = n.uid then n else m }

/-- The graph with a change made to one node. -/
def edit (g : Graph) (uid : UID) (change : Node → Except EditError Node) :
    Except EditError Graph :=
  match g.node? uid with
  | none => .error (.nodeNotFound uid)
  | some n => (change n).map g.replace

/-- A change to one slot of a node. -/
def editSlot (g : Graph) (uid : UID) (slot : Nat) (change : Slot → Slot) :
    Except EditError Graph :=
  g.edit uid fun n =>
    if slot < n.slots.length then .ok { n with slots := n.slots.modify slot change }
    else .error (.slotOutOfRange uid slot n.slots.length)

def rename (g : Graph) (uid : UID) (name : String) : Except EditError Graph :=
  g.edit uid fun n => .ok { n with name := name }

def setInput (g : Graph) (uid : UID) (slot : Nat) (signal : Signal) : Except EditError Graph :=
  g.editSlot uid slot fun s => { s with signal := signal }

def setPinned (g : Graph) (uid : UID) (slot : Nat) (pinned : Bool) : Except EditError Graph :=
  g.editSlot uid slot fun s => { s with pinned := pinned }

def slotIndex (g : Graph) (uid : UID) (name : String) : Except EditError Nat :=
  match g.node? uid with
  | none => .error (.nodeNotFound uid)
  | some n =>
    match n.slotIndex? name with
    | none => .error (.unknownSlot uid name)
    | some slot => .ok slot

def setInputNamed (g : Graph) (uid : UID) (name : String) (signal : Signal) :
    Except EditError Graph :=
  match g.slotIndex uid name with
  | .error e => .error e
  | .ok slot => g.setInput uid slot signal

/-- The node as another kind. Edited slots are kept by name, and the node's name changes with
the kind only if it was the kind's own. -/
def reconfigure (g : Graph) (uid : UID) (kind : Kind) : Except EditError Graph :=
  g.edit uid fun n =>
    .ok {
      uid := n.uid
      name := if n.name = n.kind.displayName then kind.displayName else n.name
      kind := kind
      slots := Slot.reshape n.slots kind.slots }

def setOutput (g : Graph) (signal : Signal) : Graph := { g with output := signal }

/-- The places outside the node itself that refer to `uid`. -/
def sitesOf (g : Graph) (uid : UID) : List Site :=
  let others := g.nodes.filter fun n => n.uid != uid
  let slots := others.flatMap fun n => n.sitesOf uid
  (slots ++ if g.output.refersTo uid then [Site.output] else []).mergeSort Site.le

/-- The graph without a node. Slots that referred to it go back to their declared values, and
so does the output, to zero. -/
def remove (g : Graph) (uid : UID) : Except EditError Removal :=
  match g.node? uid with
  | none => .error (.nodeNotFound uid)
  | some n =>
    let others := g.nodes.filter fun m => m.uid != uid
    .ok {
      node := n
      resetSites := g.sitesOf uid
      graph := { g with
        nodes := others.map fun m => { m with slots := Slot.detach uid m.slots }
        output := if g.output.refersTo uid then .zero else g.output } }

end Graph

end NoiseShader
