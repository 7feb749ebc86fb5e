import NoiseShader.Program

set_option autoImplicit false

/-! # Parameters

The constants of a graph that can be tuned from outside. Each has a name to show and an
identifier for the generated text, and both are unique.
-/

namespace NoiseShader

/-- A name to show and an identifier. -/
structure Label where
  name : String
  identifier : String
deriving DecidableEq, Repr

structure Parameter where
  label : Label
  node : UID
  slot : Nat
  value : Binary32
deriving DecidableEq, Repr

namespace Label

def ofSlot (n : Node) (s : Slot) : Label :=
  ⟨n.name ++ " " ++ s.name,
    "param_" ++ NoiseShader.identifier n.name ++ "_" ++ NoiseShader.identifier s.name⟩

def numbered (l : Label) (k : Nat) : Label :=
  ⟨l.name ++ " " ++ toString k, l.identifier ++ "_" ++ toString k⟩

end Label

/-- The names and identifiers that are in use. -/
structure Taken where
  names : Std.TreeSet String
  identifiers : Std.TreeSet String

namespace Taken

def empty : Taken := ⟨∅, ∅⟩

def insert (t : Taken) (l : Label) : Taken :=
  ⟨t.names.insert l.name, t.identifiers.insert l.identifier⟩

def isFree (t : Taken) (l : Label) : Bool :=
  !t.names.contains l.name && !t.identifiers.contains l.identifier

/-- The least number from `k` on that makes the label free, if it is among the first `tries`;
else the number after these. -/
def leastFree (t : Taken) (l : Label) : (tries k : Nat) → Nat
  | 0, k => k
  | tries + 1, k => if t.isFree (l.numbered k) then k else t.leastFree l tries (k + 1)

/-- The label itself if it is free, and else with the least number from two on that frees both
its parts. Each part in use spoils at most one number, which bounds the search. -/
def unique (t : Taken) (l : Label) : Label :=
  if t.isFree l then l
  else l.numbered (t.leastFree l (t.names.size + t.identifiers.size) 2)

end Taken

/-- A constant that a slot offers, not yet named. -/
structure Tunable where
  base : Label
  node : UID
  slot : Nat
  value : Binary32
deriving DecidableEq, Repr

def Node.tunables (n : Node) : List Tunable :=
  n.slots.zipIdx.filterMap fun (s, i) => s.tunable?.map fun value =>
    ⟨Label.ofSlot n s, n.uid, i, value⟩

/-- Gives each of the constants its label, in turn. -/
def Parameter.assign (taken : Taken) : List Tunable → List Parameter
  | [] => []
  | t :: rest =>
    let label := taken.unique t.base
    ⟨label, t.node, t.slot, t.value⟩ :: Parameter.assign (taken.insert label) rest

namespace Graph

/-- The tunable constants of the nodes that matter, by place in the order and by slot. -/
def parameters (g : Graph) : Except Fault (List Parameter) := do
  let w := g.wiring
  let plan ← w.plan g.output
  let tunables := (plan.order.filterMap w.node?).flatMap Node.tunables
  match tunables.find? fun t => !t.value.isFinite with
  | some t => .error (.nonFinite (.slot t.node t.slot))
  | none => .ok (Parameter.assign .empty tunables)

end Graph

/-- Every parameter bound to its slot. -/
def Bindings.ofParameters (parameters : List Parameter) : Bindings :=
  parameters.foldl (fun b p => b.bind p.node p.slot p.label.identifier) .empty

end NoiseShader
