import NoiseShader.Operation
import NoiseShader.Worley

set_option autoImplicit false

/-! # Kinds of nodes -/

namespace NoiseShader

inductive Kind
  | noise (noise : Noise)
  | math (operation : Operation)
  | coordinate (axis : Axis)
deriving DecidableEq, Repr

namespace Kind

/-- Every kind, noise with its standard formulas. -/
def catalog : List Kind :=
  (NoiseFamily.all.flatMap fun family =>
    Dimension.all.map fun d => noise ⟨family, d, CellFormulas.standard⟩) ++
  Operation.all.map math ++ Axis.all.map coordinate

def typeId : Kind → String
  | noise n => n.typeId
  | math operation => operation.typeId
  | coordinate axis => "Coordinate" ++ axis.label

def ofTypeId? (id : String) : Option Kind := catalog.find? fun kind => kind.typeId == id

/-- What is said when no kind has a type id. -/
def unknownType (id : String) : String := "Unknown node type: " ++ id

/-- The name that nodes of the kind start with. -/
def displayName : Kind → String
  | noise n => n.displayName
  | math operation => operation.displayName
  | coordinate axis => "Coordinate " ++ axis.label

def slots : Kind → List SlotSpec
  | noise n => n.slots
  | math operation => operation.slots
  | coordinate _ => []

/-- What a node of the kind computes from its inputs; nothing if inputs are missing. -/
def expression? (kind : Kind) (uid : UID) (seed : String) (inputs : List Shading.Expr) :
    Option Shading.Expr :=
  match kind with
  | noise n => n.expression? uid inputs
  | math operation => operation.expression? inputs
  | coordinate axis => some (.component seed axis)

/-- The helper that a node of the kind calls, if any, or which of its formulas is blank. -/
def helper? (kind : Kind) (uid : UID) : Except Worley.Role (Option Worley.Helper) :=
  match kind with
  | noise n =>
    if n.isCustom then (Worley.helper uid n.dimension n.formulas).map some else .ok none
  | _ => .ok none

end Kind

end NoiseShader
