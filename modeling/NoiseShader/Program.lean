import NoiseShader.Plan

set_option autoImplicit false

/-! # Programs

A program is what a graph compiles to: a declaration for each node that matters, each after
the declarations it uses, then the declaration of the result.
-/

namespace NoiseShader

/-- Identifiers that stand for constants held in slots. A slot has at most one. -/
structure Bindings where
  entries : List ((UID × Nat) × String)
deriving DecidableEq, Repr

namespace Bindings

def empty : Bindings := ⟨[]⟩

/-- The last identifier given to a slot counts. -/
def bind (b : Bindings) (node : UID) (slot : Nat) (identifier : String) : Bindings :=
  ⟨((node, slot), identifier) :: b.entries.filter fun entry => entry.1 != (node, slot)⟩

def find? (b : Bindings) (node : UID) (slot : Nat) : Option String :=
  (b.entries.find? fun entry => entry.1 == (node, slot)).map Prod.snd

def size (b : Bindings) : Nat := b.entries.length

end Bindings

/-- The names that a program takes from its surroundings. -/
structure Options where
  seedName : String := "pos"
  outputSymbol : String := "result"
  bindings : Bindings := .empty
  /-- The dimension that coordinates have to fit in, if it is fixed. -/
  seedDimension : Option Dimension := none
deriving Repr

structure Program where
  order : List UID
  helpers : List Worley.Helper
  statements : List Shading.Declaration
  output : Shading.Declaration
  /-- How many components of the seed position are read. -/
  seedComponents : Nat
  diagnostics : List Diagnostic

/-- What one node adds to a program. -/
structure Emission where
  statement : Shading.Declaration
  helper : Option Worley.Helper

def Emission.warnings (e : Emission) : List Diagnostic :=
  match e.helper with
  | none => []
  | some h => h.warnings.map fun message => ⟨.warning, some h.node, message⟩

namespace Wiring

/-- The text that stands for a signal: a literal or a variable. -/
def resolve (w : Wiring) (site : Site) : Signal → Except Fault Shading.Expr
  | .constant x =>
    match Shading.literal? x with
    | some text => .ok (.atom text)
    | none => .error (.nonFinite site)
  | .node target =>
    match w.node? target with
    | some n => .ok (.atom n.variableName)
    | none => .error (.dangling site target)

/-- Like `resolve`, except that a constant gives way to the identifier bound to its slot. -/
def resolveSlot (w : Wiring) (bindings : Bindings) (node : UID) (slot : Nat) (signal : Signal) :
    Except Fault Shading.Expr :=
  match bindings.find? node slot, signal.constant? with
  | some identifier, some _ => .ok (.atom identifier)
  | _, _ => w.resolve (.slot node slot) signal

def checkSlots (n : Node) : Except Fault Unit :=
  if n.slots.length = n.kind.slots.length then .ok ()
  else .error (.slotMismatch n.uid n.kind.slots.length n.slots.length)

def checkAxis (n : Node) (fixed : Option Dimension) : Except Fault Unit :=
  match n.kind, fixed with
  | .coordinate axis, some d =>
    if axis.index < d.count then .ok () else .error (.axisOutOfRange n.uid axis d.count)
  | _, _ => .ok ()

def helperOf (n : Node) : Except Fault (Option Worley.Helper) :=
  (n.kind.helper? n.uid).mapError (.emptyFormula n.uid)

/-- Looks for faults of the node in this order: its slots, its axis, its formulas, its
constants. -/
def emit (w : Wiring) (options : Options) (n : Node) : Except Fault Emission := do
  checkSlots n
  checkAxis n options.seedDimension
  let helper ← helperOf n
  let inputs ← n.slots.zipIdx.mapM fun (s, i) =>
    w.resolveSlot options.bindings n.uid i s.signal
  match n.kind.expression? n.uid options.seedName inputs with
  | some value => .ok ⟨⟨n.variableName, value⟩, helper⟩
  | none => .error (.slotMismatch n.uid n.kind.slots.length n.slots.length)

end Wiring

/-- The components of the seed position up to the one that a kind of node reads. -/
def Kind.seedComponents : Kind → Nat
  | coordinate axis => axis.index + 1
  | _ => 0

namespace Graph

/-- Plans the order, emits its nodes one after the other and resolves the output. Helpers are taken
as they come and not collected by node: the order names no node twice, so no two of them are for the
same node (`Graph.nodup_helpers`). -/
def compileWith (g : Graph) (options : Options) : Except Fault Program := do
  let w := g.wiring
  let plan ← w.plan g.output
  let nodes := plan.order.filterMap w.node?
  let emissions ← nodes.mapM (w.emit options)
  let value ← w.resolve .output g.output
  return {
    order := plan.order
    helpers := emissions.filterMap Emission.helper
    statements := emissions.map Emission.statement
    output := ⟨options.outputSymbol, value⟩
    seedComponents := nodes.foldl (fun count n => max count n.kind.seedComponents) 0
    diagnostics := plan.diagnostics ++ emissions.flatMap Emission.warnings }

/-- The program with the usual names and no parameters. -/
def compile (g : Graph) : Except Fault Program := g.compileWith {}

end Graph

namespace Program

/-- The declarations in order, the result last. -/
def declarations (p : Program) : List Shading.Declaration := p.statements ++ [p.output]

def lines (p : Program) : List String := p.declarations.map Shading.Declaration.render

def body (p : Program) : String := Shading.joinLines p.lines

def hasWarnings (p : Program) : Bool := p.diagnostics.any fun d => d.severity == .warning

end Program

end NoiseShader
