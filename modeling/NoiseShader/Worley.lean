import NoiseShader.Formula
import NoiseShader.Noise

set_option autoImplicit false

/-! # Helper functions of cellular noise

A cellular noise node with formulas of its own calls a helper function that is generated for
it. The helper looks for the two nearest points among the cells around the sample, one loop
an axis, and keeps the two formulas in macros that end with it.
-/

namespace NoiseShader.Worley

/-! ## The cells around the sample -/

/-- The cells visited along an axis lie between these two offsets. -/
def firstOffset : Int := -1

def lastOffset : Int := 1

def axisOffsets : List Int := [-1, 0, 1]

def cellCount (d : Dimension) : Nat := Nat.pow axisOffsets.length d.count

def loopVariable : Axis → String
  | .x => "ox"
  | .y => "oy"
  | .z => "oz"

def loopVariables (d : Dimension) : List String := d.axes.map loopVariable

def loopHeader (variableName : String) : String :=
  "for (int " ++ variableName ++ " = " ++ toString firstOffset ++ "; " ++ variableName ++
    " <= " ++ toString lastOffset ++ "; " ++ variableName ++ "++)"

def loopHeaders (d : Dimension) : List String := (loopVariables d).map loopHeader

/-- The offsets of all cells, the first axis changing slowest; along an axis that the
dimension lacks they are zero. -/
def offsets (d : Dimension) : List (Int × Int × Int) :=
  let along := fun n => if n ≤ d.count then axisOffsets else [0]
  (along 1).flatMap fun x => (along 2).flatMap fun y => (along 3).map fun z => (x, y, z)

/-! ## The text of a helper -/

inductive Role
  | distance
  | combine
deriving DecidableEq, Repr

def Role.text : Role → String
  | distance => "distance"
  | combine => "combine"

/-- What is added to a cell before it is hashed, so that the axes differ. -/
def salt : Axis → String
  | .x => ""
  | .y => " + 17.31"
  | .z => " + 59.97"

def distanceMacro (uid : UID) : String := "WORLEY_DISTANCE_" ++ UID.text uid

def combineMacro (uid : UID) : String := "WORLEY_COMBINE_" ++ UID.text uid

def define (name body : String) : String := "#define " ++ name ++ "(a, b) (" ++ body ++ ")"

/-- A position written from the texts of its components. -/
def position (d : Dimension) (components : List String) : String :=
  String.intercalate ", "
    (Shading.Expr.renderAll (Shading.positionArguments d (components.map .atom)))

/-- The lines of the innermost loop, each with its depth below the loop. -/
def searchLines (uid : UID) (d : Dimension) : List (Nat × String) :=
  let vector := d.typeName
  let jitter := d.axes.map fun axis =>
    NoiseFamily.white.primitive d ++ "(neighbor" ++ salt axis ++ ")"
  [(0, vector ++ " neighbor = cell + " ++ position d (loopVariables d) ++ ";"),
  (0, vector ++ " jitter = " ++ position d jitter ++ ";"),
  (0, vector ++ " site = neighbor + 0.5 + (jitter - 0.5) * variance;"),
  (0, "float d = " ++ distanceMacro uid ++ "(p, site);"),
  (0, "if (d < nearest)"),
  (0, "\x7b"),
  (1, "second = nearest;"),
  (1, "nearest = d;"),
  (0, "\x7d"),
  (0, "else if (d < second)"),
  (0, "\x7b"),
  (1, "second = d;"),
  (0, "\x7d")]

/-- One block inside the other for each header, around the innermost lines. -/
def nest (depth : Nat) (inner : List (Nat × String)) : List String → List String
  | [] => inner.map fun (below, text) => Shading.indented (depth + below) text
  | header :: headers =>
    Shading.indented depth header :: Shading.indented depth "\x7b" ::
      (nest (depth + 1) inner headers ++ [Shading.indented depth "\x7d"])

/-- The function of a helper and the lines that end its macros. -/
def functionLines (uid : UID) (d : Dimension) : List String :=
  let vector := d.typeName
  ["float " ++ Noise.helperName uid ++ "(" ++ vector ++ " p, " ++ vector ++ " variance)",
  "\x7b",
  Shading.indented 1 (vector ++ " cell = floor(p);"),
  Shading.indented 1 "float nearest = 1e30;",
  Shading.indented 1 "float second = 1e30;"] ++
  nest 1 (searchLines uid d) (loopHeaders d) ++
  [Shading.indented 1 ("return " ++ combineMacro uid ++ "(nearest, second);"),
  "\x7d",
  "#undef " ++ distanceMacro uid,
  "#undef " ++ combineMacro uid]

/-! ## Helpers -/

/-- A formula made ready for its macro. -/
structure MacroBody where
  text : String
  warnings : List String
deriving DecidableEq, Repr

def neitherOperand (uid : UID) (role : Role) (flat : String) : String :=
  "Worley node " ++ UID.text uid ++ ": " ++ role.text ++ " formula `" ++ flat ++
    "` references neither $1 nor $2"

/-- The formula over the macro's operands, with a warning if it uses neither; nothing if the
formula is blank. -/
def macroBody? (uid : UID) (role : Role) (formula : String) : Option MacroBody :=
  let flat := Formula.flatten formula
  if flat.isEmpty then none
  else
    let expansion := Formula.expand flat "(a)" "(b)"
    some ⟨expansion.text, if expansion.isConstant then [neitherOperand uid role flat] else []⟩

structure Helper where
  node : UID
  lines : List String
  warnings : List String
deriving DecidableEq, Repr

def Helper.text (h : Helper) : String := Shading.joinLines h.lines

/-- The helper of a node, or which formula is blank. -/
def helper (uid : UID) (d : Dimension) (formulas : CellFormulas) : Except Role Helper :=
  match macroBody? uid .distance formulas.distance with
  | none => .error .distance
  | some distance =>
    match macroBody? uid .combine formulas.combine with
    | none => .error .combine
    | some combine =>
      .ok {
        node := uid
        lines := define (distanceMacro uid) distance.text ::
          define (combineMacro uid) combine.text :: functionLines uid d
        warnings := distance.warnings ++ combine.warnings }

end NoiseShader.Worley
