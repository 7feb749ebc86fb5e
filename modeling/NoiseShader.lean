import NoiseShader.Binary32
import NoiseShader.CommandLine.Command
import NoiseShader.CommandLine.Run
import NoiseShader.Decimal
import NoiseShader.Decimal.Layout
import NoiseShader.Decimal.Shortest
import NoiseShader.Dimension
import NoiseShader.Document
import NoiseShader.Document.Bytes
import NoiseShader.Document.Text
import NoiseShader.Files
import NoiseShader.Formula
import NoiseShader.Graph
import NoiseShader.Graph.Cycle
import NoiseShader.Graph.Order
import NoiseShader.Graph.Reach
import NoiseShader.Graph.Wiring
import NoiseShader.Kind
import NoiseShader.Main
import NoiseShader.Manifest
import NoiseShader.Node
import NoiseShader.Noise
import NoiseShader.ObjectText.Content
import NoiseShader.ObjectText.Number
import NoiseShader.ObjectText.Reader
import NoiseShader.ObjectText.Record
import NoiseShader.ObjectText.Token
import NoiseShader.ObjectText.Value
import NoiseShader.ObjectText.Writer
import NoiseShader.Operation
import NoiseShader.Parameter
import NoiseShader.Plan
import NoiseShader.Program
import NoiseShader.Proofs.Attempt
import NoiseShader.Proofs.Compilation
import NoiseShader.Proofs.Decimal.Nearest
import NoiseShader.Proofs.Decimal.Shortest
import NoiseShader.Proofs.Denotation
import NoiseShader.Proofs.Document.Bytes
import NoiseShader.Proofs.Document.Graph
import NoiseShader.Proofs.Document.Text
import NoiseShader.Proofs.Emission
import NoiseShader.Proofs.Exposure
import NoiseShader.Proofs.Graph.Cycle
import NoiseShader.Proofs.Graph.History
import NoiseShader.Proofs.Graph.Invariant
import NoiseShader.Proofs.Graph.Order
import NoiseShader.Proofs.Graph.Reach
import NoiseShader.Proofs.Graph.References
import NoiseShader.Proofs.Meaning
import NoiseShader.Proofs.Name
import NoiseShader.Proofs.ObjectText.Number
import NoiseShader.Proofs.ObjectText.Reading
import NoiseShader.Proofs.ObjectText.Token
import NoiseShader.Proofs.Parameter
import NoiseShader.Proofs.Plan
import NoiseShader.Proofs.Representation
import NoiseShader.Proofs.Shading.Literal
import NoiseShader.Proofs.Shading.Parser
import NoiseShader.Proofs.Shading.Reading
import NoiseShader.Proofs.Shading.Semantics
import NoiseShader.Settings
import NoiseShader.Settings.Text
import NoiseShader.ShaderFile
import NoiseShader.Shading.Expr
import NoiseShader.Signal
import NoiseShader.Slot
import NoiseShader.Storage
import NoiseShader.Text.Blank
import NoiseShader.Text.Hidden
import NoiseShader.Text.Quoted
import NoiseShader.Text.Ranges
import NoiseShader.Text.Terminal
import NoiseShader.Text.Word
import NoiseShader.Worley
import NoiseShader.Proofs.InsertionOrder
import NoiseShader.Proofs.DeadNodes
import NoiseShader.Proofs.Label
import NoiseShader.Proofs.Occurrence
import NoiseShader.Proofs.Namespace
import NoiseShader.Proofs.Helper
import NoiseShader.Proofs.Closure
import NoiseShader.Proofs.Removal
import NoiseShader.Proofs.RemovalOrder
import NoiseShader.Proofs.Graph.Counting
import NoiseShader.Proofs.Graph.LeastOrder
import NoiseShader.Proofs.LineStructure
import NoiseShader.Proofs.Locality
import NoiseShader.Proofs.Payload
import NoiseShader.Proofs.Files
import NoiseShader.Proofs.ObjectText.Size
import NoiseShader.Proofs.Document.Size
import NoiseShader.Proofs.Storage
import NoiseShader.Proofs.Conversion
import NoiseShader.Proofs.Document.Acceptance
import NoiseShader.Proofs.Extraction
import NoiseShader.Proofs.Detachment
import NoiseShader.Proofs.Confinement
import NoiseShader.Proofs.Reshaping
import NoiseShader.Proofs.Diagnostics
import NoiseShader.Proofs.Settings.Text
import NoiseShader.Proofs.Effects
import NoiseShader.Proofs.ConfiguredNames
import NoiseShader.Proofs.Substitution
import NoiseShader.Proofs.Graph.LeastClosure
import NoiseShader.Proofs.LineEnds
import NoiseShader.Proofs.Decimal.Fewest
import NoiseShader.Proofs.Shading.ExactLiteral
