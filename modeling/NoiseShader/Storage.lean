import NoiseShader.Document.Bytes
import NoiseShader.Document.Text
import NoiseShader.Files
import NoiseShader.Settings.Text

set_option autoImplicit false

/-! # Storing graphs and settings

A graph is kept as text where the path says so, and as bytes elsewhere.
-/

namespace NoiseShader

/-- Why a graph could not be loaded. -/
inductive LoadError
  | file (error : FileError)
  | badText
  | badBytes
  | document (error : DocumentError)
deriving DecidableEq, Repr

def LoadError.message : LoadError → String
  | file error => "I/O error: " ++ error.message
  | badText => "RON parse error"
  | badBytes => "Binary format error"
  | document error => error.message

/-- Why settings could not be loaded. -/
inductive SettingsError
  | file (error : FileError)
  | badText
deriving DecidableEq, Repr

def SettingsError.message : SettingsError → String
  | file error => "Config I/O error: " ++ error.message
  | badText => "Config parse error"

namespace Graph

def toText (g : Graph) : String := Document.Text.write g.document

def toBytes (g : Graph) : List UInt8 := Document.Bytes.encode g.document

def ofDocument (d : Document) : Except LoadError Graph := d.graph.mapError .document

def ofText (text : String) : Except LoadError Graph :=
  match Document.Text.read? text with
  | none => .error .badText
  | some d => ofDocument d

def ofBytes (bytes : List UInt8) : Except LoadError Graph :=
  match Document.Bytes.decode bytes with
  | none => .error .badBytes
  | some (d, _) => ofDocument d

def load (files : Files) (path : String) : Except LoadError Graph :=
  if Path.isText path then
    match files.readText path with
    | .error e => .error (.file e)
    | .ok text => ofText text
  else
    match files.read path with
    | .error e => .error (.file e)
    | .ok bytes => ofBytes bytes

def save (g : Graph) (files : Files) (path : String) : Except LoadError Files :=
  (if Path.isText path then files.writeText path g.toText
    else files.write path g.toBytes).mapError .file

end Graph

namespace Settings

def toText (s : Settings) : String := Text.write s

def ofText (text : String) : Except SettingsError Settings :=
  match Text.read? text with
  | none => .error .badText
  | some s => .ok s

def load (files : Files) (path : String) : Except SettingsError Settings :=
  match files.readText path with
  | .error e => .error (.file e)
  | .ok text => ofText text

end Settings

end NoiseShader
