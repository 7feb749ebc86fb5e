import NoiseShader.CommandLine.Run

set_option autoImplicit false

/-! # The program

Takes in the files that the arguments name, runs the command on them and writes back those
that it changed.
-/

namespace NoiseShader.CommandLine

/-- The path to a location. -/
def pathOf : Location → String
  | [] => Path.here
  | first :: rest =>
    if first == Path.root then first ++ String.intercalate "/" rest
    else String.intercalate "/" (first :: rest)

/-- Every location on the way to the end of a path. -/
def locations (path : String) : List Location :=
  (List.range ((Path.names path).length + 1)).map fun n =>
    ((Path.names path).take n).foldl Path.follow []

/-- Adds the file or directory at a location, if there is one. -/
def takeIn (files : Files) (location : Location) : IO Files := do
  if !files.isDirectory location.dropLast then return files
  match ← (IO.FS.readBinFile (pathOf location)).toBaseIO with
  | .ok content => return files.put location content.data.toList
  | .error (.inappropriateType ..) =>
    return { files with directories := location :: files.directories }
  | .error _ => return files

/-- Writes the files that are new or changed. -/
def writeBack (before after : Files) : IO Unit :=
  after.entries.forM fun (location, content) => do
    if before.content? location != some content then
      IO.FS.writeBinFile (pathOf location) ⟨content.toArray⟩

def usage : String := "Usage: noisegraph <compile|params|convert|demo> [OPTIONS] [PATH]"

end NoiseShader.CommandLine

open NoiseShader NoiseShader.CommandLine in
def main (arguments : List String) : IO UInt32 := do
  match parse? arguments with
  | none =>
    IO.eprintln usage
    return 2
  | some command =>
    let files ← (command.paths.flatMap locations).foldlM takeIn Files.empty
    let outcome := command.run files
    writeBack files outcome.files
    IO.print outcome.printed
    outcome.log.forM fun line => IO.eprintln line.text
    return outcome.exit.toUInt32
