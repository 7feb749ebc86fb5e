set_option autoImplicit false

/-! # Files

Files by the names that lead to them from the directory the program works in. Directories are
the ones that hold a file, those known to exist without one, and all that are above.
-/

namespace NoiseShader

inductive FileError
  | notFound
  | isDirectory
  | notDirectory
  | nameTooLong
  | nullInName
  | notText
deriving DecidableEq, Repr

def FileError.message : FileError → String
  | notFound => "No such file or directory (os error 2)"
  | isDirectory => "Is a directory (os error 21)"
  | notDirectory => "Not a directory (os error 20)"
  | nameTooLong => "File name too long (os error 36)"
  | nullInName => "file name contained an unexpected NUL byte"
  | notText => "stream did not contain valid UTF-8"

/-- The names on the way to a file. The way may begin with steps upward or at the root, and
has neither later on. -/
abbrev Location := List String

structure Files where
  entries : List (Location × List UInt8)
  /-- Directories that need hold no file. -/
  directories : List Location
deriving DecidableEq, Repr

namespace Path

/-- The name of the root. -/
def root : String := "/"

def up : String := ".."

def here : String := "."

/-- The names in a path. A slash in front stands for the root, others only stand between
names. -/
def names (path : String) : List String :=
  let found := ((path.toList.splitOn '/').map String.ofList).filter (· != "")
  if path.toList.head? == some '/' then root :: found else found

/-- Whether a location is where a way begins: here, above, or the root. -/
def isStart (location : Location) : Bool :=
  location.all fun name => name == up || name == root

/-- Where a name leads from a location. -/
def follow (location : Location) (name : String) : Location :=
  if name == here then location
  else if name != up then location ++ [name]
  else if location == [root] then location
  else if isStart location then location ++ [up]
  else location.dropLast

/-- Names have at most so many bytes. -/
def nameLimit : Nat := 255

/-- Paths have fewer bytes than this. -/
def pathLimit : Nat := 4096

/-- Whether only a directory can be at the path. -/
def ofDirectory (path : String) : Bool := path.toList.getLast? == some '/'

/-- The name that the path ends in, if it names anything new. -/
def last? (path : String) : Option String :=
  ((names path).filter (· != here)).getLast?.filter (· != up)

/-- What follows the last point of a name, unless the point begins the name. -/
def extension? (name : String) : Option String :=
  match (name.toList.splitOn '.').reverse with
  | last :: stem :: stems =>
    if stem.isEmpty && stems.isEmpty then none else some (String.ofList last)
  | _ => none

/-- Whether a graph is kept at this path as text. -/
def isText (path : String) : Bool :=
  ((last? path).bind extension?).any fun extension => extension.toLower == "ron"

end Path

namespace Files

def empty : Files := ⟨[], []⟩

/-- Some files, with the directories on the way to them. -/
def ofList (contents : List (String × List UInt8)) : Files :=
  ⟨contents.map fun (path, content) => (Path.names path, content), []⟩

def content? (files : Files) (location : Location) : Option (List UInt8) :=
  (files.entries.find? fun entry => entry.1 == location).map Prod.snd

def isDirectory (files : Files) (location : Location) : Bool :=
  Path.isStart location || files.directories.contains location ||
    files.entries.any fun entry => location.isPrefixOf entry.1 && location != entry.1

/-- From a directory to what it has under a name. -/
def enter (files : Files) (location : Location) (name : String) : Except FileError Location :=
  if files.isDirectory location then
    if Path.nameLimit < name.utf8ByteSize then .error .nameTooLong
    else .ok (Path.follow location name)
  else if (files.content? location).isSome then .error .notDirectory
  else .error .notFound

/-- Where a path leads; all but its last name have to be directories. The empty path stays
here. -/
def locate (files : Files) (path : String) : Except FileError Location :=
  if path.toList.contains '\x00' then .error .nullInName
  else if Path.pathLimit ≤ path.utf8ByteSize then .error .nameTooLong
  else (Path.names path).foldlM files.enter []

def read (files : Files) (path : String) : Except FileError (List UInt8) := do
  let location ← files.locate path
  if files.isDirectory location then .error .isDirectory
  else
    match files.content? location with
    | none => .error .notFound
    | some content => if Path.ofDirectory path then .error .notDirectory else .ok content

def readText (files : Files) (path : String) : Except FileError String := do
  let content ← files.read path
  match String.fromUTF8? ⟨content.toArray⟩ with
  | some text => .ok text
  | none => .error .notText

/-- The files with one of them new or replaced. -/
def put (files : Files) (location : Location) (content : List UInt8) : Files :=
  { files with
    entries := (files.entries.filter fun entry => entry.1 != location) ++ [(location, content)] }

def write (files : Files) (path : String) (content : List UInt8) : Except FileError Files := do
  let location ← files.locate path
  if files.isDirectory location || Path.ofDirectory path then .error .isDirectory
  else .ok (files.put location content)

def writeText (files : Files) (path : String) (text : String) : Except FileError Files :=
  files.write path text.toUTF8.data.toList

end Files

end NoiseShader
