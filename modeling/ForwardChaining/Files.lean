import ForwardChaining.Files.Path
import ForwardChaining.Text.Quoted
import ForwardChaining.Text.Utf8

/-!
# Files

The files that a run can see are a value: which places under the root of all directories hold a directory,
which hold a file, with its bytes, and which a device. A spelling leads to a place name by name; each step
but the last must arrive at a directory. What cannot be done is refused with the fault and the spelling that
was given.

Nothing is read from a device, and nothing that is written to one is kept.
-/

namespace ForwardChaining

/-- Where a device takes what is written to it: nowhere, or to the output or the diagnostics of the run. -/
inductive Device where
  | sink
  | output
  | diagnostics
deriving DecidableEq

/-- What a place holds. -/
inductive Item where
  | directory
  | file (bytes : List UInt8)
  | device (d : Device)
deriving DecidableEq

/-- Why something cannot be done with a place. -/
inductive FileFault where
  | noEntry
  | alreadyThere
  | notDirectory
  | isDirectory
  | nameTooLong
  | nullCharacter
deriving DecidableEq

/-- A fault and the spelling that led to it. -/
structure FileError where
  fault : FileFault
  name : String

/-- The number and the words of a fault. -/
def FileFault.words : FileFault → String
  | noEntry => "[Errno 2] No such file or directory"
  | alreadyThere => "[Errno 17] File exists"
  | notDirectory => "[Errno 20] Not a directory"
  | isDirectory => "[Errno 21] Is a directory"
  | nameTooLong => "[Errno 36] File name too long"
  | nullCharacter => "embedded null byte"

/-- The message of an error. -/
def FileError.message (e : FileError) : String :=
  if e.fault = .nullCharacter then e.fault.words else e.fault.words ++ ": " ++ Text.quote e.name

/-- The names that lead from the root to a place. -/
abbrev Location := List String

/-- Directories, files and devices. The root is always a directory. The user's directory may be unknown. -/
structure Files where
  items : List (Location × Item) := []
  workingDirectory : Location := []
  home : Option Files.Path := some { fromRoot := true, names := [] }

namespace Files

/-- What a place holds. -/
def item? (fs : Files) (place : Location) : Option Item :=
  if place = [] then some .directory else fs.items.lookup place

/-- The files with something put in a place. -/
def put (fs : Files) (place : Location) (item : Item) : Files :=
  { fs with items := (place, item) :: fs.items.filter fun entry => entry.1 ≠ place }

/-- The files with nothing in a place. -/
def drop (fs : Files) (place : Location) : Files :=
  { fs with items := fs.items.filter fun entry => entry.1 ≠ place }

/-- The place that names lead to from a place. -/
def walk (fs : Files) (place : Location) : List String → Except FileFault Location
  | [] => .ok place
  | name :: rest =>
    match fs.item? place with
    | none => .error .noEntry
    | some (.file _) | some (.device _) => .error .notDirectory
    | some .directory =>
      if name.utf8ByteSize > 255 then .error .nameTooLong
      else if name = "" ∨ name = "." then walk fs place rest
      else if name = ".." then walk fs place.dropLast rest
      else walk fs (place ++ [name]) rest

/-- The number of bytes that no spelling reaches. -/
def longestSpelling : Nat := 4096

/-- The place that a spelling leads to. -/
def locate (fs : Files) (spelling : String) : Except FileError Location :=
  let refuse (fault : FileFault) : FileError := { fault, name := spelling }
  if spelling = "" then .error (refuse .noEntry)
  else if '\x00' ∈ spelling.toList then .error (refuse .nullCharacter)
  else if longestSpelling ≤ spelling.utf8ByteSize then .error (refuse .nameTooLong)
  else
    let names := (Path.slashParts spelling.toList).map String.ofList
    let start := if spelling.toList.head? = some '/' then [] else fs.workingDirectory
    (fs.walk start names).mapError refuse

/-- Whether a spelling leads to something. -/
def isThere (fs : Files) (spelling : String) : Bool :=
  match fs.locate spelling with
  | .ok place => (fs.item? place).isSome
  | .error _ => false

/-- Whether a spelling leads to something; a name that is too long is refused. -/
def check (fs : Files) (spelling : String) : Except FileError Bool :=
  match fs.locate spelling with
  | .ok place => .ok (fs.item? place).isSome
  | .error e => if e.fault = .nameTooLong then .error e else .ok false

/-- The device that a spelling leads to. -/
def device? (fs : Files) (spelling : String) : Option Device :=
  match fs.locate spelling with
  | .ok place => match fs.item? place with
    | some (.device d) => some d
    | _ => none
  | .error _ => none

/-- The bytes of a file. -/
def read (fs : Files) (spelling : String) : Except FileError (List UInt8) :=
  (fs.locate spelling).bind fun place =>
    match fs.item? place with
    | some (.file bytes) => .ok bytes
    | some (.device _) => .ok []
    | some .directory => .error { fault := .isDirectory, name := spelling }
    | none => .error { fault := .noEntry, name := spelling }

/-- The files with the bytes of one replaced by what `change` makes of them; a new file has none
before. -/
def revise (fs : Files) (spelling : String) (change : List UInt8 → List UInt8) : Except FileError Files :=
  (fs.locate spelling).bind fun place =>
    match fs.item? place with
    | some (.file bytes) => .ok (fs.put place (.file (change bytes)))
    | some (.device _) => .ok fs
    | some .directory => .error { fault := .isDirectory, name := spelling }
    | none => .ok (fs.put place (.file (change [])))

/-- The files with one written. -/
def write (fs : Files) (spelling : String) (bytes : List UInt8) : Except FileError Files :=
  fs.revise spelling fun _ => bytes

/-- The files with bytes added at the end of one. -/
def append (fs : Files) (spelling : String) (bytes : List UInt8) : Except FileError Files :=
  fs.revise spelling (· ++ bytes)

/-- The files without a file or a device. -/
def remove (fs : Files) (spelling : String) : Except FileError Files :=
  (fs.locate spelling).bind fun place =>
    match fs.item? place with
    | some .directory => .error { fault := .isDirectory, name := spelling }
    | some _ => .ok (fs.drop place)
    | none => .error { fault := .noEntry, name := spelling }

/-- The files with a directory, and all that is in it, in another place. -/
def moveTree (fs : Files) (place target : Location) : Files :=
  { fs with items := fs.items.map fun (p, item) =>
      (if place.isPrefixOf p then target ++ p.drop place.length else p, item) }

/-- The files with something moved to where nothing is. -/
def rename (fs : Files) (source target : String) : Except FileError Files :=
  (fs.locate source).bind fun place =>
    (fs.locate target).bind fun goal =>
      match fs.item? place, fs.item? goal with
      | none, _ => .error { fault := .noEntry, name := source }
      | some _, some _ => .error { fault := .alreadyThere, name := target }
      | some .directory, none => .ok (fs.moveTree place goal)
      | some item, none => .ok ((fs.drop place).put goal item)

/-- The files with a directory made in a place where nothing is. -/
def makeDirectory (fs : Files) (spelling : String) : Except FileError Files :=
  (fs.locate spelling).bind fun place =>
    match fs.item? place with
    | some _ => .error { fault := .alreadyThere, name := spelling }
    | none => .ok (fs.put place .directory)

/-- Whether a spelling leads to a directory. -/
def isDirectory (fs : Files) (spelling : String) : Bool :=
  match fs.locate spelling with
  | .ok place => match fs.item? place with
    | some .directory => true
    | _ => false
  | .error _ => false

/-- The files with a directory made, unless one is there already; `above` makes those above it where they are
missing. -/
def makeDirectoryIn (fs : Files) (spelling : String) (above : FileError → Except FileError Files) :
    Except FileError Files :=
  match fs.makeDirectory spelling with
  | .ok fs => .ok fs
  | .error e =>
    if e.fault = .noEntry then above e else if fs.isDirectory spelling then .ok fs else .error e

/-- The files with a directory and all those above it made, unless they are there already. `names` counts
the names of the path. -/
def makeDirectoriesAt (fs : Files) (path : Path) : Nat → Except FileError Files
  | 0 => .ok fs
  | names + 1 =>
    fs.makeDirectoryIn path.text fun _ =>
      (fs.makeDirectoriesAt path.parent names).bind fun fs' => fs'.makeDirectoryIn path.text .error

/-- The files with a directory and all those above it made, unless they are there already. -/
def makeDirectories (fs : Files) (path : Path) : Except FileError Files :=
  fs.makeDirectoriesAt path path.names.length

/-- The spelling of a path from the root on, without detours. -/
def fullText (fs : Files) (path : Path) : String :=
  let start := if path.fromRoot then [] else fs.workingDirectory
  let names := path.names.foldl (fun found name => if name = ".." then found.dropLast else found ++ [name]) start
  Path.text { path with fromRoot := true, names }

end Files

end ForwardChaining
