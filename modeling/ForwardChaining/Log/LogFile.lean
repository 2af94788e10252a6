import ForwardChaining.Files
import ForwardChaining.Text.CodePoint

/-!
# The log file

Lines are written to the end of a log file. Before a line that would fill it up the file is renamed, and an
empty one takes its place. Five older generations of the file are kept, each with its number behind the name;
when the file is renamed each of them becomes the next older one, and the oldest goes. What is no file is
never renamed.

What fails on the way is told together with the files as they are by then. The line is lost.
-/

namespace ForwardChaining

/-- Why a line cannot be written to the log file. -/
inductive LogError where
  | file (e : FileError)
  /-- The line holds surrogates, which have no bytes. -/
  | encoding (line : CodeText)

namespace LogFile

/-- The number of bytes that a log file does not reach. -/
def capacity : Nat := 10 * 1024 * 1024

/-- The number of older generations. -/
def backupCount : Nat := 5

/-- The spelling of a generation of the log file, the present one being the youngest. -/
def generation (name : String) : Nat → String
  | 0 => name
  | n + 1 => name ++ "." ++ toString (n + 1)

/-- The files that an attempt leaves, or what went wrong and the files as they are then. -/
abbrev Attempt := Except (LogError × Files) Files

/-- An operation on the files, which leaves them as they are where it fails. -/
def attempt (fs : Files) (outcome : Except FileError Files) : Attempt := outcome.mapError fun e => (.file e, fs)

/-- The files with something moved to where something else may be, which goes. -/
def supersede (fs : Files) (source target : String) : Attempt :=
  (if fs.isThere target then attempt fs (fs.remove target) else .ok fs).bind fun fs =>
    attempt fs (fs.rename source target)

/-- The files with the youngest `count` generations made one older each, from the oldest of them on. -/
def age (fs : Files) (name : String) : Nat → Attempt
  | 0 => .ok fs
  | n + 1 =>
    (if fs.isThere (generation name n) then supersede fs (generation name n) (generation name (n + 1))
      else .ok fs).bind fun fs => age fs name n

/-- The files with an empty log file in the place of the present one. -/
def rotate (fs : Files) (name : String) : Attempt :=
  (age fs name backupCount).bind fun fs => attempt fs (fs.append name [])

/-- Whether a line would fill up the log file. -/
def isFull (fs : Files) (name : String) (line : CodeText) : Bool :=
  match fs.locate name with
  | .error _ => false
  | .ok place =>
    match fs.item? place with
    | some (.file bytes) => capacity ≤ bytes.length + (line.length + 1)
    | some _ => false
    | none => capacity ≤ line.length + 1

/-- The files with a line at the end of the log file. -/
def write (fs : Files) (name : String) (line : CodeText) : Attempt :=
  (if isFull fs name line then rotate fs name else .ok fs).bind fun fs =>
    match Text.string? line with
    | none => .error (.encoding line, fs)
    | some s => attempt fs (fs.append name (Text.encode (s ++ "\n")))

end LogFile

end ForwardChaining
