import ForwardChaining.Json.Writer
import ForwardChaining.Log.Record

/-!
# Layouts of log records

A record is written in one of two layouts. The one for readers is a line with the time, the logger, the
level and the message. The one for programs is an object of JSON on a line of its own: what every record
has, an error if one came with it, and then the fields of the record, which may replace what stands
before them.
-/

namespace ForwardChaining.Log

/-- A moment as it is written in either layout. -/
structure Stamp where
  plain : String
  iso : String

/-- Where a record was made. -/
structure Origin where
  moduleName : CodeText
  function : Option CodeText := none
  line : Int := 0

/-- An error that came with a record: the lines that tell where it was raised and what it followed from, its kind
and its message. -/
structure Exception where
  trace : CodeText := []
  kind : CodeText
  message : CodeText

/-- An error as it is written: behind the lines of its trace its kind, and its message if it has one. -/
def Exception.text (e : Exception) : CodeText :=
  e.trace ++ e.kind ++ (if e.message = [] then [] else (": " : CodeText) ++ e.message)

/-- The name of the module at a path: the last name of the path without its last suffix. Points at the
beginning of a name begin no suffix. -/
def moduleOf (path : CodeText) : CodeText :=
  let point : CodePoint := .char '.'
  let name := (path.reverse.takeWhile (· ≠ .char '/')).reverse
  let before := (name.reverse.dropWhile (· ≠ point)).drop 1 |>.reverse
  if before.all (· = point) then name else before

/-- The origin of a record from this library: its logger's own module. -/
def Origin.ofLogger (logger : CodeText) : Origin :=
  { moduleName := (logger.reverse.takeWhile (· ≠ .char '.')).reverse }

/-- The line for readers. -/
def readerLine (stamp : Stamp) (r : Record) : CodeText :=
  let dash : CodeText := " - "
  Text.codes stamp.plain ++ dash ++ r.logger ++ dash ++ Text.codes r.level.name ++ dash ++ r.message

/-- What every record has. -/
def baseFields (stamp : Stamp) (origin : Origin) (r : Record) : List (CodeText × Datum) :=
  [("timestamp", .text stamp.iso), ("level", .text r.level.name), ("logger", .text r.logger),
   ("message", .text r.message), ("module", .text origin.moduleName),
   ("function", match origin.function with
    | some function => .text function
    | none => .null),
   ("line", .int origin.line)]

/-- The entries of the object for programs. -/
def entries (stamp : Stamp) (origin : Origin) (exception : Option Exception) (r : Record) :
    List (CodeText × Datum) :=
  let base := baseFields stamp origin r ++ (match exception with
    | some e => [(Text.codes "exception", Datum.text e.text)]
    | none => [])
  r.fields.foldl (fun found (key, x) => Datum.put found key x.plain) base

/-- The line for programs. -/
def programLine (stamp : Stamp) (origin : Origin) (exception : Option Exception) (r : Record) : String :=
  Json.plain (.map (entries stamp origin exception r))

end ForwardChaining.Log
