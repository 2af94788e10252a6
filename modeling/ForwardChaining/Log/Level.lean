import ForwardChaining.Text.CodePoint

/-!
# Log levels

A level is an integer: the higher, the more urgent. Five levels and the absence of one have names; any
other number is called by itself. A name is recognised in any mixture of small letters and capitals, and
two of the levels have a second name.
-/

namespace ForwardChaining

/-- How urgent a log record is. -/
abbrev Level := Int

namespace Level

/-- No level of its own. -/
def notSet : Level := 0
def debug : Level := 10
def info : Level := 20
def warning : Level := 30
def error : Level := 40
def critical : Level := 50

/-- The name of a level. -/
def name (level : Level) : String :=
  if level = critical then "CRITICAL"
  else if level = error then "ERROR"
  else if level = warning then "WARNING"
  else if level = info then "INFO"
  else if level = debug then "DEBUG"
  else if level = notSet then "NOTSET"
  else "Level " ++ toString level

/-- The names by which a level is known. -/
def names : List (String × Level) :=
  [("CRITICAL", critical), ("FATAL", critical), ("ERROR", error), ("WARN", warning),
   ("WARNING", warning), ("INFO", info), ("DEBUG", debug), ("NOTSET", notSet)]

/-- The ASCII capital of a letter. Outside ASCII the dotless i and the long s have one too. -/
def capital (c : Char) : Char :=
  if c = 'ı' then 'I' else if c = 'ſ' then 'S' else c.toUpper

/-- The level with a name. -/
def ofName? (s : CodeText) : Option Level :=
  (Text.characters? s).bind fun cs => names.lookup (String.ofList (cs.map capital))

end Level

end ForwardChaining
