import ForwardChaining.Content
import ForwardChaining.Log.LogFile

/-!
# Libraries

YAML is read and written by a library, and so are the words chosen in which the libraries report what they
refuse. The program relies on them and does not look inside: it is the same for every one of them.
-/

namespace ForwardChaining

/-- What the program leaves to others. -/
structure Libraries where
  /-- What a YAML text holds, or the message about one that holds nothing well-formed. -/
  readYaml : List Char → Except String Content
  /-- The YAML text of something. -/
  writeYaml : Content → String
  /-- The message about a text that is not JSON. -/
  jsonError : List Char → String
  /-- The message about something of a shape that no settings have. -/
  shapeError : Content → String
  /-- The message about a file name with surrogates. -/
  nameError : CodeText → String
  /-- What is printed where a line is lost on the way to the log file. -/
  logError : LogError → String

end ForwardChaining
