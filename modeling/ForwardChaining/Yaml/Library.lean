import ForwardChaining.Libraries
import ForwardChaining.Yaml.Reader
import ForwardChaining.Yaml.Writer

/-!
# The libraries of the program as it is run

A reader and a writer of YAML for running the program. The reader knows the documents that hold plain data and
moments; sets, binary data and lists that hold themselves are unreadable to it. The words are its own.
-/

namespace ForwardChaining.Yaml

/-- The libraries that the program is run with. -/
def library : Libraries where
  readYaml text := match read? text with
    | some c => .ok c
    | none => .error "not a YAML document"
  writeYaml := write
  jsonError _ := "not a JSON text"
  shapeError _ := "not a configuration"
  nameError name := "surrogates not allowed in " ++ Text.quoteCodes name
  logError _ := "--- Logging error ---"

end ForwardChaining.Yaml
