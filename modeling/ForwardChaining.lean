import ForwardChaining.Main
import ForwardChaining.CommandLine.Run
import ForwardChaining.CommandLine.Options
import ForwardChaining.Log.Template
import ForwardChaining.Settings.Session
import ForwardChaining.Log.Setup
import ForwardChaining.Log.Time
import ForwardChaining.Files
import ForwardChaining.Settings
import ForwardChaining.Text.Utf8
import ForwardChaining.Files.Path
import ForwardChaining.Yaml.Library
import ForwardChaining.Yaml.Writer
import ForwardChaining.Yaml.Reader
import ForwardChaining.Yaml.Token
import ForwardChaining.Yaml.Scalar
import ForwardChaining.Libraries
import ForwardChaining.Content
import ForwardChaining.Text.CodePoint
import ForwardChaining.Log.LogFile
import ForwardChaining.Engine.Request
import ForwardChaining.Json.Reader
import ForwardChaining.Json.Writer
import ForwardChaining.Proofs.Value
import ForwardChaining.Proofs.Term
import ForwardChaining.Proofs.Substitution.Acyclic
import ForwardChaining.Proofs.Substitution.Application
import ForwardChaining.Proofs.Substitution.Solution
import ForwardChaining.Proofs.Unification.Meeting
import ForwardChaining.Proofs.Unbounded.Unification
import ForwardChaining.Proofs.Unification.Growth
import ForwardChaining.Proofs.Unification.MostGeneral
import ForwardChaining.Proofs.Unification.Termination
import ForwardChaining.Proofs.Atom
import ForwardChaining.Proofs.Roster
import ForwardChaining.Proofs.Sorting
import ForwardChaining.Proofs.Matching
import ForwardChaining.Proofs.Instances
import ForwardChaining.Proofs.Derivation
import ForwardChaining.Proofs.Saturation.Pass
import ForwardChaining.Proofs.Saturation.Stages
import ForwardChaining.Proofs.Unbounded.Saturation
import ForwardChaining.Proofs.Saturation.Termination
import ForwardChaining.Proofs.Saturation.LeastModel
import ForwardChaining.Proofs.Saturation.Order
import ForwardChaining.Proofs.Saturation.Monotone
import ForwardChaining.Proofs.Saturation.Resumption
import ForwardChaining.Proofs.Engine.Stores
import ForwardChaining.Proofs.Unbounded.Notation
import ForwardChaining.Proofs.Notation.Grammar
import ForwardChaining.Proofs.Notation.Descent
import ForwardChaining.Proofs.Notation.Acceptance
import ForwardChaining.Proofs.Notation.Display
import ForwardChaining.Proofs.Notation.Program
import ForwardChaining.Proofs.Engine.History
import ForwardChaining.Proofs.CommandLine.Endings
import ForwardChaining.Proofs.Findings
import ForwardChaining.Proofs.Unification.Simultaneous
import ForwardChaining.Proofs.Subterms
import ForwardChaining.Proofs.Saturation.Flat
import ForwardChaining.Proofs.Files
import ForwardChaining.Proofs.Logging
import ForwardChaining.Proofs.Written
import ForwardChaining.Proofs.CommandLine.Report
import ForwardChaining.Proofs.CommandLine.Listing
import ForwardChaining.Proofs.Unbounded.Reports
import ForwardChaining.Proofs.Unification.Frame
import ForwardChaining.Proofs.Search
import ForwardChaining.Proofs.DeadRules
import ForwardChaining.Proofs.Substitution.Composition
import ForwardChaining.Proofs.Substitution.Equality
import ForwardChaining.Proofs.Substitution.Occurrence
import ForwardChaining.Proofs.Unification.Equality
import ForwardChaining.Proofs.Notation.Lexemes
import ForwardChaining.Proofs.Notation.Spacing
import ForwardChaining.Proofs.Notation.Prefixes
import ForwardChaining.Proofs.Notation.Quotation
import ForwardChaining.Proofs.Notation.LineByLine
import ForwardChaining.Proofs.Session
import ForwardChaining.Proofs.Text.Ascii
import ForwardChaining.Proofs.Number.Rounding
import ForwardChaining.Proofs.Number.Numeral
import ForwardChaining.Proofs.Datum
import ForwardChaining.Proofs.Json.Quoted
import ForwardChaining.Proofs.Json.Reading
import ForwardChaining.Proofs.Json.Ascii
import ForwardChaining.Proofs.Log.ProgramLine
import ForwardChaining.Proofs.Settings.Given
import ForwardChaining.Proofs.Settings.Saving
import ForwardChaining.Proofs.Log.LogFile
