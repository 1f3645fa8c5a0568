import AddonAudit.Archive.Checksum
import AddonAudit.Archive.Inflate
import AddonAudit.Archive.Zip
import AddonAudit.Audit
import AddonAudit.Audit.Detection
import AddonAudit.Audit.Layout
import AddonAudit.Audit.Registration
import AddonAudit.Bundle
import AddonAudit.Check.Battery
import AddonAudit.Check.Location
import AddonAudit.Check.Markup
import AddonAudit.Check.Stylesheet
import AddonAudit.CommandLine.Arguments
import AddonAudit.CommandLine.Run
import AddonAudit.CommandLine.Settings
import AddonAudit.Config
import AddonAudit.Config.Json
import AddonAudit.Config.Yaml
import AddonAudit.Dict
import AddonAudit.FileTree
import AddonAudit.Finding
import AddonAudit.Glob
import AddonAudit.Json
import AddonAudit.Json.Printer
import AddonAudit.Json.Reader
import AddonAudit.Main
import AddonAudit.Manifest.Chrome
import AddonAudit.Manifest.Install
import AddonAudit.Manifest.Rdf
import AddonAudit.MessageTree
import AddonAudit.Number.Double
import AddonAudit.Number.Power
import AddonAudit.Number.Shortest
import AddonAudit.Number.Text
import AddonAudit.Package
import AddonAudit.Pattern
import AddonAudit.Proofs.Bundle
import AddonAudit.Proofs.Dict
import AddonAudit.Proofs.MessageTree
import AddonAudit.Report.Data
import AddonAudit.Report.Terminal
import AddonAudit.Script.Analysis
import AddonAudit.Script.Catalogue
import AddonAudit.Script.Engine.Access
import AddonAudit.Script.Engine.Expression
import AddonAudit.Script.Engine.Hook
import AddonAudit.Script.Engine.Literal
import AddonAudit.Script.Engine.Run
import AddonAudit.Script.Engine.State
import AddonAudit.Script.Engine.Statement
import AddonAudit.Script.Engine.Target
import AddonAudit.Script.Escape
import AddonAudit.Script.Heap
import AddonAudit.Script.Kind
import AddonAudit.Script.Node
import AddonAudit.Script.Operator
import AddonAudit.Script.Preference
import AddonAudit.Script.Reader
import AddonAudit.Script.Reader.Cover
import AddonAudit.Script.Reader.Expression
import AddonAudit.Script.Reader.Function
import AddonAudit.Script.Reader.Input
import AddonAudit.Script.Reader.Lexical
import AddonAudit.Script.Reader.Literal
import AddonAudit.Script.Reader.Markup
import AddonAudit.Script.Reader.Statement
import AddonAudit.Script.Registry
import AddonAudit.Script.Rule
import AddonAudit.Script.Value
import AddonAudit.Session
import AddonAudit.Text.Blank
import AddonAudit.Text.Case
import AddonAudit.Text.Lines
import AddonAudit.Text.Path
import AddonAudit.Text.Quoted
import AddonAudit.Text.Replace
import AddonAudit.Text.Search
import AddonAudit.Text.Slice
import AddonAudit.Text.Utf8
import AddonAudit.Text.Word
import AddonAudit.Version
import AddonAudit.Xml.Document
import AddonAudit.Xml.Error
import AddonAudit.Xml.Token
import AddonAudit.Yaml.Node
import AddonAudit.Yaml.Reader
import AddonAudit.Yaml.Scalar
import AddonAudit.Proofs.Ledger
import AddonAudit.Proofs.Alike
import AddonAudit.Proofs.Engine.Access
import AddonAudit.Proofs.Engine.AppendOnly
import AddonAudit.Proofs.Engine.Balance
import AddonAudit.Proofs.Engine.Lag
import AddonAudit.Proofs.Engine.NestedChain
import AddonAudit.Proofs.Engine.Kept
import AddonAudit.Proofs.Engine.Rerun
import AddonAudit.Proofs.Engine.Once
import AddonAudit.Proofs.Engine.FirstVisits
import AddonAudit.Proofs.Engine.Strict
import AddonAudit.Proofs.Engine.NestedLadder
import AddonAudit.Proofs.Engine.Isolation
import AddonAudit.Proofs.VersionOrder
import AddonAudit.Proofs.Relevance
import AddonAudit.Proofs.Run
import AddonAudit.Proofs.Bracket
import AddonAudit.Proofs.Package
import AddonAudit.Proofs.Checks
import AddonAudit.Proofs.Analysis
import AddonAudit.Proofs.Audit.Rules
import AddonAudit.Proofs.Audit.Unwind
import AddonAudit.Proofs.Audit.Readable
import AddonAudit.Proofs.Atop
import AddonAudit.Proofs.Shift
import AddonAudit.Proofs.Engine.Renumber
import AddonAudit.Proofs.Audit.Frame
import AddonAudit.Proofs.Audit.Contents
import AddonAudit.Proofs.Audit.Siblings
import AddonAudit.Proofs.Engine.Leniency
import AddonAudit.Proofs.Engine.Throughout
import AddonAudit.Proofs.Engine.Bounds
import AddonAudit.Proofs.Engine.Silence
import AddonAudit.Proofs.Engine.Overwrite
import AddonAudit.Proofs.Registry.Tree
import AddonAudit.Proofs.Registry.Calls
import AddonAudit.Proofs.Registry.Lineage
import AddonAudit.Proofs.Engine.GlobalObject
import AddonAudit.Proofs.Heap
import AddonAudit.Proofs.Heap.Rendering
import AddonAudit.Proofs.Heap.ReadWrite
import AddonAudit.Proofs.Lines
import AddonAudit.Proofs.Markup
import AddonAudit.Proofs.Engine.Nesting
import AddonAudit.Proofs.Continuation
import AddonAudit.Proofs.Engine.Provisional
import AddonAudit.Proofs.Search
import AddonAudit.Proofs.Numbering
import AddonAudit.Proofs.Entities
import AddonAudit.Proofs.Literal
import AddonAudit.Proofs.Escape
import AddonAudit.Proofs.Strings
import AddonAudit.Proofs.Spelling
import AddonAudit.Proofs.VersionRules
import AddonAudit.Proofs.Settings
import AddonAudit.Proofs.Reports
import AddonAudit.Proofs.Properties
import AddonAudit.Proofs.Registrations
import AddonAudit.Proofs.Numeral
import AddonAudit.Proofs.VersionNumbers
import AddonAudit.Proofs.Double
import AddonAudit.Proofs.Radix
import AddonAudit.Proofs.InstructionLayout
import AddonAudit.Proofs.Matching
import AddonAudit.Proofs.Stylesheet
import AddonAudit.Proofs.Excerpts
import AddonAudit.Proofs.Merging
