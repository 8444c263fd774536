import SpaceAudit.Alias.Merge
import SpaceAudit.Alias.Table
import SpaceAudit.Audit.Battery
import SpaceAudit.Audit.ClassCapture
import SpaceAudit.Audit.CrossSpace
import SpaceAudit.Audit.HostLibrary
import SpaceAudit.Audit.Launch
import SpaceAudit.Audit.Mirror
import SpaceAudit.Audit.NeedlessAuto
import SpaceAudit.Audit.Ownership
import SpaceAudit.Audit.Subject
import SpaceAudit.Audit.VirtualFunctions
import SpaceAudit.Call.Arguments
import SpaceAudit.Command.Basic
import SpaceAudit.Command.Options
import SpaceAudit.FileTree.Basic
import SpaceAudit.Finding.Basic
import SpaceAudit.Finding.Excerpt
import SpaceAudit.Group.Basic
import SpaceAudit.Include.Directive
import SpaceAudit.Main
import SpaceAudit.Markup.Character
import SpaceAudit.Markup.Element
import SpaceAudit.Markup.Event
import SpaceAudit.Markup.Outline
import SpaceAudit.Markup.Reader
import SpaceAudit.Markup.Reference
import SpaceAudit.Path.Basic
import SpaceAudit.Path.DumpName
import SpaceAudit.Pattern.Basic
import SpaceAudit.Pattern.BracketSet
import SpaceAudit.Pattern.Escape
import SpaceAudit.Pattern.Reader
import SpaceAudit.Project.Basic
import SpaceAudit.Project.Dumps
import SpaceAudit.Project.FrontEnd
import SpaceAudit.Project.Groups
import SpaceAudit.Project.Sources
import SpaceAudit.Proofs.Audit.OwnedTokens
import SpaceAudit.Proofs.Audit.Subject
import SpaceAudit.Proofs.Group.Independence
import SpaceAudit.Proofs.Run.Report
import SpaceAudit.Proofs.Source.ScopeTree
import SpaceAudit.Proofs.Space.Classification
import SpaceAudit.Run.Basic
import SpaceAudit.Settings.Basic
import SpaceAudit.Settings.File
import SpaceAudit.Signature.Basic
import SpaceAudit.Sketch.Basic
import SpaceAudit.Sketch.Dump
import SpaceAudit.Sketch.Layout
import SpaceAudit.Source.Configuration
import SpaceAudit.Source.Loading
import SpaceAudit.Source.Record
import SpaceAudit.Source.Reference
import SpaceAudit.Source.ScopeTree
import SpaceAudit.Source.Unit
import SpaceAudit.Space.Annotations
import SpaceAudit.Space.Classification
import SpaceAudit.Space.Exec
import SpaceAudit.Space.Memory
import SpaceAudit.Space.Resolution
import SpaceAudit.Statement.Index
import SpaceAudit.Text.Blank
import SpaceAudit.Text.Case
import SpaceAudit.Text.Word
import SpaceAudit.Toml.Quoted
import SpaceAudit.Toml.Reader
import SpaceAudit.Toml.Scalar
import SpaceAudit.Toml.Value
import SpaceAudit.Proofs.Alias.Merge
import SpaceAudit.Proofs.Audit.Findings
import SpaceAudit.Proofs.Group.Order
import SpaceAudit.Proofs.Audit.Lookups
import SpaceAudit.Proofs.Audit.Pipeline
import SpaceAudit.Proofs.Source.Loading
import SpaceAudit.Proofs.Strict.Access
import SpaceAudit.Proofs.Strict.Text
import SpaceAudit.Proofs.Strict.Stream
import SpaceAudit.Proofs.Strict.Scopes
import SpaceAudit.Proofs.Strict.Spaces
import SpaceAudit.Proofs.Strict.Capture
import SpaceAudit.Proofs.Strict.Audits
import SpaceAudit.Proofs.Strict.Group
import SpaceAudit.Proofs.Alias.Reach
import SpaceAudit.Proofs.FileTree.Places
import SpaceAudit.Proofs.Group.Repeat
import SpaceAudit.Proofs.Project.Sources
import SpaceAudit.Proofs.Project.Groups
import SpaceAudit.Proofs.Project.Filter
import SpaceAudit.Proofs.Project.Coverage
import SpaceAudit.Proofs.Run.History
import SpaceAudit.Proofs.Audit.WellLinked
import SpaceAudit.Proofs.Audit.CapturingScope
import SpaceAudit.Proofs.Markup.RoundTrip
import SpaceAudit.Proofs.Sketch.Layout
import SpaceAudit.Proofs.Source.Records
import SpaceAudit.Proofs.Sketch.Outline
import SpaceAudit.Proofs.Sketch.RoundTrip
import SpaceAudit.Proofs.Alias.Expansion
import SpaceAudit.Proofs.Statement.Runs
import SpaceAudit.Proofs.Statement.Initialisers
import SpaceAudit.Proofs.Audit.DanglingHandles
import SpaceAudit.Proofs.Audit.Bindings
import SpaceAudit.Proofs.Space.TemplateArguments
import SpaceAudit.Proofs.Statement.AutoDeclarations
import SpaceAudit.Proofs.Audit.NeedlessAuto
import SpaceAudit.Proofs.Space.PartedDeclarations
import SpaceAudit.Proofs.Alias.Declarations
import SpaceAudit.Proofs.Call.Splitting
import SpaceAudit.Proofs.Signature.Qualifications
import SpaceAudit.Proofs.Sketch.Includes
import SpaceAudit.Proofs.Finding.Offsets
import SpaceAudit.Proofs.Source.MainFile
import SpaceAudit.Proofs.Source.TokenIds
import SpaceAudit.Proofs.Audit.Launches
import SpaceAudit.Proofs.Source.ScopeOrder
import SpaceAudit.Proofs.Source.Ancestors
import SpaceAudit.Proofs.Source.Rejections
import SpaceAudit.Proofs.Project.Membership
import SpaceAudit.Proofs.Project.DumpNames
import SpaceAudit.Proofs.Sketch.Brackets
import SpaceAudit.Proofs.Source.Tables
import SpaceAudit.Proofs.Sketch.Remarks
import SpaceAudit.Proofs.Sketch.Meaning
