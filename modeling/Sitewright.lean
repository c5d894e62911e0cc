import Sitewright.Config.Json
import Sitewright.Config.Options
import Sitewright.Config.Shape
import Sitewright.Config.Toml.Document
import Sitewright.Config.Toml.Scalar
import Sitewright.Config.Toml.Tables
import Sitewright.Config.Value
import Sitewright.Config.Yaml.Cursor
import Sitewright.Config.Yaml.Document
import Sitewright.Config.Yaml.Resolve
import Sitewright.Config.Yaml.Scalar
import Sitewright.Config.Yaml.Token
import Sitewright.Dependency
import Sitewright.Diagnostic
import Sitewright.Environment
import Sitewright.Error
import Sitewright.Expression.Basic
import Sitewright.Expression.Parser
import Sitewright.Expression.Token
import Sitewright.Forest
import Sitewright.Markdown.Block
import Sitewright.Markdown.Entity
import Sitewright.Markdown.Html
import Sitewright.Markdown.Inline
import Sitewright.Markdown.Line
import Sitewright.Markdown.Note
import Sitewright.Markdown.Outline
import Sitewright.Markdown.Reference
import Sitewright.Markdown.Tag
import Sitewright.Markup.Document
import Sitewright.Markup.Element
import Sitewright.Markup.Node
import Sitewright.Markup.Parser
import Sitewright.Markup.Problem
import Sitewright.Markup.Token
import Sitewright.NameSet
import Sitewright.Naming
import Sitewright.Number.Double
import Sitewright.Number.Shortest
import Sitewright.Number.Width
import Sitewright.Project.Basic
import Sitewright.Project.Change
import Sitewright.Project.Diagnostics
import Sitewright.Project.Options
import Sitewright.Project.Script
import Sitewright.Project.Stylesheet
import Sitewright.Proofs.Dependency.Circuit
import Sitewright.Proofs.Dependency.Cycle
import Sitewright.Proofs.Dependency.Dependents
import Sitewright.Proofs.Dependency.Reachability
import Sitewright.Proofs.Expression.Acceptance
import Sitewright.Proofs.Expression.Evaluation
import Sitewright.Proofs.Expression.Names
import Sitewright.Proofs.GlobalNames
import Sitewright.Proofs.Lookup
import Sitewright.Proofs.Markup.Arena
import Sitewright.Proofs.Markup.Canonical
import Sitewright.Proofs.Markup.Extent
import Sitewright.Proofs.Markup.Nesting
import Sitewright.Proofs.Markup.Scans
import Sitewright.Proofs.Markup.Shapes
import Sitewright.Proofs.Markup.Skeleton
import Sitewright.Proofs.Markup.Sound
import Sitewright.Proofs.Markup.Spans
import Sitewright.Proofs.Markup.Written
import Sitewright.Proofs.Naming
import Sitewright.Proofs.Offsets
import Sitewright.Proofs.Places
import Sitewright.Proofs.Project.Coherence
import Sitewright.Proofs.Project.History
import Sitewright.Proofs.Project.Invalidation
import Sitewright.Proofs.Project.Keys
import Sitewright.Proofs.Project.Refusal
import Sitewright.Proofs.Project.Script
import Sitewright.Proofs.Project.Snapshot
import Sitewright.Proofs.Project.Stylesheet
import Sitewright.Proofs.Project.Unresolved
import Sitewright.Proofs.Render.Cleanliness
import Sitewright.Proofs.Render.Comparison
import Sitewright.Proofs.Render.Content
import Sitewright.Proofs.Render.Environment
import Sitewright.Proofs.Render.Expansion
import Sitewright.Proofs.Render.Forwarding
import Sitewright.Proofs.Render.Globals
import Sitewright.Proofs.Render.Machine
import Sitewright.Proofs.Render.Noninterference
import Sitewright.Proofs.Render.Origin
import Sitewright.Proofs.Render.Placement
import Sitewright.Proofs.Render.Prediction
import Sitewright.Proofs.Render.Structure
import Sitewright.Proofs.Render.Tags
import Sitewright.Proofs.Render.Termination
import Sitewright.Proofs.Render.Verbatim
import Sitewright.Proofs.Render.Visible
import Sitewright.Proofs.Rows
import Sitewright.Proofs.Style.Assembly
import Sitewright.Proofs.Style.Citation
import Sitewright.Proofs.Style.Clauses
import Sitewright.Proofs.Style.Comments
import Sitewright.Proofs.Style.Concatenation
import Sitewright.Proofs.Style.Distribution
import Sitewright.Proofs.Style.FixedPoint
import Sitewright.Proofs.Style.Flatten
import Sitewright.Proofs.Style.Heads
import Sitewright.Proofs.Style.Layout
import Sitewright.Proofs.Style.Patchwork
import Sitewright.Proofs.Style.Printable
import Sitewright.Proofs.Style.Printed
import Sitewright.Proofs.Style.Quotation
import Sitewright.Proofs.Style.Ranges
import Sitewright.Proofs.Style.Reprint
import Sitewright.Proofs.Style.RoundTrip
import Sitewright.Proofs.Style.RuleTree
import Sitewright.Proofs.Style.Scan
import Sitewright.Proofs.Style.Selectors
import Sitewright.Proofs.Style.Splicing
import Sitewright.Proofs.Style.Strings
import Sitewright.Proofs.Style.Tracing
import Sitewright.Proofs.Style.Variables
import Sitewright.Proofs.Template.Directives
import Sitewright.Proofs.Template.Expressions
import Sitewright.Proofs.Template.Growth
import Sitewright.Proofs.Template.Includes
import Sitewright.Proofs.Template.Ranges
import Sitewright.Proofs.Template.Tags
import Sitewright.Style.Build
import Sitewright.Style.Lexeme
import Sitewright.Style.Parser
import Sitewright.Style.Problem
import Sitewright.Style.Rule
import Sitewright.Style.Variable
import Sitewright.Table
import Sitewright.Template.Analysis
import Sitewright.Template.Basic
import Sitewright.Template.Binding
import Sitewright.Template.Directive
import Sitewright.Template.Id
import Sitewright.Template.Problem
import Sitewright.Template.Render
import Sitewright.Template.Tag
import Sitewright.Text.Basic
import Sitewright.Text.Blank
import Sitewright.Text.Case
import Sitewright.Text.Digit
import Sitewright.Text.Escape
import Sitewright.Text.Location
import Sitewright.Text.Order
import Sitewright.Text.Punctuation
import Sitewright.Text.Quoted
import Sitewright.Wire
