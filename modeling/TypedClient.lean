import TypedClient.Json.Reader
import TypedClient.Json.Writer
import TypedClient.Value.Display
import TypedClient.Text.Blank
import TypedClient.Text.Lines
import TypedClient.Text.Replace
import TypedClient.Text.Case
import TypedClient.Naming.Url
import TypedClient.Schema.PropertyType
import TypedClient.Operation.Search
import TypedClient.Interface.Index
import TypedClient.Import.Merge
import TypedClient.Import.Printer
import TypedClient.Import.Reader
import TypedClient.Api.Name
import TypedClient.Api.Function
import TypedClient.Api.Generate
import TypedClient.Output.Files
import TypedClient.Settings.Basic
import TypedClient.Toml.Reader
import TypedClient.Toml.Writer
import TypedClient.Yaml.Reader
import TypedClient.CommandLine.Commands
import TypedClient.Ignore
import TypedClient.TypeExpr.Names
import TypedClient.Main
import TypedClient.Proofs.Distinct
import TypedClient.Proofs.Outcome
import TypedClient.Proofs.Stateful
import TypedClient.Proofs.Schema.Parts
import TypedClient.Proofs.Schema.Typing
import TypedClient.Proofs.Text.Case
import TypedClient.Proofs.Text.Lines
import TypedClient.Proofs.Text.Trim
import TypedClient.Proofs.Text.Part
import TypedClient.Proofs.Text.Words
import TypedClient.Proofs.Import.Reading
import TypedClient.Proofs.Import.Printing
import TypedClient.Proofs.Import.Merging
import TypedClient.Proofs.Import.RoundTrip
import TypedClient.Proofs.Import.Shown
import TypedClient.Proofs.Import.Readable
import TypedClient.Proofs.Import.Bindings
import TypedClient.Proofs.Import.Normal
import TypedClient.Proofs.Import.Reread
import TypedClient.Proofs.Import.Rewritten
import TypedClient.Proofs.Workspace
import TypedClient.Proofs.Output.Extended
import TypedClient.Proofs.Output.ApiImports
import TypedClient.Proofs.Output.ApiFile
import TypedClient.Proofs.Output.ApiBindings
import TypedClient.Proofs.TypeExpr.Names
import TypedClient.Proofs.Schema.Rendered
import TypedClient.Proofs.Naming.SchemaKey
import TypedClient.Proofs.Schema.References
import TypedClient.Proofs.Schema.Texts
import TypedClient.Proofs.Interface.Fields
import TypedClient.Proofs.Interface.Linked
import TypedClient.Proofs.Api.Shown
import TypedClient.Proofs.Operation.Source
import TypedClient.Proofs.Closure.BreadthFirst
import TypedClient.Proofs.Closure.Edges
import TypedClient.Proofs.Closure.ReachableModels
import TypedClient.Proofs.Closure.Imports
import TypedClient.Proofs.Path
import TypedClient.Proofs.Output.Specifier
import TypedClient.Proofs.Interface.Index
import TypedClient.Proofs.Output.Edits
import TypedClient.Proofs.Output.ModelIndex
import TypedClient.Proofs.Text.Block
import TypedClient.Proofs.Output.Marks
import TypedClient.Proofs.Output.Run
import TypedClient.Proofs.Output.GenericFiles
import TypedClient.Proofs.Output.Repeated
import TypedClient.Proofs.Interface.Pieces
import TypedClient.Proofs.TypeExpr.Replace
import TypedClient.Proofs.Interface.Parameters
import TypedClient.Proofs.Interface.Comment
import TypedClient.Proofs.Interface.GenericModel
import TypedClient.Proofs.TypeExpr.Spelling
import TypedClient.Proofs.Ignore.Stripped
import TypedClient.Proofs.Ignore.Unmatched
import TypedClient.Proofs.Ignore.Steady
import TypedClient.Proofs.Ignore.Imported
import TypedClient.Proofs.Interface.Renaming
import TypedClient.Proofs.Interface.Captured
import TypedClient.Proofs.Meaning.Tree
import TypedClient.Proofs.Meaning.Reading
import TypedClient.Proofs.Meaning.RoundTrip
import TypedClient.Proofs.Meaning.Reference
import TypedClient.Proofs.Meaning.Schema
import TypedClient.Proofs.Meaning.Emitted
import TypedClient.Proofs.Meaning.Literal
import TypedClient.Proofs.Api.Generated
import TypedClient.Proofs.Api.Signature
import TypedClient.Proofs.Naming.Url
import TypedClient.Proofs.Naming.FunctionName
import TypedClient.Proofs.Naming.Characters
import TypedClient.Proofs.Naming.Coincidence
import TypedClient.Proofs.Naming.Declarable
import TypedClient.Proofs.Api.Placeholders
import TypedClient.Proofs.Number.Rounding
import TypedClient.Proofs.Number.Shortest
import TypedClient.Proofs.Value.Entries
import TypedClient.Proofs.Json.Number
import TypedClient.Proofs.Json.Scan
import TypedClient.Proofs.Json.RoundTrip
import TypedClient.Proofs.Json.Read
import TypedClient.Proofs.Json.Kept
import TypedClient.Proofs.Yaml.Regular
import TypedClient.Proofs.Document.Saved
import TypedClient.Proofs.Document.Cache
import TypedClient.Proofs.Document.Refresh
import TypedClient.Proofs.Schema.Alias
import TypedClient.Proofs.Schema.Followed
import TypedClient.Proofs.Schema.Inlined
import TypedClient.Proofs.Schema.Local
import TypedClient.Proofs.Schema.Contributors
import TypedClient.Proofs.Schema.Gathering
import TypedClient.Proofs.Schema.Inherited
import TypedClient.Proofs.Schema.Unfolding
import TypedClient.Proofs.Closure.Unreached
import TypedClient.Proofs.Naming.Solid
import TypedClient.Proofs.Naming.Trailing
import TypedClient.Proofs.Output.Contained
import TypedClient.Proofs.Output.Twice
import TypedClient.Proofs.Output.Kinds
import TypedClient.Proofs.TypeExpr.Named
import TypedClient.Proofs.TypeExpr.Progress
import TypedClient.Proofs.Ignore.Spine
import TypedClient.Proofs.Naming.Decoded
import TypedClient.Proofs.Naming.Argument
import TypedClient.Proofs.Ignore.Native
import TypedClient.Proofs.Schema.RefFree
import TypedClient.Proofs.Api.RefFree
import TypedClient.Proofs.Import.Layout
import TypedClient.Proofs.Import.Declared
import TypedClient.Proofs.Import.Recognized
import TypedClient.Proofs.Operation.Parameters
import TypedClient.Proofs.Settings.RoundTrip
