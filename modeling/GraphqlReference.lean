import GraphqlReference.Text.Lines
import GraphqlReference.Text.Position
import GraphqlReference.Text.Reader
import GraphqlReference.Binary64
import GraphqlReference.Binary64.Decimal
import GraphqlReference.Binary64.Shortest
import GraphqlReference.Value
import GraphqlReference.Value.Literal
import GraphqlReference.Schema.Definition
import GraphqlReference.Schema.Error
import GraphqlReference.Schema.BuiltIn
import GraphqlReference.Schema
import GraphqlReference.Schema.Builder
import GraphqlReference.Html.Markup
import GraphqlReference.Html.Piece
import GraphqlReference.Html.Gap
import GraphqlReference.Sdl.Lexical
import GraphqlReference.Sdl.StringLiteral
import GraphqlReference.Sdl.Number
import GraphqlReference.Sdl.ConstValue
import GraphqlReference.Sdl.Grammar
import GraphqlReference.Sdl.Resolution
import GraphqlReference.Sdl.Document
import GraphqlReference.Config
import GraphqlReference.Page.Literal
import GraphqlReference.Page.Description
import GraphqlReference.Page.Link
import GraphqlReference.Page.Interfaces
import GraphqlReference.Page.Usage
import GraphqlReference.Page.Member
import GraphqlReference.Page.Declaration
import GraphqlReference.Page.Order
import GraphqlReference.Page.Navigation
import GraphqlReference.Page.Document
import GraphqlReference.Toml.Lexical
import GraphqlReference.Toml.Scalar
import GraphqlReference.Toml.Table
import GraphqlReference.Toml.Document
import GraphqlReference.Config.Decode
import GraphqlReference.CommandLine.Arguments
import GraphqlReference.CommandLine.Path
import GraphqlReference.CommandLine.FileSystem
import GraphqlReference.CommandLine.Failure
import GraphqlReference.CommandLine.Run
import GraphqlReference.Main
import GraphqlReference.Proofs.Html.Escape
import GraphqlReference.Proofs.Text.Occurrence
import GraphqlReference.Proofs.Html.Cut
import GraphqlReference.Proofs.Html.Gap
import GraphqlReference.Proofs.Html.Arrangement
import GraphqlReference.Proofs.Html.EmptyLine
import GraphqlReference.Proofs.Html.Flow
import GraphqlReference.Proofs.Html.Nesting
import GraphqlReference.Proofs.Html.Settling
import GraphqlReference.Proofs.Html.Target
import GraphqlReference.Proofs.Outcome
import GraphqlReference.Proofs.Page.Anchors
import GraphqlReference.Proofs.Page.Layout
import GraphqlReference.Proofs.Page.Links
import GraphqlReference.Proofs.Page.Members
import GraphqlReference.Proofs.Page.Names
import GraphqlReference.Proofs.Page.Nesting
import GraphqlReference.Proofs.Page.Printing
import GraphqlReference.Proofs.Page.Sections
import GraphqlReference.Proofs.Schema.Lookup
import GraphqlReference.Proofs.Schema.Obtained
import GraphqlReference.Proofs.Page.Settling
import GraphqlReference.Proofs.Schema.Extending
import GraphqlReference.Proofs.Schema.Similar
import GraphqlReference.Proofs.Sdl.Declaring
import GraphqlReference.Proofs.Sdl.LoadedNames
import GraphqlReference.Proofs.Sdl.ReadNames
import GraphqlReference.Proofs.Sdl.Reordering
import GraphqlReference.Proofs.Text.Reading
import GraphqlReference.Proofs.Text.Lines
import GraphqlReference.Proofs.Page.Resolving
import GraphqlReference.Proofs.Text.ByteOrder
import GraphqlReference.Proofs.Html.Region
import GraphqlReference.Proofs.Page.Ordering
import GraphqlReference.Proofs.Page.Listing
import GraphqlReference.Proofs.Schema.Merging
import GraphqlReference.Proofs.Sdl.Consuming
import GraphqlReference.Proofs.Sdl.Merging
import GraphqlReference.Proofs.Sdl.Mentioning
import GraphqlReference.Proofs.Sdl.Ignored
import GraphqlReference.Proofs.Sdl.Repeatable
import GraphqlReference.Proofs.Sdl.Roots
import GraphqlReference.Proofs.Schema.Calls
import GraphqlReference.Proofs.Page.Searching
import GraphqlReference.Proofs.Page.Panel
import GraphqlReference.Proofs.Html.Finished
import GraphqlReference.Proofs.Sdl.RootNames
import GraphqlReference.Proofs.Page.Buttons
import GraphqlReference.Proofs.Html.Erasing
import GraphqlReference.Proofs.Html.Veil
import GraphqlReference.Proofs.Html.Alike
import GraphqlReference.Proofs.Schema.Likeness
import GraphqlReference.Proofs.Page.Comparing
import GraphqlReference.Proofs.Page.Redescribing
import GraphqlReference.Proofs.Page.Flattening
import GraphqlReference.Proofs.Sdl.Faults
import GraphqlReference.Proofs.Schema.Writable
import GraphqlReference.Proofs.Sdl.ReadTypes
import GraphqlReference.Proofs.Sdl.Writable
import GraphqlReference.Proofs.Page.Blaming
import GraphqlReference.Proofs.Text.Replacing
import GraphqlReference.Proofs.Html.Closing
import GraphqlReference.Proofs.Html.Filling
import GraphqlReference.Proofs.Html.Sweeping
import GraphqlReference.Proofs.Html.NormalForm
import GraphqlReference.Proofs.Value.Equality
import GraphqlReference.Proofs.Schema.Defaults
import GraphqlReference.Proofs.Page.Supplying
import GraphqlReference.Proofs.Page.Thinning
import GraphqlReference.Proofs.Html.PlainText
import GraphqlReference.Proofs.Value.Writing
import GraphqlReference.Proofs.Page.PlainText
import GraphqlReference.Proofs.Text.Trimming
import GraphqlReference.Proofs.Html.Lines
import GraphqlReference.Proofs.Page.DescriptionLines
import GraphqlReference.Proofs.Text.Repeating
import GraphqlReference.Proofs.Sdl.Tokens
import GraphqlReference.Proofs.Sdl.Literals
import GraphqlReference.Proofs.Sdl.WrittenDefaults
import GraphqlReference.Proofs.Value.Canonical
import GraphqlReference.Proofs.Value.Reordering
import GraphqlReference.Proofs.Sdl.WrittenTypes
import GraphqlReference.Proofs.Page.ShownTypes
import GraphqlReference.Proofs.Sdl.Integers
import GraphqlReference.Proofs.Sdl.Progress
import GraphqlReference.Proofs.Sdl.Denoting
import GraphqlReference.Proofs.Schema.ValueSites
import GraphqlReference.Proofs.Sdl.ReadSites
import GraphqlReference.Proofs.Sdl.LoadedValues
import GraphqlReference.Proofs.CommandLine.Writing
import GraphqlReference.Proofs.CommandLine.Rendering
import GraphqlReference.Proofs.Text.Locating
import GraphqlReference.Proofs.Page.Identities
import GraphqlReference.Proofs.Html.Blocks
import GraphqlReference.Proofs.Page.Separators
