import NestedSelection.Binary64.Basic
import NestedSelection.Binary64.Text
import NestedSelection.Catalog.Basic
import NestedSelection.Catalog.Selection
import NestedSelection.Code.Item
import NestedSelection.Code.Token
import NestedSelection.Command.Line
import NestedSelection.Command.Run
import NestedSelection.Document
import NestedSelection.Files.Format
import NestedSelection.Files.Path
import NestedSelection.Files.Tree
import NestedSelection.Identifier.Allocator
import NestedSelection.Identifier.Basic
import NestedSelection.Json.Mismatch
import NestedSelection.Json.Numeral
import NestedSelection.Json.Reader
import NestedSelection.Json.Skip
import NestedSelection.Json.Token
import NestedSelection.Json.Typed
import NestedSelection.Json.Value
import NestedSelection.Main
import NestedSelection.NameSet
import NestedSelection.OrderedMap
import NestedSelection.Powers
import NestedSelection.Proofs.Allocation
import NestedSelection.Proofs.Allowed
import NestedSelection.Proofs.AppendedTables
import NestedSelection.Proofs.Blame
import NestedSelection.Proofs.Chains
import NestedSelection.Proofs.Comparison
import NestedSelection.Proofs.Dangling
import NestedSelection.Proofs.Entries
import NestedSelection.Proofs.Grammar
import NestedSelection.Proofs.Growth
import NestedSelection.Proofs.Histories
import NestedSelection.Proofs.Identifiers
import NestedSelection.Proofs.Indistinguishable
import NestedSelection.Proofs.ItemTokens
import NestedSelection.Proofs.Language
import NestedSelection.Proofs.Layouts
import NestedSelection.Proofs.Listings
import NestedSelection.Proofs.Locality
import NestedSelection.Proofs.ModuleItems
import NestedSelection.Proofs.NameOrder
import NestedSelection.Proofs.Outline
import NestedSelection.Proofs.PascalCase
import NestedSelection.Proofs.Pruning
import NestedSelection.Proofs.ReadModules
import NestedSelection.Proofs.ReadSelections
import NestedSelection.Proofs.Reading
import NestedSelection.Proofs.Related
import NestedSelection.Proofs.RelationLists
import NestedSelection.Proofs.Repairs
import NestedSelection.Proofs.Rewording
import NestedSelection.Proofs.SchemaTexts
import NestedSelection.Proofs.Scopes
import NestedSelection.Proofs.SelectionTexts
import NestedSelection.Proofs.SkippedValues
import NestedSelection.Proofs.SpelledDocuments
import NestedSelection.Proofs.SpelledNumbers
import NestedSelection.Proofs.SpelledTokens
import NestedSelection.Proofs.StrictOutput
import NestedSelection.Proofs.Symmetry
import NestedSelection.Proofs.Tree
import NestedSelection.Proofs.TypedSelections
import NestedSelection.Proofs.TypedTables
import NestedSelection.Proofs.Violations
import NestedSelection.Proofs.WrittenSelections
import NestedSelection.Relations
import NestedSelection.Schema.Basic
import NestedSelection.Schema.Document
import NestedSelection.Schema.Load
import NestedSelection.Schema.Sample
import NestedSelection.Schema.Text
import NestedSelection.Selection.Basic
import NestedSelection.Selection.Check
import NestedSelection.Selection.Query
import NestedSelection.Selection.Reader
import NestedSelection.Settings.Address
import NestedSelection.Settings.Basic
import NestedSelection.Settings.File
import NestedSelection.Settings.Scalar
import NestedSelection.Settings.Setting
import NestedSelection.Text.Blank
import NestedSelection.Text.Hex
import NestedSelection.Text.Piece
import NestedSelection.Text.Quoted
import NestedSelection.Text.Utf8
import NestedSelection.Text.Visible
import NestedSelection.Toml.Moment
import NestedSelection.Toml.Number
import NestedSelection.Toml.Reader
import NestedSelection.Toml.Token
import NestedSelection.Toml.Tree
import NestedSelection.Yaml.Anchor
import NestedSelection.Yaml.Block
import NestedSelection.Yaml.Fold
import NestedSelection.Yaml.Node
import NestedSelection.Yaml.Plain
import NestedSelection.Yaml.Quoted
import NestedSelection.Yaml.Reader
import NestedSelection.Yaml.Scalar
import NestedSelection.Yaml.Scan
import NestedSelection.Yaml.Spot
import NestedSelection.Yaml.Token
