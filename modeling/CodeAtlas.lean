import CodeAtlas.Assoc
import CodeAtlas.Block.Basic
import CodeAtlas.Block.Chain
import CodeAtlas.Block.Kind
import CodeAtlas.Block.NameGraph
import CodeAtlas.Block.NameTree
import CodeAtlas.Block.Outline
import CodeAtlas.Block.Outline.Record
import CodeAtlas.Block.Question
import CodeAtlas.Block.Record
import CodeAtlas.Block.Relationship
import CodeAtlas.Block.Render
import CodeAtlas.Block.Request
import CodeAtlas.Block.Search
import CodeAtlas.Block.Span
import CodeAtlas.Block.Value
import CodeAtlas.Block.Walk
import CodeAtlas.Chunk.Cluster
import CodeAtlas.Chunk.Context
import CodeAtlas.Chunk.Fingerprint
import CodeAtlas.Chunk.Limits
import CodeAtlas.Chunk.Map
import CodeAtlas.Chunk.Merge
import CodeAtlas.Chunk.Record
import CodeAtlas.Chunk.Split
import CodeAtlas.Chunk.Stored
import CodeAtlas.Digest.Sha256
import CodeAtlas.Digraph
import CodeAtlas.Failure
import CodeAtlas.Json.Basic
import CodeAtlas.Json.Lenient
import CodeAtlas.Json.Reader
import CodeAtlas.Json.Writer
import CodeAtlas.Language
import CodeAtlas.Main
import CodeAtlas.Network
import CodeAtlas.Number.Double
import CodeAtlas.Number.Shortest
import CodeAtlas.Parse.Dialect
import CodeAtlas.Parse.Meaning
import CodeAtlas.Parse.Module
import CodeAtlas.Parse.Record
import CodeAtlas.Parse.Refine
import CodeAtlas.Parse.SpanLedger
import CodeAtlas.Repo.Export
import CodeAtlas.Repo.FilePath
import CodeAtlas.Repo.FileStore
import CodeAtlas.Repo.FileTree
import CodeAtlas.Repo.Import
import CodeAtlas.Repo.Listing
import CodeAtlas.Repo.Map
import CodeAtlas.Repo.ModuleList
import CodeAtlas.Repo.Namespace
import CodeAtlas.Repo.Place
import CodeAtlas.Repo.Record
import CodeAtlas.Scope.Insert
import CodeAtlas.Scope.Map
import CodeAtlas.Scope.Query
import CodeAtlas.Scope.Reading
import CodeAtlas.Scope.Record
import CodeAtlas.Scope.RowSpan
import CodeAtlas.Scope.SourceRange
import CodeAtlas.Settings
import CodeAtlas.Signature
import CodeAtlas.Source.Bytes
import CodeAtlas.Source.Record
import CodeAtlas.Syntax.Record
import CodeAtlas.Syntax.Tree
import CodeAtlas.Tally
import CodeAtlas.Text.Basic
import CodeAtlas.Text.Blank
import CodeAtlas.Text.Code
import CodeAtlas.Text.Digit
import CodeAtlas.Text.Fold
import CodeAtlas.Text.Printable
import CodeAtlas.Text.Quoted
import CodeAtlas.Text.Ranges
import CodeAtlas.Text.Wildcard
import CodeAtlas.Text.WordChar
import CodeAtlas.Proofs.Parse.Placement
import CodeAtlas.Proofs.Source.Decoding
import CodeAtlas.Proofs.Parse.Steps
import CodeAtlas.Proofs.Parse.Lossless
import CodeAtlas.Proofs.Scope.Intervals
import CodeAtlas.Proofs.Scope.Growth
import CodeAtlas.Proofs.Scope.LexicalScoping
import CodeAtlas.Proofs.Scope.Resolution
import CodeAtlas.Proofs.Scope.SmallestScope
import CodeAtlas.Proofs.Scope.Traversals
import CodeAtlas.Proofs.Scope.Shape
import CodeAtlas.Proofs.Chunk.Comments
import CodeAtlas.Proofs.Chunk.Coverage
import CodeAtlas.Proofs.Chunk.Joining
import CodeAtlas.Proofs.Chunk.Links
import CodeAtlas.Proofs.Chunk.Steps
import CodeAtlas.Proofs.Json.RoundTrip
import CodeAtlas.Proofs.Outcome
import CodeAtlas.Proofs.Repo.Keys
import CodeAtlas.Proofs.Repo.Links
import CodeAtlas.Proofs.Repo.ModuleFiles
import CodeAtlas.Proofs.Repo.Stores
import CodeAtlas.Proofs.Graphs
import CodeAtlas.Proofs.Scope.Readings
import CodeAtlas.Proofs.Syntax.Preorder
import CodeAtlas.Proofs.Parse.Calls
import CodeAtlas.Proofs.Parse.Numbering
import CodeAtlas.Proofs.Parse.Printing
import CodeAtlas.Proofs.Parse.SpanAccounting
import CodeAtlas.Proofs.Scope.Visibility
import CodeAtlas.Proofs.Repo.Backing
import CodeAtlas.Proofs.Chunk.Sizes
import CodeAtlas.Proofs.Chunk.Stranding
import CodeAtlas.Proofs.Chunk.EmptyChunks
import CodeAtlas.Proofs.Block.NameTrees
import CodeAtlas.Proofs.Chunk.ContextText
import CodeAtlas.Proofs.Block.PathSets
import CodeAtlas.Proofs.Repo.FoundFiles
import CodeAtlas.Proofs.Repo.Exports
import CodeAtlas.Proofs.Parse.SiblingNames
import CodeAtlas.Proofs.Scope.Ends
import CodeAtlas.Proofs.Scope.Listings
import CodeAtlas.Proofs.Scope.TagGroups
import CodeAtlas.Proofs.Repo.Bookkeeping
import CodeAtlas.Proofs.Repo.ScopeTexts
import CodeAtlas.Proofs.Block.LineSearches
import CodeAtlas.Proofs.Block.Renderings
import CodeAtlas.Proofs.Chunk.ShortNames
import CodeAtlas.Proofs.Chunk.FirstRows
import CodeAtlas.Proofs.Block.Addresses
import CodeAtlas.Proofs.Parse.Linking
import CodeAtlas.Proofs.Block.LineWalks
