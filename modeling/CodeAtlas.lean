import CodeAtlas.Arguments
import CodeAtlas.Attribution
import CodeAtlas.Command
import CodeAtlas.Extraction
import CodeAtlas.FileTree
import CodeAtlas.Grammar
import CodeAtlas.Graph
import CodeAtlas.Impact
import CodeAtlas.Index
import CodeAtlas.Language
import CodeAtlas.Main
import CodeAtlas.Path
import CodeAtlas.Proofs.Extraction.Files
import CodeAtlas.Proofs.Extraction.Runs
import CodeAtlas.Proofs.Reachability
import CodeAtlas.Proofs.Search
import CodeAtlas.Proofs.Server.Calls
import CodeAtlas.Proofs.Server.Moves
import CodeAtlas.Proofs.Server.Phases
import CodeAtlas.Proofs.Server.Requests
import CodeAtlas.Proofs.Server.Starts
import CodeAtlas.Proofs.Table
import CodeAtlas.Proofs.Terraform.Dependencies
import CodeAtlas.Proofs.Terraform.Mentions
import CodeAtlas.Resolution
import CodeAtlas.Server.Channel
import CodeAtlas.Server.Frame
import CodeAtlas.Server.Outline
import CodeAtlas.Server.Peer
import CodeAtlas.Server.Session
import CodeAtlas.Settings
import CodeAtlas.SingleFile
import CodeAtlas.Strategy
import CodeAtlas.Symbol
import CodeAtlas.Table
import CodeAtlas.Terraform.Attribute
import CodeAtlas.Terraform.Block
import CodeAtlas.Terraform.Inventory
import CodeAtlas.Terraform.Manifest
import CodeAtlas.Terraform.Mention
import CodeAtlas.Text.Blank
import CodeAtlas.Text.CharSet
import CodeAtlas.Text.Digit
import CodeAtlas.Text.Lines
import CodeAtlas.Text.Position
import CodeAtlas.Text.Printable
import CodeAtlas.Text.Quoted
import CodeAtlas.Text.Split
import CodeAtlas.Text.Utf8
import CodeAtlas.Text.Word
import CodeAtlas.Tree.Node
import CodeAtlas.Tree.Source
import CodeAtlas.Tree.Walk
import CodeAtlas.Value.Basic
import CodeAtlas.Value.Binary64
import CodeAtlas.Value.Json.Parser
import CodeAtlas.Value.Json.Printer
import CodeAtlas.Value.Toml.Document
import CodeAtlas.Value.Toml.Layout
import CodeAtlas.Value.Toml.Literal
import CodeAtlas.Value.Toml.Number
import CodeAtlas.Value.Toml.Quotation
import CodeAtlas.Proofs.Extraction.Fallback
import CodeAtlas.Proofs.Tree.Places
import CodeAtlas.Proofs.Tree.References
import CodeAtlas.Proofs.Tree.Callers
import CodeAtlas.Proofs.Consistency
import CodeAtlas.Proofs.Terraform.Anchors
import CodeAtlas.Proofs.Terraform.Values
import CodeAtlas.Proofs.Terraform.Stanzas
import CodeAtlas.Proofs.Terraform.Documents
import CodeAtlas.Proofs.Order
import CodeAtlas.Proofs.Grouping
import CodeAtlas.Proofs.Calls.Resolution
import CodeAtlas.Proofs.Calls.Edges
import CodeAtlas.Proofs.Calls.Methods
import CodeAtlas.Proofs.Calls.Appearance
import CodeAtlas.Proofs.Ascii
import CodeAtlas.Proofs.Value.Decimal
import CodeAtlas.Proofs.Value.RoundTrip
import CodeAtlas.Proofs.Server.Frames
import CodeAtlas.Proofs.Index.Contents
import CodeAtlas.Proofs.Ids
import CodeAtlas.Proofs.Index.Apart
import CodeAtlas.Proofs.Index.Repetition
import CodeAtlas.Proofs.Server.Acts
import CodeAtlas.Proofs.Extraction.Clients
import CodeAtlas.Proofs.Extraction.Turns
import CodeAtlas.Proofs.Extraction.Conversations
import CodeAtlas.Proofs.Impacts
import CodeAtlas.Proofs.Terraform.Nodes
import CodeAtlas.Proofs.Terraform.Tokens
import CodeAtlas.Proofs.Extraction.Languages
import CodeAtlas.Proofs.Terraform.Concatenation
import CodeAtlas.Proofs.Terraform.Comments
import CodeAtlas.Proofs.Value.Limits
import CodeAtlas.Proofs.Server.Endings
import CodeAtlas.Proofs.Attribution.Innermost
import CodeAtlas.Proofs.Attribution.Traversal
import CodeAtlas.Proofs.Attribution.Metadata
import CodeAtlas.Proofs.Value.Integers
import CodeAtlas.Proofs.Server.Outlines
import CodeAtlas.Proofs.Calls.Scan
import CodeAtlas.Proofs.Tree.Errors
import CodeAtlas.Proofs.Value.Distinct
import CodeAtlas.Proofs.Settings
import CodeAtlas.Proofs.Tree.DocComments
import CodeAtlas.Proofs.Terraform.Captures
import CodeAtlas.Proofs.Rows
