import TreePanel.Command
import TreePanel.Count
import TreePanel.Decimal.Binary
import TreePanel.Decimal.Numeral
import TreePanel.Decimal.Shortest
import TreePanel.Decimal.Text
import TreePanel.Dock
import TreePanel.Document
import TreePanel.Editor
import TreePanel.EditorHost
import TreePanel.Environment
import TreePanel.Fault
import TreePanel.Files
import TreePanel.Files.Task
import TreePanel.Footer
import TreePanel.Geometry
import TreePanel.Grammar
import TreePanel.Grammar.Cursor
import TreePanel.Grammar.Edit
import TreePanel.Grammar.Json.Lexeme
import TreePanel.Grammar.Json.Parse
import TreePanel.Grammar.Json.Part
import TreePanel.Grammar.RangeTree
import TreePanel.Highlight
import TreePanel.Language
import TreePanel.Lines
import TreePanel.Listing
import TreePanel.Message
import TreePanel.Node
import TreePanel.Outline
import TreePanel.Outline.Viewport
import TreePanel.Panel
import TreePanel.Panel.Session
import TreePanel.Parser
import TreePanel.Path
import TreePanel.Proofs.Fault
import TreePanel.Proofs.Selection
import TreePanel.Proofs.Position
import TreePanel.Proofs.Session.Decoration
import TreePanel.Proofs.Session.Handle
import TreePanel.Proofs.Session.Run
import TreePanel.Rebuild
import TreePanel.RowFlags
import TreePanel.Selection
import TreePanel.Settings
import TreePanel.Settings.Field
import TreePanel.Settings.Misfit
import TreePanel.Settings.Reader
import TreePanel.Settings.Stored
import TreePanel.Settings.Text
import TreePanel.Snapshot
import TreePanel.Span
import TreePanel.Text.Quoted
import TreePanel.Text.Unprintable
import TreePanel.Transaction
import TreePanel.Yaml.Block
import TreePanel.Yaml.Content
import TreePanel.Yaml.Event
import TreePanel.Yaml.Plain
import TreePanel.Yaml.Quoted
import TreePanel.Yaml.Scan
import TreePanel.Yaml.Source
import TreePanel.Yaml.Stream
import TreePanel.Yaml.Tag
import TreePanel.Yaml.Token
import TreePanel.Yaml.Value
import TreePanel.Proofs.Outline
import TreePanel.Proofs.Viewport
import TreePanel.Proofs.Session.Scrolling
import TreePanel.Proofs.History
import TreePanel.Proofs.Session.Feed
import TreePanel.Proofs.Grammar.Nesting
import TreePanel.Proofs.Session.Safety
import TreePanel.Proofs.Session.Hover
import TreePanel.Proofs.Session.Lifecycle
import TreePanel.Proofs.Grammar.Edit
import TreePanel.Proofs.Reparse
import TreePanel.Proofs.Grammar.Json.Part
import TreePanel.Proofs.Grammar.Json.Lexeme
import TreePanel.Proofs.Grammar.Json.Parse
import TreePanel.Proofs.Grammar.Json.Tree
import TreePanel.Proofs.Session.Loop
import TreePanel.Proofs.Session.Offset
import TreePanel.Proofs.Session.Footprint
import TreePanel.Proofs.Session.Repaint
import TreePanel.Proofs.Rebuild
import TreePanel.Proofs.Session.Centering
import TreePanel.Proofs.Session.Footer
import TreePanel.Proofs.Session.Extent
import TreePanel.Proofs.Highlight
import TreePanel.Proofs.Outline.Rows
import TreePanel.Proofs.RowFlags
import TreePanel.Proofs.Outline.Flags
import TreePanel.Proofs.Listing.Reading
import TreePanel.Proofs.Outline.Nesting
import TreePanel.Proofs.Session.Click
import TreePanel.Proofs.Document
import TreePanel.Proofs.Editor.Moving
import TreePanel.Proofs.Editor.Undo
import TreePanel.Proofs.Lines
import TreePanel.Proofs.Lines.Coordinates
import TreePanel.Proofs.Lines.Replacement
import TreePanel.Proofs.Session.Wheel
import TreePanel.Proofs.Session.Pointing
import TreePanel.Proofs.Session.Quiet
import TreePanel.Proofs.Settings
import TreePanel.Proofs.Command
import TreePanel.Proofs.Dock
import TreePanel.Proofs.Grammar.Difference
import TreePanel.Proofs.Grammar.Cursor
import TreePanel.Proofs.Grammar.Slices
