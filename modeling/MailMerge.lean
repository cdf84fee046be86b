import MailMerge.Archive.Checksum
import MailMerge.Archive.Inflate
import MailMerge.Archive.Names
import MailMerge.Archive.Reader
import MailMerge.Archive.Writer
import MailMerge.Command.Fill
import MailMerge.Command.Request
import MailMerge.Command.Run
import MailMerge.Data.Condition
import MailMerge.Data.Date
import MailMerge.Data.Display
import MailMerge.Data.File
import MailMerge.Data.FrontMatter
import MailMerge.Data.IsoDate
import MailMerge.Data.Json.Printer
import MailMerge.Data.Json.Reader
import MailMerge.Data.Path
import MailMerge.Data.Shown
import MailMerge.Data.Text
import MailMerge.Data.Value
import MailMerge.Data.Whole
import MailMerge.Data.Yaml.Kind
import MailMerge.Data.Yaml.Node
import MailMerge.Data.Yaml.Place
import MailMerge.Data.Yaml.Plain
import MailMerge.Data.Yaml.Quoted
import MailMerge.Data.Yaml.Reader
import MailMerge.Data.Yaml.Token
import MailMerge.Directive.Basic
import MailMerge.Directive.Grammar
import MailMerge.Directive.Scan
import MailMerge.Docx.Chart
import MailMerge.Docx.Drawing
import MailMerge.Docx.Paragraph
import MailMerge.Docx.Vocabulary
import MailMerge.Docx.Watermark
import MailMerge.Embed
import MailMerge.Fault
import MailMerge.Fill.Document
import MailMerge.Fill.Paragraph
import MailMerge.Generate
import MailMerge.Image.Address
import MailMerge.Image.Fetch
import MailMerge.Image.Format
import MailMerge.Journal
import MailMerge.Loop
import MailMerge.Main
import MailMerge.Number.Binary64
import MailMerge.Number.Grouped
import MailMerge.Number.Numeral
import MailMerge.Number.Shortest
import MailMerge.Options
import MailMerge.Package.Basic
import MailMerge.Package.Blank
import MailMerge.Package.Manifest
import MailMerge.Package.Path
import MailMerge.Proofs.Archive.Roundtrip
import MailMerge.Proofs.Data.Judged
import MailMerge.Proofs.Data.Quoted
import MailMerge.Proofs.Data.Refused
import MailMerge.Proofs.Directive.Accepted
import MailMerge.Proofs.Directive.Fills
import MailMerge.Proofs.Directive.Search
import MailMerge.Proofs.Directive.Tags
import MailMerge.Proofs.Directive.Tight
import MailMerge.Proofs.Docx.Cells
import MailMerge.Proofs.Docx.Charts
import MailMerge.Proofs.Docx.Plotted
import MailMerge.Proofs.Docx.Shown
import MailMerge.Proofs.Embedding.Places
import MailMerge.Proofs.Fault
import MailMerge.Proofs.Generation.Alike
import MailMerge.Proofs.Generation.Blocks
import MailMerge.Proofs.Generation.Cells
import MailMerge.Proofs.Generation.Commuting
import MailMerge.Proofs.Generation.Counted
import MailMerge.Proofs.Generation.Coverage
import MailMerge.Proofs.Generation.Delivered
import MailMerge.Proofs.Generation.Dispatch
import MailMerge.Proofs.Generation.Document
import MailMerge.Proofs.Generation.Drawings
import MailMerge.Proofs.Generation.Embed
import MailMerge.Proofs.Generation.Ends
import MailMerge.Proofs.Generation.Fates
import MailMerge.Proofs.Generation.Formats
import MailMerge.Proofs.Generation.Kept
import MailMerge.Proofs.Generation.Ledger
import MailMerge.Proofs.Generation.Loops
import MailMerge.Proofs.Generation.Manifests
import MailMerge.Proofs.Generation.Margins
import MailMerge.Proofs.Generation.NestedTables
import MailMerge.Proofs.Generation.Noted
import MailMerge.Proofs.Generation.Numbered
import MailMerge.Proofs.Generation.Numbers
import MailMerge.Proofs.Generation.Paragraph
import MailMerge.Proofs.Generation.Parallel
import MailMerge.Proofs.Generation.ParallelTables
import MailMerge.Proofs.Generation.Passed
import MailMerge.Proofs.Generation.Placeholders
import MailMerge.Proofs.Generation.Recorded
import MailMerge.Proofs.Generation.Rounds
import MailMerge.Proofs.Generation.RowRules
import MailMerge.Proofs.Generation.Settled
import MailMerge.Proofs.Generation.Steps
import MailMerge.Proofs.Generation.Table
import MailMerge.Proofs.Generation.Tacit
import MailMerge.Proofs.Generation.Tally
import MailMerge.Proofs.Generation.Told
import MailMerge.Proofs.Generation.Undirected
import MailMerge.Proofs.Generation.Watermarked
import MailMerge.Proofs.Generation.World
import MailMerge.Proofs.Package.Agreement
import MailMerge.Proofs.Package.Arranged
import MailMerge.Proofs.Package.Contents
import MailMerge.Proofs.Package.Entry
import MailMerge.Proofs.Package.Isolated
import MailMerge.Proofs.Package.Labels
import MailMerge.Proofs.Package.Lasting
import MailMerge.Proofs.Package.Lookup
import MailMerge.Proofs.Package.Manifest
import MailMerge.Proofs.Package.Names
import MailMerge.Proofs.Package.Outline
import MailMerge.Proofs.Package.Parts
import MailMerge.Proofs.Package.Relations
import MailMerge.Proofs.Package.Saved
import MailMerge.Proofs.Package.Sketched
import MailMerge.Proofs.Table.Grid
import MailMerge.Proofs.Table.Styled
import MailMerge.Proofs.Text.Pattern
import MailMerge.Proofs.Text.Search
import MailMerge.Proofs.Tree.Acyclic
import MailMerge.Proofs.Tree.Branching
import MailMerge.Proofs.Tree.Current
import MailMerge.Proofs.Tree.Dressed
import MailMerge.Proofs.Tree.Edit
import MailMerge.Proofs.Tree.Endings
import MailMerge.Proofs.Tree.Fates
import MailMerge.Proofs.Tree.Index
import MailMerge.Proofs.Tree.Indexed
import MailMerge.Proofs.Tree.Paths
import MailMerge.Proofs.Tree.Planted
import MailMerge.Proofs.Tree.Remains
import MailMerge.Proofs.Tree.Restyled
import MailMerge.Proofs.Tree.Rework
import MailMerge.Proofs.Tree.Shown
import MailMerge.Proofs.Tree.Single
import MailMerge.Proofs.Tree.Sorted
import MailMerge.Proofs.Tree.Twins
import MailMerge.Proofs.Tree.Work
import MailMerge.Proofs.Tree.Written
import MailMerge.Proofs.Xml.Attributes
import MailMerge.Proofs.Xml.OpeningTag
import MailMerge.Proofs.Xml.Registry
import MailMerge.Proofs.Xml.RootTag
import MailMerge.Proofs.Xml.Spelling
import MailMerge.Report
import MailMerge.Service
import MailMerge.Session
import MailMerge.Settings
import MailMerge.Storage.Basic
import MailMerge.Storage.Folder
import MailMerge.Table.Build
import MailMerge.Table.Style
import MailMerge.Text.Blank
import MailMerge.Text.CodePage
import MailMerge.Text.Digit
import MailMerge.Text.Ignorable
import MailMerge.Text.Lower
import MailMerge.Text.Order
import MailMerge.Text.Pattern
import MailMerge.Text.Printable
import MailMerge.Text.Quoted
import MailMerge.Text.Ranges
import MailMerge.Text.Search
import MailMerge.Text.Utf8
import MailMerge.Text.Word
import MailMerge.Tree.Basic
import MailMerge.Tree.Index
import MailMerge.Tree.Text
import MailMerge.Xml.Basic
import MailMerge.Xml.Chars
import MailMerge.Xml.Encoding
import MailMerge.Xml.Prefixes
import MailMerge.Xml.Reader
import MailMerge.Xml.RootTag
import MailMerge.Xml.Token
import MailMerge.Xml.Writer
