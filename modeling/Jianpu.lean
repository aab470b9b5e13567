import Jianpu.Text.RangeTable
import Jianpu.Text.Blank
import Jianpu.Text.Letter
import Jianpu.Text.Digit
import Jianpu.Text.Printable
import Jianpu.Text.Quoted
import Jianpu.Decimal.Integer
import Jianpu.Decimal.Binary
import Jianpu.Decimal.Read
import Jianpu.Decimal.Shortest
import Jianpu.Decimal.Text
import Jianpu.Json
import Jianpu.Json.Read
import Jianpu.Frac
import Jianpu.Issue
import Jianpu.Source.Line
import Jianpu.Source.Token
import Jianpu.Command
import Jianpu.Source.CommandLine
import Jianpu.LineTree
import Jianpu.Source.Bracket
import Jianpu.Text.Split
import Jianpu.Music.Props
import Jianpu.Music.Render
import Jianpu.Music.Note
import Jianpu.Music.Section
import Jianpu.Music.Lyric
import Jianpu.Content.Chunk
import Jianpu.Content.PropItem
import Jianpu.Content.BarlineAttr
import Jianpu.Content.JumperRow
import Jianpu.Content.LyricRow
import Jianpu.Content.Atom
import Jianpu.Content.Notes
import Jianpu.Content.Sections
import Jianpu.Content.TypedLine
import Jianpu.Content.TypedTree
import Jianpu.Score.Timeline
import Jianpu.Score.Voices
import Jianpu.Score.Columns
import Jianpu.Score.Links
import Jianpu.Score.Verses
import Jianpu.Performance.Basic
import Jianpu.Performance.Walk
import Jianpu.Layout.Space
import Jianpu.Layout.Cache
import Jianpu.Score.Lines
import Jianpu.Layout.Line
import Jianpu.Score.Document
import Jianpu.Yaml.Token
import Jianpu.Yaml.Scalar
import Jianpu.Yaml.Property
import Jianpu.Yaml.Stream
import Jianpu.Yaml.Event
import Jianpu.Yaml.Decode
import Jianpu.Settings
import Jianpu.Score.Places
import Jianpu.Compilation
import Jianpu.Main
import Jianpu.Proofs.Performance.Turns
import Jianpu.Proofs.Performance.Bounds
import Jianpu.Proofs.Performance.PassNumbers
import Jianpu.Proofs.Performance.Conflicts
import Jianpu.Proofs.Frac.Exactness
import Jianpu.Proofs.Frac.Reading
import Jianpu.Proofs.Frac.Order
import Jianpu.Proofs.Brackets.Matching
import Jianpu.Proofs.Brackets.Building
import Jianpu.Proofs.LineTree.Nodes
import Jianpu.Proofs.LineTree.Placing
import Jianpu.Proofs.LineTree.Building
import Jianpu.Proofs.Performance.Reference
import Jianpu.Proofs.Performance.Repeats
import Jianpu.Proofs.Performance.RoadMap
import Jianpu.Proofs.Performance.Admission
import Jianpu.Proofs.Tokens.Literals
import Jianpu.Proofs.Tokens.Tiling
import Jianpu.Proofs.Columns.TimeAxis
import Jianpu.Proofs.Columns.Rows
import Jianpu.Proofs.Columns.Signatures
import Jianpu.Proofs.Columns.Voices
import Jianpu.Proofs.Columns.Fragments
import Jianpu.Proofs.Columns.Flatten
import Jianpu.Proofs.Columns.Articles
import Jianpu.Proofs.Places.Cursor
import Jianpu.Proofs.Places.Pieces
import Jianpu.Proofs.Sections.Slots
import Jianpu.Proofs.Context.Runs
import Jianpu.Proofs.Context.Scope
import Jianpu.Proofs.Notes.Timing
import Jianpu.Proofs.Notes.Durations
import Jianpu.Proofs.Links.Walk
import Jianpu.Proofs.Links.Drawing
import Jianpu.Proofs.Links.Voiding
import Jianpu.Proofs.Verses.Syllables
import Jianpu.Proofs.Tokens.CommandLines
import Jianpu.Proofs.Links.Fresh
import Jianpu.Proofs.Links.Ties
import Jianpu.Proofs.Text.Cuts
import Jianpu.Proofs.Source.LogicalLines
import Jianpu.Proofs.Music.Meter
import Jianpu.Proofs.Performance.Melodies
import Jianpu.Proofs.Lines.Cutting
import Jianpu.Proofs.Issues.Messages
import Jianpu.Proofs.Issues.Yields
import Jianpu.Proofs.Props.Words
import Jianpu.Proofs.Jumpers.Reading
import Jianpu.Proofs.Lyrics.Reading
import Jianpu.Proofs.Frac.Compare
import Jianpu.Proofs.Context.Variation
import Jianpu.Proofs.Columns.Omissions
import Jianpu.Proofs.Notes.Swing
import Jianpu.Proofs.Notes.Fuel
import Jianpu.Proofs.Layout.Relaxation
import Jianpu.Proofs.Layout.Cache
import Jianpu.Proofs.Places.Rereading
import Jianpu.Proofs.Places.Sites
import Jianpu.Proofs.Places.Highlight
