import FlowPack.Archive.Labels
import FlowPack.Archive.Layout
import FlowPack.Archive.Listing
import FlowPack.Archive.Offset
import FlowPack.Archive.Scan
import FlowPack.Archive.Unpack
import FlowPack.Archive.Variant
import FlowPack.Bytes
import FlowPack.Command.Arguments
import FlowPack.Command.Flag
import FlowPack.Command.Help
import FlowPack.Command.Lookup
import FlowPack.Command.Run
import FlowPack.Command.Tree
import FlowPack.Compression.Checksum
import FlowPack.Compression.Codec
import FlowPack.Compression.Snappy
import FlowPack.Compression.Window
import FlowPack.Compression.Zstd.Bits
import FlowPack.Compression.Zstd.Frame
import FlowPack.Compression.Zstd.Fse
import FlowPack.Compression.Zstd.Huffman
import FlowPack.Compression.Zstd.Sequences
import FlowPack.Container.Basic
import FlowPack.Container.Inspection
import FlowPack.Container.Reader
import FlowPack.Container.Relocation
import FlowPack.Container.Writer
import FlowPack.Conversion
import FlowPack.Conversion.File
import FlowPack.Digest
import FlowPack.Disk.Input
import FlowPack.Disk.Path
import FlowPack.Disk.StagedFile
import FlowPack.Disk.Tree
import FlowPack.Journal.Level
import FlowPack.Journal.Logger
import FlowPack.Journal.Stamp
import FlowPack.Journal.Template
import FlowPack.Journal.Value
import FlowPack.Json.Basic
import FlowPack.Json.Parser
import FlowPack.Json.Printer
import FlowPack.Main
import FlowPack.Proofs.Decoding
import FlowPack.Report.Grid
import FlowPack.Report.Tables
import FlowPack.Script.Assembler
import FlowPack.Script.Basic
import FlowPack.Script.Decoder
import FlowPack.Script.Notes
import FlowPack.Settings.Basic
import FlowPack.Settings.Document
import FlowPack.Settings.Environment
import FlowPack.Settings.File
import FlowPack.Settings.Printer
import FlowPack.Text
import FlowPack.Text.Base64
import FlowPack.Text.Numeral
import FlowPack.Text.Printable
import FlowPack.Text.Quoted
import FlowPack.Text.Width
import FlowPack.Yaml.Characters
import FlowPack.Yaml.Cursor
import FlowPack.Yaml.Node
import FlowPack.Yaml.Node.Grammar
import FlowPack.Yaml.Printer
import FlowPack.Yaml.Scalar
import FlowPack.Yaml.Scalar.Number
import FlowPack.Yaml.Scalar.Timestamp
import FlowPack.Yaml.Token
import FlowPack.Yaml.Token.Block
import FlowPack.Yaml.Token.Lexer
import FlowPack.Yaml.Token.Scalar
import FlowPack.Yaml.Token.Tag
import FlowPack.Proofs.Grammar
import FlowPack.Proofs.Assembly
import FlowPack.Proofs.Containers
import FlowPack.Proofs.Programs
import FlowPack.Proofs.Relocation
import FlowPack.Proofs.Conversion
import FlowPack.Proofs.Sections
import FlowPack.Proofs.Reading
import FlowPack.Proofs.Records
import FlowPack.Proofs.Recovery
import FlowPack.Proofs.Resolution
import FlowPack.Proofs.Scanning
import FlowPack.Proofs.Disks
import FlowPack.Proofs.Staging
import FlowPack.Proofs.Stopping
import FlowPack.Proofs.Breaking
import FlowPack.Proofs.Summary
import FlowPack.Proofs.Sizes
import FlowPack.Proofs.Publishing
import FlowPack.Proofs.Marks
import FlowPack.Proofs.Inspection
import FlowPack.Proofs.Text.Base64
import FlowPack.Proofs.Yaml.Cursors
import FlowPack.Proofs.Settings.Checking
import FlowPack.Proofs.Settings.Expansion
import FlowPack.Proofs.Settings.Saving
import FlowPack.Proofs.Extents
import FlowPack.Proofs.Bounds
import FlowPack.Proofs.Strings
import FlowPack.Proofs.Offsets
import FlowPack.Proofs.Settings.Meaning
import FlowPack.Proofs.Labels
import FlowPack.Proofs.Numbering
import FlowPack.Proofs.Directories
import FlowPack.Proofs.Unpacking
import FlowPack.Proofs.Text.Order
import FlowPack.Proofs.Loggers
