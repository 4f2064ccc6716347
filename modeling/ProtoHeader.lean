import ProtoHeader.Text.CharRange
import ProtoHeader.Text.Blank
import ProtoHeader.Text.DecimalDigit
import ProtoHeader.Text.WordChar
import ProtoHeader.Text.Graphic
import ProtoHeader.Text.Quoted
import ProtoHeader.Text.Escaped
import ProtoHeader.Text.Lines
import ProtoHeader.Text.Segments
import ProtoHeader.Fault
import ProtoHeader.Path
import ProtoHeader.Language
import ProtoHeader.Scalar
import ProtoHeader.Source.Mark
import ProtoHeader.Source.Line
import ProtoHeader.Grammar.Scan
import ProtoHeader.Grammar.Statement
import ProtoHeader.Grammar.Number
import ProtoHeader.Grammar.Member
import ProtoHeader.Schema.Basic
import ProtoHeader.Schema.Position
import ProtoHeader.Schema.Resolve
import ProtoHeader.Schema.Member
import ProtoHeader.Schema.Progress
import ProtoHeader.Schema.Parse
import ProtoHeader.Layout.Record
import ProtoHeader.Layout.DataModel
import ProtoHeader.Layout.Storage
import ProtoHeader.Layout.Plain
import ProtoHeader.Layout.Memo
import ProtoHeader.Writer
import ProtoHeader.Header.Basic
import ProtoHeader.Header.Name
import ProtoHeader.Header.FieldType
import ProtoHeader.Header.Build
import ProtoHeader.Header.Render
import ProtoHeader.Compile
import ProtoHeader.Json.Basic
import ProtoHeader.Json.Dump
import ProtoHeader.Command.Basic
import ProtoHeader.Command.Arguments
import ProtoHeader.Command.Folder
import ProtoHeader.Main
import ProtoHeader.Proofs.Ancestry
import ProtoHeader.Proofs.Containment
import ProtoHeader.Proofs.MemoLayout
import ProtoHeader.Proofs.HeaderLayout
import ProtoHeader.Proofs.RecordLayout
import ProtoHeader.Proofs.FlatLeaves
import ProtoHeader.Proofs.SourceTree
import ProtoHeader.Proofs.Scanning
import ProtoHeader.Proofs.WrittenStatements
import ProtoHeader.Proofs.NormalizedText
import ProtoHeader.Proofs.TreeRecovery
import ProtoHeader.Proofs.ClosingLines
import ProtoHeader.Proofs.ScopeBraces
import ProtoHeader.Proofs.Revision
import ProtoHeader.Proofs.TargetTypes
import ProtoHeader.Proofs.EscapedNames
import ProtoHeader.Proofs.Reader
import ProtoHeader.Proofs.Reflow
import ProtoHeader.Proofs.Renumbering
import ProtoHeader.Proofs.LineNumbers
import ProtoHeader.Proofs.CanonicalLines
import ProtoHeader.Proofs.UnrecognisedLines
import ProtoHeader.Proofs.KeptLayouts
import ProtoHeader.Proofs.ValidLayouts
import ProtoHeader.Proofs.Elements
import ProtoHeader.Proofs.OpenElements
import ProtoHeader.Proofs.PhysicalLines
import ProtoHeader.Proofs.Origins
import ProtoHeader.Proofs.LegalNames
import ProtoHeader.Proofs.QualifiedNames
import ProtoHeader.Proofs.WholeOrNothing
import ProtoHeader.Proofs.FieldOptions
import ProtoHeader.Proofs.JsonReader
import ProtoHeader.Proofs.DumpReading
import ProtoHeader.Proofs.TightPacking
import ProtoHeader.Proofs.FirstFault
import ProtoHeader.Proofs.Respacing
import ProtoHeader.Proofs.RespacedLines
import ProtoHeader.Proofs.Comments
import ProtoHeader.Proofs.DoublingMessages
import ProtoHeader.Proofs.WordArithmetic
import ProtoHeader.Proofs.Numerals
import ProtoHeader.Proofs.FieldReadings
import ProtoHeader.Proofs.LayoutStack
import ProtoHeader.Proofs.MessageOrder
import ProtoHeader.Proofs.KeptCharacters
import ProtoHeader.Proofs.LineByLine
import ProtoHeader.Proofs.EmbeddedFragments
import ProtoHeader.Proofs.RenderedLines
import ProtoHeader.Proofs.RenderedClasses
import ProtoHeader.Proofs.BoundNames
import ProtoHeader.Proofs.NameCollisions
