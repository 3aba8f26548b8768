import TagLint.Main
import TagLint.Proofs.Lossless
import TagLint.Proofs.Nesting
import TagLint.Proofs.TreeShape
import TagLint.Proofs.Reads
import TagLint.Proofs.Tiling
import TagLint.Proofs.Draft
import TagLint.Proofs.RoundTrip
import TagLint.Proofs.Feeding
import TagLint.Proofs.TagRereading
import TagLint.Proofs.Rereading
import TagLint.Proofs.LineCount
import TagLint.Proofs.Weaving
import TagLint.Proofs.BreakPlaces
import TagLint.Proofs.PlaceOrder
import TagLint.Proofs.Mending
import TagLint.Proofs.Convergence
import TagLint.Proofs.Splicing
import TagLint.Proofs.OpenElements
import TagLint.Proofs.ClosingReports
import TagLint.Proofs.TagMending
import TagLint.Proofs.ClosingEdits
import TagLint.Proofs.ClosingFixes
import TagLint.Proofs.ElementTree
import TagLint.Proofs.Restyling
import TagLint.Proofs.FixedElements
import TagLint.Proofs.WovenPlaces
import TagLint.Proofs.Complaints
import TagLint.Proofs.FittingEdits
import TagLint.Proofs.TagSpans
import TagLint.Proofs.HarmlessFixes
import TagLint.Proofs.FixLoop
import TagLint.Proofs.Settling
import TagLint.Proofs.ByteSearch
import TagLint.Proofs.CheckedBytes
import TagLint.Proofs.Scanner
import TagLint.Proofs.ScannerStops
import TagLint.Proofs.ScannedTags
import TagLint.Proofs.CheckedParse
import TagLint.Proofs.ExactSpans
import TagLint.Proofs.Directives
import TagLint.Proofs.Suppression
import TagLint.Proofs.ReportPlaces
import TagLint.Proofs.FixedFiles
import TagLint.Proofs.ForeignSubtrees
import TagLint.Proofs.DueBreaks
import TagLint.Proofs.DiagnosticPlaces
import TagLint.Proofs.Independence
import TagLint.Proofs.ClosingVerdicts
import TagLint.Proofs.JsonLexemes
import TagLint.Proofs.JsonReading
import TagLint.Proofs.SectionChanges
import TagLint.Proofs.ConfigForms
import TagLint.Proofs.StableSort
import TagLint.Proofs.OrderedEdits
import TagLint.Proofs.GreedyFixes
import TagLint.Proofs.SkimmedParts
import TagLint.Proofs.TemplateSpans
import TagLint.Proofs.WalkOrder
import TagLint.Proofs.WrittenTags
import TagLint.Proofs.TagShape
import TagLint.Proofs.RawElements
import TagLint.Proofs.Trimming
import TagLint.Proofs.DirectiveReasons
import TagLint.Proofs.Patches
import TagLint.Proofs.ContentLines
import TagLint.Proofs.ResultCounts
import TagLint.Proofs.LinePositions
import TagLint.Proofs.Enclosing
import TagLint.Proofs.ResultForms
import TagLint.Proofs.CaretPlaces
import TagLint.Proofs.LineBreaks
