import TypeSketch.Text.Alphanumeric
import TypeSketch.Text.Blank
import TypeSketch.Text.Case
import TypeSketch.Entries
import TypeSketch.Binary64.Shortest
import TypeSketch.Literal
import TypeSketch.Json.Parser
import TypeSketch.Json.Printer
import TypeSketch.Sample
import TypeSketch.Shape.Key
import TypeSketch.Shape.Merge
import TypeSketch.Inference
import TypeSketch.Name.Singular
import TypeSketch.Name.Unique
import TypeSketch.Options
import TypeSketch.Keywords
import TypeSketch.Declaration.Emission
import TypeSketch.Declaration.Document
import TypeSketch.Lenient.Parser
import TypeSketch.Source
import TypeSketch.Channel
import TypeSketch.Config
import TypeSketch.Console
import TypeSketch.Command.Run
import TypeSketch.Bundled.Libraries
import TypeSketch.Main
import TypeSketch.Proofs.Declaration.Document
import TypeSketch.Proofs.Sample.Erased
import TypeSketch.Proofs.Declaration.History
import TypeSketch.Proofs.Declaration.Distinct
import TypeSketch.Proofs.Sample.Conformance
import TypeSketch.Proofs.Sample.Exactness
import TypeSketch.Proofs.Shape.Incremental
import TypeSketch.Proofs.Shape.Equality
import TypeSketch.Proofs.Shape.Sorted
import TypeSketch.Proofs.Sample.KeyOrder
import TypeSketch.Proofs.Declaration.Order
import TypeSketch.Proofs.Declaration.Cycles
import TypeSketch.Proofs.Declaration.Steps
import TypeSketch.Proofs.Declaration.Links
import TypeSketch.Proofs.Declaration.Graph
import TypeSketch.Proofs.Declaration.Legible
import TypeSketch.Proofs.Declaration.Lines
import TypeSketch.Proofs.Declaration.Summary
import TypeSketch.Proofs.Lenient.Member
import TypeSketch.Proofs.Lenient.Assignment
import TypeSketch.Proofs.Shape.Hash
import TypeSketch.Proofs.Source
import TypeSketch.Proofs.Name.Singular
import TypeSketch.Proofs.Name.Repeated
import TypeSketch.Proofs.Declaration.FreshNames
import TypeSketch.Proofs.Declaration.Quoting
import TypeSketch.Proofs.Declaration.Header
import TypeSketch.Proofs.Sampling
import TypeSketch.Proofs.Options.Layering
