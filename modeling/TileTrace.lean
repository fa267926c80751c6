import TileTrace.Main
import TileTrace.Proofs.CommandLine.Directives
import TileTrace.Proofs.CommandLine.Printing
import TileTrace.Proofs.CommandLine.Stages
import TileTrace.Proofs.CommandLine.Summary
import TileTrace.Proofs.Disassembly.Layout
import TileTrace.Proofs.Disassembly.Lines
import TileTrace.Proofs.Mode.Calls
import TileTrace.Proofs.Pc.Grammar
import TileTrace.Proofs.Render.Blank
import TileTrace.Proofs.Render.Count
import TileTrace.Proofs.Render.Dependence
import TileTrace.Proofs.Render.LineBreaks
import TileTrace.Proofs.Render.Table
import TileTrace.Proofs.Snapshot.Growth
import TileTrace.Proofs.Snapshot.Header
import TileTrace.Proofs.Snapshot.Passes
import TileTrace.Proofs.Snapshot.Storage
import TileTrace.Proofs.Snapshot.Truncation
import TileTrace.Proofs.Trace.Coverage
import TileTrace.Proofs.Trace.Ending
import TileTrace.Proofs.Trace.Interleaving
import TileTrace.Proofs.Trace.Layout
import TileTrace.Proofs.Trace.Messages
import TileTrace.Proofs.Trace.Refusal
