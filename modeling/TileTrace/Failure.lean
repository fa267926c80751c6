import TileTrace.Files.Path
import TileTrace.Snapshot.Envelope
import TileTrace.Trace.Rows

/-!
# Failures

Everything that can go wrong with a trace, its rendering and its files, and the messages about it.
-/

namespace TileTrace

inductive Activity
  | compressing (path : String)
  | parsing (path : String)
  | loadingTrace (path : String)
  | loadingDisassembly (path : String)
  deriving DecidableEq

def Activity.message : Activity → String
  | compressing path => "failed to compress " ++ path
  | parsing path => "failed to parse " ++ path
  | loadingTrace path => "failed to load trace " ++ path
  | loadingDisassembly path => "failed to load disassembly " ++ path

inductive Failure
  | noDirectives
  | missingDisassembly
  | gridMismatch (trace modes : Grid)
  | missingInstruction (pc : Pc) (tile : Tile) (cycle : Cycle)
  | tileOutOfRange (tile : Tile) (cycle : Cycle) (grid : Grid)
  | openFile (path : String) (fault : FileFault)
  | snapshot (error : Snapshot.ReadError)
  | rows (error : Trace.Rows.Error)
  | notUtf8
  | file (fault : FileFault)
  | during (activity : Activity) (cause : Failure)
  deriving DecidableEq

namespace Failure

/-- Whether the choice of what to render is at fault. -/
def isConfiguration : Failure → Bool
  | noDirectives | missingDisassembly | gridMismatch .. => true
  | during _ cause => cause.isConfiguration
  | _ => false

def atTile (tile : Tile) (cycle : Cycle) : String :=
  "tile " ++ tile.text ++ " at cycle " ++ Numeral.decimal cycle.toNat

def message : Failure → String
  | noDirectives =>
    "no render mode was assigned (use --mode or one of --lo, --mid, --hi, --pc, --full)"
  | missingDisassembly => "tiles rendered in full mode require a disassembly dictionary"
  | gridMismatch trace modes =>
    "render modes were assigned for a " ++ modes.name ++ " grid but the trace is of a " ++
      trace.name ++ " grid"
  | missingInstruction pc tile cycle =>
    "no disassembly for pc " ++ pc.text ++ " (" ++ atTile tile cycle ++ ")"
  | tileOutOfRange tile cycle grid =>
    atTile tile cycle ++ " is outside of the " ++ grid.name ++ " grid"
  | openFile path _ => "could not open file " ++ Text.quote path
  | snapshot e => e.message
  | rows e => e.message
  | notUtf8 => "stream did not contain valid UTF-8"
  | file fault => fault.message
  | during activity _ => activity.message

/-- The messages about a failure and its causes, from what was being done to what went wrong. -/
def chain : Failure → List String
  | openFile path fault => [(openFile path fault).message, fault.message]
  | during activity cause => activity.message :: cause.chain
  | f => [f.message]

end Failure

end TileTrace
