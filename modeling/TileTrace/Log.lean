import TileTrace.Mode.Basic
import TileTrace.Snapshot.Format
import TileTrace.Trace.Basic

/-!
# Log entries

Everything that is logged, as values: what happened, how grave it is, and the line that reports it.
-/

namespace TileTrace.Log

inductive Level
  | error
  | warn
  | info
  | debug
  deriving DecidableEq

def Level.name : Level → String
  | .error => "ERROR"
  | .warn => "WARN"
  | .info => "INFO"
  | .debug => "DEBUG"

def Level.isNotice : Level → Bool
  | .debug => false
  | _ => true

inductive Entry
  /-- A tile that was outside the window meets the start marker. -/
  | enters (tile : Tile) (cycle : Cycle) (pc : Pc)
  | leaves (tile : Tile) (cycle : Cycle)
  | window (window : Window)
  /-- How many events are kept of how many records. -/
  | kept (events records : Nat)
  /-- How many addresses a listing has, and how many of its lines are no instructions. -/
  | parsed (instructions skipped : Nat)
  | exceeds (start stop numTiles : Nat) (grid : Grid)
  | rendering (start stop : Nat) (mode : Mode)
  | wrote (kind : Snapshot.Kind) (path : String) (format : Snapshot.Format)
  | loaded (kind : Snapshot.Kind) (path : String)
  | noDisassembly (path : String)
  | compressing (path : String) (start stop : Marker) (grid : Grid)
  deriving DecidableEq

namespace Entry

def level : Entry → Level
  | enters .. | leaves .. | rendering .. | loaded .. => .debug
  | window .. | kept .. | parsed .. | wrote .. | compressing .. => .info
  | exceeds .. => .warn
  | noDisassembly .. => .error

def rangeText (start stop : Nat) : String :=
  "[" ++ Numeral.decimal start ++ ", " ++ Numeral.decimal stop ++ ")"

def message : Entry → String
  | enters tile cycle pc =>
    "tile " ++ tile.text ++ " enters window at cycle " ++ Numeral.decimal cycle.toNat ++
      " (pc " ++ pc.text ++ ")"
  | leaves tile cycle =>
    "tile " ++ tile.text ++ " leaves window at cycle " ++ Numeral.decimal cycle.toNat
  | window w => w.text
  | kept events records =>
    "kept " ++ Numeral.decimal events ++ " of " ++ Numeral.decimal records ++ " records"
  | parsed instructions skipped =>
    "parsed " ++ Numeral.decimal instructions ++ " instructions (" ++ Numeral.decimal skipped ++
      " lines skipped)"
  | exceeds start stop numTiles grid =>
    "tiles " ++ rangeText start stop ++ " exceed the " ++ Numeral.decimal numTiles ++
      " tiles of the " ++ grid.name ++ " grid"
  | rendering start stop mode =>
    "rendering tiles " ++ rangeText start stop ++ " in " ++ mode.name ++ " mode"
  | wrote kind path format =>
    "wrote " ++ kind.name ++ " snapshot to " ++ path ++ " (" ++ format.name ++ ")"
  | loaded kind path => "loaded " ++ kind.name ++ " snapshot from " ++ path
  | noDisassembly path => "disassembly " ++ path ++ " does not exist"
  | compressing path start stop grid =>
    "compressing " ++ path ++ " (start pc: " ++ start.text ++ ", end pc: " ++ stop.text ++ ", " ++
      grid.name ++ " grid)"

def line (e : Entry) : String :=
  e.level.name ++ " " ++ e.message

end Entry

end TileTrace.Log
