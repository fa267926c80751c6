import TileTrace.Report

/-!
# Building a trace

Records are taken in the order of the trace. A tile enters the window at a record with the start marker
and leaves it behind a record with the end marker, and what it executes in between is kept; it may enter
again. The window over all tiles begins at the first start marker and ends at the last end marker.
-/

namespace TileTrace

structure Selection where
  start : Marker
  stop : Marker
  grid : Grid
  deriving DecidableEq

namespace Selection

/-- Whether a record makes its tile leave the window. The marker for every record does not. -/
def Closes (s : Selection) (pc : Pc) : Prop :=
  s.stop = .pc pc

instance (s : Selection) (pc : Pc) : Decidable (s.Closes pc) :=
  inferInstanceAs (Decidable (s.stop = .pc pc))

end Selection

structure Builder where
  selection : Selection
  trace : Trace
  records : Nat
  deriving DecidableEq

def History.take (h : History) (s : Selection) (r : Record) : History :=
  let entered := h.inRange || decide (s.start.Matches r.pc)
  { inRange := entered && !decide (s.Closes r.pc)
    events := if entered then h.events.insert r.cycle r.event else h.events }

def Window.take (w : Window) (s : Selection) (r : Record) : Window :=
  { start := if s.start.Matches r.pc then some (w.start.getD r.cycle) else w.start
    stop := if s.stop.Matches r.pc then some r.cycle else w.stop }

namespace Builder

def new (s : Selection) : Builder :=
  ⟨s, .blank s.grid, 0⟩

def entries (s : Selection) (h : History) (r : Record) : List Log.Entry :=
  (if s.start.Matches r.pc ∧ h.inRange = false then [.enters r.tile r.cycle r.pc] else []) ++
    (if s.Closes r.pc then [.leaves r.tile r.cycle] else [])

/-- Takes a record. One of a tile outside the grid is refused, and changes nothing. -/
def push (b : Builder) (r : Record) : Report Builder :=
  match b.selection.grid.index? r.tile with
  | none => .fail (.tileOutOfRange r.tile r.cycle b.selection.grid)
  | some i =>
    let h := b.trace.tiles[i]?.getD {}
    ⟨entries b.selection h r, .ok
      { b with
        trace := { b.trace with
          window := b.trace.window.take b.selection r
          tiles := b.trace.tiles.set i (h.take b.selection r) }
        records := b.records + 1 }⟩

def pushAll (b : Builder) : List (Except Failure Record) → Report Builder
  | [] => .pure b
  | .error f :: _ => .fail f
  | .ok r :: rs => (b.push r).bind fun b => pushAll b rs

def finish (b : Builder) : Report Trace :=
  ⟨[.window b.trace.window, .kept b.trace.numEvents b.records], .ok b.trace⟩

end Builder

namespace Trace

def build (s : Selection) (rs : List (Except Failure Record)) : Report Trace :=
  ((Builder.new s).pushAll rs).bind Builder.finish

def ofCsv (s : Selection) (text : List UInt8) : Report Trace :=
  build s ((Rows.ofBytes text).map (Except.mapError .rows))

/-- The trace of what was opened. A directory can be opened but not read, and is a text without
records. -/
def ofOpened (s : Selection) : Except FileFault (List UInt8) → Report Trace
  | .ok text => ofCsv s text
  | .error _ => build s []

end Trace

end TileTrace
