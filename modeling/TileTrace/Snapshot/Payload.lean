import TileTrace.Disassembly
import TileTrace.Snapshot.Format
import TileTrace.Snapshot.Reading
import TileTrace.Trace.Basic

/-!
# Payloads

How traces and disassemblies are laid out in a snapshot: the document that is written of each, and the
readers that make it again from a document. A trace is a record of its grid, its window and the list of
its tiles, whose events are a map from cycles to records; a disassembly is a record of one map.
-/

namespace TileTrace

namespace Snapshot

def Kind.Payload : Kind → Type
  | .trace => Trace
  | .disassembly => Disassembly

instance : (k : Kind) → DecidableEq k.Payload
  | .trace => inferInstanceAs (DecidableEq Trace)
  | .disassembly => inferInstanceAs (DecidableEq Disassembly)

/-! ## Writing -/

namespace Value

def ofOption : Option UInt64 → Value
  | none => absent
  | some n => word n

def gridNames : List (String × Grid) :=
  [("Full", .full), ("Reduced", .reduced)]

def ofGrid : Grid → Value
  | .full => text "Full"
  | .reduced => text "Reduced"

def ofWindow (w : Window) : Value :=
  map [(.name "start_cycle", ofOption w.start), (.name "end_cycle", ofOption w.stop)]

def ofEvent (e : Event) : Value :=
  map [(.name "pc", text e.pc.text), (.name "operation", text e.operation)]

def ofHistory (h : History) : Value :=
  map [(.name "in_range", flag h.inRange),
    (.name "events", map (h.events.entries.map fun (c, e) => (.number c, ofEvent e)))]

def ofTrace (t : Trace) : Value :=
  map [(.name "grid", ofGrid t.grid), (.name "window", ofWindow t.window),
    (.name "tiles", list (t.tiles.map ofHistory))]

def ofDisassembly (d : Disassembly) : Value :=
  map [(.name "instructions",
    map (d.instructions.entries.map fun (pc, fragments) => (.name pc.text, list (fragments.map text))))]

def ofPayload : {k : Kind} → k.Payload → Value
  | .trace, t => ofTrace t
  | .disassembly, d => ofDisassembly d

end Value

/-! ## Reading -/

namespace Node

structure WindowFields where
  start : Option (Option Cycle) := none
  stop : Option (Option Cycle) := none

/-- A bound that is not there is a bound that was never met. -/
def readWindow (fmt : Format) (n : Node) : Except Fault Window := do
  let fields : WindowFields ← n.readRecord fmt "GlobalWindow" [
    ⟨"start_cycle", (·.start.isSome), fun v s => do
      return { s with start := some (← v.readOption (readCycle fmt)) }⟩,
    ⟨"end_cycle", (·.stop.isSome), fun v s => do
      return { s with stop := some (← v.readOption (readCycle fmt)) }⟩] {}
  return ⟨fields.start.getD none, fields.stop.getD none⟩

structure EventFields where
  pc : Option Pc := none
  operation : Option String := none

def readEvent (fmt : Format) (n : Node) : Except Fault Event := do
  let fields : EventFields ← n.readRecord fmt "Event" [
    ⟨"pc", (·.pc.isSome), fun v s => return { s with pc := some (← v.readPc) }⟩,
    ⟨"operation", (·.operation.isSome), fun v s => return { s with operation := some (← v.readText) }⟩] {}
  return ⟨← require "pc" fields.pc, ← require "operation" fields.operation⟩

structure HistoryFields where
  inRange : Option Bool := none
  events : Option (OrderedMap Cycle Event) := none

def readHistory (fmt : Format) (n : Node) : Except Fault History := do
  let fields : HistoryFields ← n.readRecord fmt "TileWindow" [
    ⟨"in_range", (·.inRange.isSome), fun v s => return { s with inRange := some (← v.readFlag fmt) }⟩,
    ⟨"events", (·.events.isSome), fun v s => do
      let entries ← v.readEntries (readCycleKey fmt) (readEvent fmt)
      return { s with events := some (.ofList entries) }⟩] {}
  return ⟨← require "in_range" fields.inRange, ← require "events" fields.events⟩

structure TraceFields where
  grid : Option Grid := none
  window : Option Window := none
  tiles : Option (List History) := none

def readTrace (fmt : Format) (n : Node) : Except Fault Trace := do
  let fields : TraceFields ← n.readRecord fmt "TraceStore" [
    ⟨"grid", (·.grid.isSome), fun v s => do
      return { s with grid := some (← v.readChoice fmt "GridSize" Value.gridNames) }⟩,
    ⟨"window", (·.window.isSome), fun v s => return { s with window := some (← v.readWindow fmt) }⟩,
    ⟨"tiles", (·.tiles.isSome), fun v s => do
      return { s with tiles := some (← v.readList (readHistory fmt)) }⟩] {}
  return ⟨← require "grid" fields.grid, ← require "window" fields.window, ← require "tiles" fields.tiles⟩

structure DisassemblyFields where
  instructions : Option (OrderedMap Pc (List String)) := none

def readDisassembly (fmt : Format) (n : Node) : Except Fault Disassembly := do
  let fields : DisassemblyFields ← n.readRecord fmt "Disassembly" [
    ⟨"instructions", (·.instructions.isSome), fun v s => do
      let entries ← v.readEntries readPc (readList readText)
      return { s with instructions := some (.ofList entries) }⟩] {}
  return ⟨← require "instructions" fields.instructions⟩

def readPayload (fmt : Format) : (k : Kind) → Node → Except Fault k.Payload
  | .trace, n => n.readTrace fmt
  | .disassembly, n => n.readDisassembly fmt

end Node

end Snapshot

end TileTrace
