import TileTrace.Mode.Assignment
import TileTrace.Operation

/-!
# Rendering

A line trace is a table with a row for every cycle of the window and a column for every tile that has a
mode. All fields of a column have the width of its mode. Whether a trace can be rendered is decided
before the first line is written.
-/

namespace TileTrace

def fit (s : List Char) (width : Nat) : List Char :=
  s.take width ++ List.replicate (width - s.length) ' '

def maxWidth : Nat := 65535

def fit? (s : List Char) (width : Nat) : Option (List Char) :=
  if width ≤ maxWidth then some (fit s width) else none

/-- No mode is too wide for a field, so that rendering goes by `fit`. -/
theorem fit?_width (s : List Char) (m : Mode) : fit? s m.width = some (fit s m.width) := by
  cases m <;> rfl

structure Rendering where
  trace : Trace
  modes : Modes
  disassembly : Option Disassembly

structure Column where
  tile : Tile
  mode : Mode
  history : History

namespace Rendering

def columns (r : Rendering) : List Column :=
  r.trace.columns.filterMap fun (tile, history) =>
    (r.modes.get? tile).map fun mode => ⟨tile, mode, history⟩

/-! ## Fields -/

/-- The field of a stall in full mode is what its label says behind the first underscore. -/
def stallReason (label : List Char) : List Char :=
  match label.dropWhile (· ≠ '_') with
  | _ :: reason => reason
  | [] => label

def fullContent (d : Option Disassembly) (tile : Tile) (cycle : Cycle) (e : Event) :
    Except Failure (List Char) :=
  let low := e.pc.lowDigits.toList
  if e.pc.isIdle then
    match Operation.classify e.operation with
    | .stall _ => .ok (['#', '#'] ++ stallReason e.operation.toList)
    | _ => .ok (low ++ [' '] ++ e.operation.toList)
  else
    match d with
    | none => .error .missingDisassembly
    | some d =>
      match d.get? e.pc with
      | none => .error (.missingInstruction e.pc tile cycle)
      | some fragments => .ok (low ++ fragments.flatMap fun f => ' ' :: f.toList)

def content (d : Option Disassembly) (tile : Tile) (mode : Mode) (cycle : Cycle) (e : Event) :
    Except Failure (List Char) :=
  match mode with
  | .lo =>
    match Operation.classify e.operation with
    | .instruction _ => .ok ['@']
    | .stall code => .ok [code.lo]
    | .unrecognized => .ok ['0']
  | .mid =>
    match Operation.classify e.operation with
    | .instruction code => .ok code.toList
    | .stall code => .ok code.mid.toList
    | .unrecognized => .ok ['0', '0', '0']
  | .hi => .ok e.operation.toList
  | .pc => .ok (if e.pc.isIdle then ['#', '#', 'F', 'F'] else e.pc.lowDigits.toList)
  | .full => fullContent d tile cycle e

def field (r : Rendering) (c : Column) (cycle : Cycle) : Except Failure (List Char) :=
  match c.history.events.get? cycle with
  | none => .ok (List.replicate c.mode.width ' ')
  | some e => do return fit (← content r.disassembly c.tile c.mode cycle e) c.mode.width

/-! ## Lines -/

def cell (c : Column) (text : List Char) : List Char :=
  text ++ c.mode.separator.toList

def header (r : Rendering) (title : String) (label : Tile → List Char) : List Char :=
  title.toList ++ ['\t'] ++ (r.columns.flatMap fun c => cell c (fit (label c.tile) c.mode.width)) ++ ['\n']

def row (r : Rendering) (cycle : Cycle) : Except Failure (List Char) := do
  let cells ← r.columns.mapM fun c => return cell c (← r.field c cycle)
  return Numeral.write 10 cycle.toNat ++ ['\t'] ++ cells.flatten ++ ['\n']

def text (r : Rendering) : Except Failure String := do
  let rows ← r.trace.window.cycles.mapM r.row
  return String.ofList (r.header "Tiles" (fun t => Numeral.write 16 t.x) ++
    r.header "Cycles" (fun t => Numeral.write 10 t.y) ++ rows.flatten)

/-! ## What can be rendered -/

/-- Whether full mode has no instruction to show for an event. -/
def lacksInstruction (d : Disassembly) (e : Event) : Bool :=
  !e.pc.isIdle && !d.contains e.pc

/-- The first event, by tile and then by cycle, that full mode has to show and cannot. -/
def firstLacking? (r : Rendering) (d : Disassembly) : Option Failure :=
  match h : r.trace.window.bounds? with
  | none => none
  | some (a, b) =>
    (r.columns.filter (·.mode.needsDisassembly)).findSome? fun c =>
      ((c.history.events.range a b (Window.bounds?_ordered h)).find? (lacksInstruction d ·.2)).map
        fun (cycle, e) => .missingInstruction e.pc c.tile cycle

/-- Checks what is to be rendered: modes for the grid of the trace, a dictionary if full mode needs one,
and every instruction that full mode shows in it. -/
def new (trace : Trace) (modes : Modes) (disassembly : Option Disassembly) :
    Except Failure Rendering :=
  let r : Rendering := ⟨trace, modes, disassembly⟩
  if modes.grid ≠ trace.grid then .error (.gridMismatch trace.grid modes.grid)
  else
    match disassembly with
    | none => if modes.needsDisassembly then .error .missingDisassembly else .ok r
    | some d =>
      match r.firstLacking? d with
      | some f => .error f
      | none => .ok r

end Rendering

end TileTrace
