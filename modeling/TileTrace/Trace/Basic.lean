import TileTrace.Grid
import TileTrace.Pc

/-!
# Traces

A record is one row of an operation trace: what a tile executed at a cycle. A trace keeps, for every
tile, the events between the window markers by cycle, and the bounds of the window over all tiles.
Its summary is a line with the window and how many events there are, and a line for every tile of the
grid that has any.
-/

namespace TileTrace

abbrev Cycle := UInt64

structure Record where
  tile : Tile
  cycle : Cycle
  pc : Pc
  operation : String
  deriving DecidableEq

structure Event where
  pc : Pc
  operation : String
  deriving DecidableEq

def Record.event (r : Record) : Event :=
  ⟨r.pc, r.operation⟩

/-- What is known of one tile: whether it was inside the window when the trace ended, and the events
kept while it was inside. -/
structure History where
  inRange : Bool := false
  events : OrderedMap Cycle Event := ∅
  deriving DecidableEq

namespace History

def span? (h : History) : Option (Cycle × Cycle) := do
  return (← h.events.firstKey?, ← h.events.lastKey?)

end History

structure Window where
  start : Option Cycle := none
  stop : Option Cycle := none
  deriving DecidableEq

namespace Window

theorem eq_of_bounds {w v : Window} (hstart : w.start = v.start) (hstop : w.stop = v.stop) : w = v := by
  cases w; cases v; cases hstart; cases hstop; rfl

def bounds? (w : Window) : Option (Cycle × Cycle) :=
  match w.start, w.stop with
  | some a, some b => if a ≤ b then some (a, b) else none
  | _, _ => none

theorem bounds?_eq_some {w : Window} {a b : Cycle} :
    w.bounds? = some (a, b) ↔ w.start = some a ∧ w.stop = some b ∧ a ≤ b := by
  unfold bounds?
  cases w.start with
  | none => simp
  | some x =>
    cases w.stop with
    | none => simp
    | some y =>
      by_cases h : x ≤ y
      · simp only [h, if_true, Option.some.injEq, Prod.mk.injEq]
        constructor
        · rintro ⟨rfl, rfl⟩
          exact ⟨rfl, rfl, h⟩
        · rintro ⟨rfl, rfl, -⟩
          exact ⟨rfl, rfl⟩
      · simp only [h, if_false, Option.some.injEq]
        constructor
        · intro h'
          cases h'
        · rintro ⟨rfl, rfl, h'⟩
          exact absurd h' h

/-- The bounds are in order, so that they make a range. -/
theorem bounds?_ordered {w : Window} {a b : Cycle} (h : w.bounds? = some (a, b)) : rank a ≤ rank b :=
  UInt64.le_iff_toNat_le.mp (bounds?_eq_some.mp h).2.2

def cycles (w : Window) : List Cycle :=
  match w.bounds? with
  | none => []
  | some (a, b) =>
    (List.range (b.toNat - a.toNat + 1)).map fun i => UInt64.ofNat (a.toNat + i)

def Shows (w : Window) (c : Cycle) : Prop :=
  ∃ a b, w.start = some a ∧ w.stop = some b ∧ a ≤ c ∧ c ≤ b

def boundText : Option Cycle → String
  | none => "unset"
  | some c => Numeral.decimal c.toNat

def text (w : Window) : String :=
  "Start cycle: " ++ boundText w.start ++ " End cycle: " ++ boundText w.stop

end Window

structure Trace where
  grid : Grid
  window : Window := {}
  tiles : List History
  deriving DecidableEq

namespace Trace

def blank (grid : Grid) : Trace :=
  { grid, tiles := List.replicate grid.numTiles {} }

def history? (t : Trace) (tile : Tile) : Option History := do
  t.tiles[← t.grid.index? tile]?

def Keeps (t : Trace) (i : Nat) (c : Cycle) (e : Event) : Prop :=
  ∃ h, t.tiles[i]? = some h ∧ h.events.get? c = some e

theorem keeps_iff_bind {t : Trace} {i : Nat} {c : Cycle} {e : Event} :
    t.Keeps i c e ↔ (t.tiles[i]?.bind fun h => h.events.get? c) = some e :=
  Option.bind_eq_some_iff.symm

def columns (t : Trace) : List (Tile × History) :=
  t.grid.tiles.zip t.tiles

def numEvents (t : Trace) : Nat :=
  t.tiles.foldr (fun h n => h.events.size + n) 0

/-! ## Summaries -/

def padLeft (width : Nat) (s : List Char) : List Char :=
  List.replicate (width - s.length) ' ' ++ s

def padRight (width : Nat) (s : List Char) : List Char :=
  s ++ List.replicate (width - s.length) ' '

def summaryLine? (tile : Tile) (h : History) : Option String := do
  let (first, last) ← h.span?
  return "tile " ++ String.ofList (padRight 8 tile.text.toList) ++ " " ++
    String.ofList (padLeft 8 (Numeral.write 10 h.events.size)) ++ " events  cycles " ++
    Numeral.decimal first.toNat ++ "..=" ++ Numeral.decimal last.toNat ++ "  " ++
    (if h.inRange then "in range" else "closed")

def summaryLines (t : Trace) : List String :=
  (t.window.text ++ " (" ++ t.grid.name ++ " grid, " ++ Numeral.decimal t.numEvents ++ " events)") ::
    t.columns.filterMap fun (tile, h) => summaryLine? tile h

def summary (t : Trace) : String :=
  String.join (t.summaryLines.map (· ++ "\n"))

end Trace

end TileTrace
