import TileTrace.Report

/-!
# Assigning render modes

Which mode every tile of a grid is shown in. Directives are applied in order, each to all tiles or to a
half open range of their numbers, and the last one that covers a tile decides.
-/

namespace TileTrace

inductive TileRange
  | all
  | span (start stop : Nat)
  deriving DecidableEq

structure Directive where
  mode : Mode
  tiles : TileRange
  deriving DecidableEq

def TileRange.Covers (r : TileRange) (i : Nat) : Prop :=
  match r with
  | all => True
  | span start stop => start ≤ i ∧ i < stop

instance (r : TileRange) (i : Nat) : Decidable (r.Covers i) :=
  match r with
  | .all => inferInstanceAs (Decidable True)
  | .span start stop => inferInstanceAs (Decidable (start ≤ i ∧ i < stop))

/-- The mode of every tile of a grid that has one, in the order of the tiles. -/
structure Modes where
  grid : Grid
  assigned : List (Option Mode)
  deriving DecidableEq

namespace Modes

def none (grid : Grid) : Modes :=
  ⟨grid, List.replicate grid.numTiles .none⟩

def entries (m : Modes) (d : Directive) : List Log.Entry :=
  let size := m.assigned.length
  let (start, stop) := match d.tiles with
    | .all => (0, size)
    | .span start stop => (start, stop)
  (if size < stop then [.exceeds start stop size m.grid] else []) ++
    (if start < min stop size then [.rendering start (min stop size) d.mode] else [])

def apply (m : Modes) (d : Directive) : Report Modes :=
  ⟨m.entries d, .ok
    { m with assigned := m.assigned.mapIdx fun i a => if d.tiles.Covers i then some d.mode else a }⟩

def applyAll (m : Modes) : List Directive → Report Modes
  | [] => .pure m
  | d :: ds => (m.apply d).bind fun m => applyAll m ds

def ofDirectives (grid : Grid) (ds : List Directive) : Report Modes :=
  if ds.isEmpty then .fail .noDirectives else (none grid).applyAll ds

def get? (m : Modes) (t : Tile) : Option Mode :=
  match m.grid.index? t with
  | .none => .none
  | some i => (m.assigned[i]?).join

def needsDisassembly (m : Modes) : Bool :=
  m.assigned.any fun a => (a.map Mode.needsDisassembly).getD false

end Modes

end TileTrace
