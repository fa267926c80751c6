import TileTrace.Text.Numeral

/-!
# Grids of tiles

The two sizes of grid, and the numbering of their tiles row by row.
-/

namespace TileTrace

structure Tile where
  x : Nat
  y : Nat
  deriving DecidableEq

def Tile.text (t : Tile) : String :=
  "(" ++ Numeral.decimal t.x ++ ", " ++ Numeral.decimal t.y ++ ")"

inductive Grid
  | full
  | reduced
  deriving DecidableEq

namespace Grid

def width : Grid → Nat
  | .full => 16
  | .reduced => 4

def height : Grid → Nat
  | .full => 8
  | .reduced => 4

def numTiles (g : Grid) : Nat :=
  g.width * g.height

def name : Grid → String
  | .full => "full"
  | .reduced => "reduced"

def ofName? : String → Option Grid
  | "full" => some .full
  | "reduced" => some .reduced
  | _ => none

def tile (g : Grid) (index : Nat) : Tile :=
  ⟨index % g.width, index / g.width⟩

def index? (g : Grid) (t : Tile) : Option Nat :=
  if t.x < g.width ∧ t.y < g.height then some (t.y * g.width + t.x) else none

def tiles (g : Grid) : List Tile :=
  (List.range g.numTiles).map g.tile

theorem index?_lt {g : Grid} {t : Tile} {i : Nat} (h : g.index? t = some i) : i < g.numTiles := by
  unfold index? at h
  split at h
  · rename_i hb
    simp only [Option.some.injEq] at h
    cases g <;> simp only [width, height, numTiles] at * <;> omega
  · cases h

/-- No coordinate needs more than one hexadecimal or decimal digit. -/
theorem tile_lt {g : Grid} {i : Nat} (h : i < g.numTiles) : (g.tile i).x < 16 ∧ (g.tile i).y < 10 := by
  cases g <;> simp only [width, height, numTiles, tile] at * <;> omega

theorem index?_tile {g : Grid} {i : Nat} (h : i < g.numTiles) : g.index? (g.tile i) = some i := by
  have hw : i % g.width < g.width ∧ i / g.width < g.height ∧ i / g.width * g.width + i % g.width = i := by
    cases g <;> simp only [width, height, numTiles] at * <;> omega
  simp only [index?, tile, hw, and_self, if_true]

theorem tile_index? {g : Grid} {t : Tile} {i : Nat} (h : g.index? t = some i) : g.tile i = t := by
  unfold index? at h
  split at h
  · simp only [Option.some.injEq] at h
    cases t
    cases g <;> simp only [width, height, tile, Tile.mk.injEq] at * <;> omega
  · cases h

end Grid

end TileTrace
