import TileTrace.Trace.Basic

/-!
# Tiles and their histories

The columns of a trace are the tiles of the grid that have a history, in the order of their numbers. A trace
may have fewer histories than its grid has tiles, or more: those behind the last tile are in no column.
-/

namespace TileTrace

theorem Grid.length_tiles (g : Grid) : g.tiles.length = g.numTiles := by
  simp [Grid.tiles]

theorem filterMap_zip_map_range {α β γ : Type} (f : α × β → Option γ) (n : Nat) (g : Nat → α) (bs : List β) :
    (((List.range n).map g).zip bs).filterMap f =
      (List.range n).filterMap fun i => bs[i]?.bind fun b => f (g i, b) := by
  induction n generalizing g bs with
  | zero => rfl
  | succ n ih =>
    rw [List.range_succ_eq_map]
    cases bs with
    | nil => simp
    | cons b bs =>
      have ih := ih (fun i => g (i + 1)) bs
      simp only [List.map_cons, List.map_map, List.zip_cons_cons, List.filterMap_cons, List.filterMap_map,
        List.getElem?_cons_zero, Option.bind_some] at ih ⊢
      have hg : (g ∘ Nat.succ) = fun i => g (i + 1) := rfl
      rw [hg, ih]
      rfl

theorem map_snd_zip_eq_take {α β : Type} : ∀ (as : List α) (bs : List β),
    (as.zip bs).map (·.2) = bs.take as.length
  | [], _ => by simp
  | _ :: _, [] => by simp
  | _ :: as, _ :: bs => by simp [map_snd_zip_eq_take as bs]

namespace Trace

/-- What comes of the columns, from the numbers of the tiles. -/
theorem filterMap_columns {α : Type} (t : Trace) (f : Tile × History → Option α) :
    t.columns.filterMap f =
      (List.range t.grid.numTiles).filterMap fun i => t.tiles[i]?.bind fun h => f (t.grid.tile i, h) :=
  filterMap_zip_map_range f _ _ _

theorem histories_of_columns (t : Trace) : t.columns.map (·.2) = t.tiles.take t.grid.numTiles := by
  rw [columns, map_snd_zip_eq_take, Grid.length_tiles]

end Trace

end TileTrace
