import TileTrace.Proofs.Trace.Columns
import TileTrace.Render

/-!
# Columns and lines

The columns are the tiles of the grid in the order of their numbers, less those without a history or a
mode. A line is what leads it, a tab, and one cell for every column; a text is its lines, if every field
of them can be written.
-/

namespace TileTrace.Rendering

/-! ## Columns -/

def column? (t : Trace) (m : Modes) (i : Nat) : Option Column :=
  match t.tiles[i]?, m.get? (t.grid.tile i) with
  | some h, some mode => some ⟨t.grid.tile i, mode, h⟩
  | _, _ => none

theorem column?_eq_some {t : Trace} {m : Modes} {i : Nat} {c : Column} :
    column? t m i = some c ↔
      t.grid.tile i = c.tile ∧ t.tiles[i]? = some c.history ∧ m.get? (t.grid.tile i) = some c.mode := by
  unfold column?
  obtain ⟨tile, mode, history⟩ := c
  cases t.tiles[i]? with
  | none => simp
  | some h =>
    cases m.get? (t.grid.tile i) with
    | none => simp
    | some mode => simp [and_comm]

variable {r : Rendering}

theorem columns_eq (r : Rendering) :
    r.columns = (List.range r.trace.grid.numTiles).filterMap (column? r.trace r.modes) := by
  rw [columns, Trace.filterMap_columns]
  congr
  funext i
  unfold column?
  cases r.trace.tiles[i]? with
  | none => rfl
  | some h => cases hm : r.modes.get? (r.trace.grid.tile i) <;> simp [hm]

theorem mem_columns {c : Column} :
    c ∈ r.columns ↔ ∃ i, i < r.trace.grid.numTiles ∧ column? r.trace r.modes i = some c := by
  simp [columns_eq]

theorem columns_increase (r : Rendering) :
    r.columns.Pairwise fun c d =>
      ∀ i j, r.trace.grid.index? c.tile = some i → r.trace.grid.index? d.tile = some j → i < j := by
  rw [columns_eq, List.pairwise_filterMap]
  apply List.Pairwise.imp_of_mem _ List.pairwise_lt_range
  intro i j hi hj hij c hc d hd k l hk hl
  rw [← (column?_eq_some.mp hc).1, Grid.index?_tile (List.mem_range.mp hi)] at hk
  rw [← (column?_eq_some.mp hd).1, Grid.index?_tile (List.mem_range.mp hj)] at hl
  cases hk
  cases hl
  exact hij

/-! ## Lines -/

def line (lead : List Char) (cells : List (List Char)) : List Char :=
  lead ++ ['\t'] ++ cells.flatten ++ ['\n']

def labelCell (label : Tile → List Char) (c : Column) : List Char :=
  cell c (fit (label c.tile) c.mode.width)

def xLabel : Column → List Char := labelCell fun t => Numeral.write 16 t.x

def yLabel : Column → List Char := labelCell fun t => Numeral.write 10 t.y

theorem header_eq (r : Rendering) (title : String) (label : Tile → List Char) :
    r.header title label = line title.toList (r.columns.map (labelCell label)) := by
  rw [header, line, List.flatMap_def]
  rfl

theorem mapM_eq_ok {α β ε : Type} {f : α → Except ε β} {g : α → β} :
    ∀ {as : List α}, (∀ a ∈ as, f a = .ok (g a)) → as.mapM f = .ok (as.map g)
  | [], _ => rfl
  | a :: as, h => by
    have ha := h a List.mem_cons_self
    have has := mapM_eq_ok fun x hx => h x (List.mem_cons_of_mem a hx)
    rw [List.mapM_cons, ha, has]
    rfl

theorem row_eq {n : Cycle} {f : Column → List Char} (h : ∀ c ∈ r.columns, r.field c n = .ok (f c)) :
    r.row n = .ok (line (Numeral.write 10 n.toNat) (r.columns.map fun c => cell c (f c))) := by
  have hcells : (r.columns.mapM fun c => do return cell c (← r.field c n)) =
      Except.ok (r.columns.map fun c => cell c (f c)) := by
    apply mapM_eq_ok
    intro c hc
    rw [h c hc]
    rfl
  unfold row
  rw [hcells]
  rfl

theorem text_eq {f : Cycle → Column → List Char}
    (h : ∀ n ∈ r.trace.window.cycles, ∀ c ∈ r.columns, r.field c n = .ok (f n c)) :
    r.text = .ok (String.ofList
      (line "Tiles".toList (r.columns.map xLabel) ++
        line "Cycles".toList (r.columns.map yLabel) ++
        r.trace.window.cycles.flatMap fun n =>
          line (Numeral.write 10 n.toNat) (r.columns.map fun c => cell c (f n c)))) := by
  have hrows := mapM_eq_ok (f := r.row) fun n hn => row_eq (h n hn)
  unfold text
  rw [hrows, header_eq, header_eq, List.flatMap_def]
  rfl

end TileTrace.Rendering
