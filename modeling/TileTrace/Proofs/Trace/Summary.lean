import TileTrace.Proofs.Trace.Count
import TileTrace.Trace.Basic

/-!
# What a summary adds up to

The lines of a summary are those of the tiles of the grid that have an event, in the order of their numbers.
Their counts make up the total, but for the events of histories behind the last tile of the grid, which are
in the total and in no line.
-/

namespace TileTrace

theorem History.span?_eq_none_iff {h : History} : h.span? = none ↔ h.events.size = 0 := by
  unfold History.span? OrderedMap.firstKey? OrderedMap.lastKey? OrderedMap.size
  cases h.events.entries with
  | nil => simp
  | cons e es => simp [List.getLast?_cons]

namespace Trace

/-! ## Lines -/

structure TileLine where
  tile : Tile
  count : Nat
  first : Cycle
  last : Cycle
  inRange : Bool

def TileLine.text (l : TileLine) : String :=
  "tile " ++ String.ofList (padRight 8 l.tile.text.toList) ++ " " ++
    String.ofList (padLeft 8 (Numeral.write 10 l.count)) ++ " events  cycles " ++
    Numeral.decimal l.first.toNat ++ "..=" ++ Numeral.decimal l.last.toNat ++ "  " ++
    (if l.inRange then "in range" else "closed")

def tileLine? (tile : Tile) (h : History) : Option TileLine :=
  h.span?.map fun (first, last) => ⟨tile, h.events.size, first, last, h.inRange⟩

def headLine (t : Trace) (total : Nat) : String :=
  t.window.text ++ " (" ++ t.grid.name ++ " grid, " ++ Numeral.decimal total ++ " events)"

def tileLines (t : Trace) : List TileLine :=
  t.columns.filterMap fun p => tileLine? p.1 p.2

theorem summaryLines_eq (t : Trace) :
    t.summaryLines = headLine t t.numEvents :: (tileLines t).map TileLine.text := by
  have hline : ∀ tile h, summaryLine? tile h = (tileLine? tile h).map TileLine.text := by
    intro tile h
    unfold summaryLine? tileLine?
    cases h.span? <;> rfl
  rw [summaryLines, tileLines, List.map_filterMap]
  simp only [hline, headLine]

section
variable {t : Trace} {tile : Tile} {h : History} {l : TileLine}

theorem tileLine?_eq_some (hl : tileLine? tile h = some l) :
    l.tile = tile ∧ l.count = h.events.size ∧ 0 < h.events.size := by
  obtain ⟨p, hp, rfl⟩ := Option.map_eq_some_iff.mp hl
  refine ⟨rfl, rfl, Nat.pos_of_ne_zero ?_⟩
  intro hempty
  rw [History.span?_eq_none_iff.mpr hempty] at hp
  cases hp

theorem tileLine?_eq_none (hl : tileLine? tile h = none) : h.events.size = 0 :=
  History.span?_eq_none_iff.mp (Option.map_eq_none_iff.mp hl)

theorem exists_tileLine? (tile : Tile) (hpos : 0 < h.events.size) : ∃ l, tileLine? tile h = some l := by
  cases hl : tileLine? tile h with
  | none => exact absurd (tileLine?_eq_none hl) (Nat.ne_of_gt hpos)
  | some l => exact ⟨l, rfl⟩

/-! ## Which tiles have a line -/

theorem tileLines_eq (t : Trace) :
    tileLines t = (List.range t.grid.numTiles).filterMap fun i =>
      t.tiles[i]?.bind fun h => tileLine? (t.grid.tile i) h :=
  t.filterMap_columns _

theorem mem_tileLines :
    l ∈ tileLines t ↔ ∃ i h, i < t.grid.numTiles ∧ t.tiles[i]? = some h ∧
      tileLine? (t.grid.tile i) h = some l := by
  simp [tileLines_eq, List.mem_filterMap, Option.bind_eq_some_iff]

/-- The lines name tiles of the grid, each once and in the order of their numbers. -/
theorem tileLines_increase (t : Trace) :
    (tileLines t).Pairwise fun l k =>
      ∃ i j, t.grid.index? l.tile = some i ∧ t.grid.index? k.tile = some j ∧ i < j := by
  rw [tileLines_eq, List.pairwise_filterMap]
  apply List.Pairwise.imp_of_mem _ List.pairwise_lt_range
  intro i j hi hj hij l hl k hk
  obtain ⟨g, -, hl⟩ := Option.bind_eq_some_iff.mp hl
  obtain ⟨g', -, hk⟩ := Option.bind_eq_some_iff.mp hk
  refine ⟨i, j, ?_, ?_, hij⟩
  · rw [(tileLine?_eq_some hl).1, Grid.index?_tile (List.mem_range.mp hi)]
  · rw [(tileLine?_eq_some hk).1, Grid.index?_tile (List.mem_range.mp hj)]

/-- A tile has a line if it has a history with events, and the line tells how many. -/
theorem exists_mem_tileLines {n : Nat} :
    (∃ l ∈ tileLines t, l.tile = tile ∧ l.count = n) ↔
      ∃ h, t.history? tile = some h ∧ h.events.size = n ∧ 0 < n := by
  constructor
  · rintro ⟨l, hl, rfl, rfl⟩
    obtain ⟨i, h, hi, hget, hline⟩ := mem_tileLines.mp hl
    obtain ⟨htile, hcount, hpos⟩ := tileLine?_eq_some hline
    refine ⟨h, ?_, hcount.symm, hcount ▸ hpos⟩
    simp [history?, htile, Grid.index?_tile hi, hget]
  · rintro ⟨h, hget, rfl, hpos⟩
    obtain ⟨i, hi, hget⟩ := Option.bind_eq_some_iff.mp hget
    obtain ⟨l, hl⟩ := exists_tileLine? tile hpos
    obtain ⟨htile, hcount, -⟩ := tileLine?_eq_some hl
    rw [← Grid.tile_index? hi] at hl
    exact ⟨l, mem_tileLines.mpr ⟨i, h, Grid.index?_lt hi, hget, hl⟩, htile, hcount⟩

/-! ## Sums -/

/-- How many events are kept in histories behind the last tile of the grid. -/
def surplus (t : Trace) : Nat :=
  ((t.tiles.drop t.grid.numTiles).map fun h => h.events.size).sum

theorem sum_filterMap_tileLine? (ps : List (Tile × History)) :
    ((ps.filterMap fun p => tileLine? p.1 p.2).map (·.count)).sum = (ps.map fun p => p.2.events.size).sum := by
  induction ps with
  | nil => rfl
  | cons p ps ih =>
    cases hl : tileLine? p.1 p.2 with
    | none => simp [hl, ih, tileLine?_eq_none hl]
    | some l => simp [hl, ih, (tileLine?_eq_some hl).2.1]

/-- The total is that of the lines and of the events that no line is about. -/
theorem numEvents_eq_add_surplus (t : Trace) :
    t.numEvents = ((tileLines t).map (·.count)).sum + surplus t := by
  have hcolumns : (t.columns.map fun p => p.2.events.size) =
      (t.tiles.map fun h => h.events.size).take t.grid.numTiles := by
    rw [← List.map_take, ← histories_of_columns, List.map_map]
    rfl
  rw [numEvents_eq_sum, tileLines, sum_filterMap_tileLine?, hcolumns, surplus, List.map_drop,
    List.sum_take_add_sum_drop]

theorem surplus_eq_zero_iff :
    t.surplus = 0 ↔ ∀ i h, t.grid.numTiles ≤ i → t.tiles[i]? = some h → h.events.size = 0 := by
  unfold surplus
  rw [List.sum_eq_zero_iff_forall_eq_nat]
  constructor
  · intro hzero i h hi hget
    apply hzero
    refine List.mem_map.mpr ⟨h, List.mem_of_getElem? (i := i - t.grid.numTiles) ?_, rfl⟩
    rw [List.getElem?_drop, Nat.add_sub_cancel' hi, hget]
  · intro hempty n hn
    obtain ⟨h, hh, rfl⟩ := List.mem_map.mp hn
    obtain ⟨i, hi⟩ := List.getElem?_of_mem hh
    rw [List.getElem?_drop] at hi
    exact hempty _ h (Nat.le_add_right _ _) hi

end

end Trace

end TileTrace
