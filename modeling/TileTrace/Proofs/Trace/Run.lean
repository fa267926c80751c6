import TileTrace.Trace.Builder

/-!
# Runs over records inside the grid

A builder refuses no record of a tile inside its grid. What such a run leaves behind falls apart: the
history of a tile hangs on the records of that tile alone, the window on all records whatever their
tiles are.
-/

namespace TileTrace

def Grid.Contains (g : Grid) (t : Tile) : Prop := t.x < g.width ∧ t.y < g.height

instance (g : Grid) (t : Tile) : Decidable (g.Contains t) := inferInstanceAs (Decidable (_ ∧ _))

theorem Grid.Contains.index? {g : Grid} {t : Tile} (h : g.Contains t) : ∃ i, g.index? t = some i :=
  ⟨_, if_pos h⟩

/-! ## Folding records -/

def History.takeOwn (s : Selection) (t : Tile) (h : History) (rs : List Record) : History :=
  (rs.filter (·.tile = t)).foldl (·.take s ·) h

def Window.takeAll (s : Selection) (w : Window) (rs : List Record) : Window :=
  rs.foldl (·.take s ·) w

theorem Window.takeAll_snoc (s : Selection) (w : Window) (rs : List Record) (r : Record) :
    w.takeAll s (rs ++ [r]) = (w.takeAll s rs).take s r := by
  simp [Window.takeAll]

theorem History.takeOwn_cons (s : Selection) (t : Tile) (h : History) (r : Record) (rs : List Record) :
    h.takeOwn s t (r :: rs) = (if r.tile = t then h.take s r else h).takeOwn s t rs := by
  unfold History.takeOwn
  by_cases hr : r.tile = t <;> simp [hr]

theorem History.takeOwn_snoc (s : Selection) (t : Tile) (h : History) (rs : List Record) (r : Record) :
    h.takeOwn s t (rs ++ [r]) =
      if r.tile = t then (h.takeOwn s t rs).take s r else h.takeOwn s t rs := by
  unfold History.takeOwn
  rw [List.filter_append, List.foldl_append]
  by_cases hr : r.tile = t <;> simp [hr]

def Builder.takeAll (b : Builder) (rs : List Record) : Builder :=
  { b with
    trace := { b.trace with
      window := b.trace.window.takeAll b.selection rs
      tiles := b.trace.tiles.mapIdx fun i h => h.takeOwn b.selection (b.selection.grid.tile i) rs }
    records := b.records + rs.length }

theorem Builder.takeAll_nil (b : Builder) : b.takeAll [] = b := by
  have htiles : (b.trace.tiles.mapIdx fun _ h => h) = b.trace.tiles :=
    List.ext_getElem? fun i => by simp
  simp [Builder.takeAll, Window.takeAll, History.takeOwn, htiles]

/-- Giving one tile its record first is the same as giving every tile its own records. -/
theorem mapIdx_takeOwn_cons (s : Selection) {i : Nat} {r : Record} (hi : s.grid.index? r.tile = some i)
    (rs : List Record) {hs : List History} (hn : hs.length = s.grid.numTiles) :
    ((hs.set i ((hs[i]?.getD {}).take s r)).mapIdx fun j h => h.takeOwn s (s.grid.tile j) rs) =
      hs.mapIdx fun j h => h.takeOwn s (s.grid.tile j) (r :: rs) := by
  refine List.ext_getElem? fun j => ?_
  simp only [List.getElem?_mapIdx, List.getElem?_set, History.takeOwn_cons]
  by_cases hij : i = j
  · subst hij
    have hlt : i < hs.length := hn ▸ Grid.index?_lt hi
    simp [hlt, Grid.tile_index? hi]
  · rw [if_neg hij]
    cases hj : hs[j]? with
    | none => rfl
    | some h =>
      have hlt : j < s.grid.numTiles := hn ▸ (List.getElem?_eq_some_iff.mp hj).1
      have hne : r.tile ≠ s.grid.tile j := fun e => hij (by
        have := Grid.index?_tile hlt
        rw [← e, hi] at this
        exact Option.some.inj this)
      simp [hne]

theorem Builder.pushAll_inside : ∀ (rs : List Record) (b : Builder),
    b.trace.tiles.length = b.selection.grid.numTiles → (∀ r ∈ rs, b.selection.grid.Contains r.tile) →
    (b.pushAll (rs.map .ok)).result = .ok (b.takeAll rs)
  | [], b, _, _ => by rw [Builder.takeAll_nil]; rfl
  | r :: rs, b, hn, hin => by
    obtain ⟨i, hi⟩ := (hin r List.mem_cons_self).index?
    let b' : Builder := { b with
      trace := { b.trace with
        window := b.trace.window.take b.selection r
        tiles := b.trace.tiles.set i ((b.trace.tiles[i]?.getD {}).take b.selection r) }
      records := b.records + 1 }
    have hpush : (b.push r).result = .ok b' := by simp only [Builder.push, hi, b']
    have hrest := Builder.pushAll_inside rs b' (by simpa [b'] using hn)
      fun q hq => hin q (List.mem_cons_of_mem r hq)
    have htake : b'.takeAll rs = b.takeAll (r :: rs) := by
      simp only [Builder.takeAll, b', mapIdx_takeOwn_cons b.selection hi rs hn, Window.takeAll,
        List.foldl_cons, List.length_cons, Nat.add_assoc, Nat.add_comm 1]
    simp only [List.map_cons, Builder.pushAll, Report.bind, hpush, hrest, htake]

theorem Builder.pushAll_new {s : Selection} {rs : List Record} (hin : ∀ r ∈ rs, s.grid.Contains r.tile) :
    ((Builder.new s).pushAll (rs.map .ok)).result = .ok ((Builder.new s).takeAll rs) :=
  Builder.pushAll_inside rs (Builder.new s) (by simp [Builder.new, Trace.blank]) hin

/-- While records are taken, every tile of the grid has the history of its own records. -/
theorem Builder.history?_takeAll {s : Selection} {t : Tile} (ht : s.grid.Contains t) (rs : List Record) :
    ((Builder.new s).takeAll rs).trace.history? t = some (History.takeOwn s t {} rs) := by
  obtain ⟨i, hi⟩ := ht.index?
  have hlt := Grid.index?_lt hi
  simp [takeAll, new, Trace.blank, Trace.history?, hi, hlt, Grid.tile_index? hi]

/-- The trace of records inside the grid: the window of all of them, and tile by tile the history of
the records of that tile. -/
theorem Trace.build_inside (s : Selection) {rs : List Record}
    (hin : ∀ r ∈ rs, s.grid.Contains r.tile) :
    (Trace.build s (rs.map .ok)).result = .ok
      { grid := s.grid
        window := Window.takeAll s {} rs
        tiles := s.grid.tiles.map fun t => History.takeOwn s t {} rs } := by
  have hpush := Builder.pushAll_new hin
  have htiles : ((List.replicate s.grid.numTiles ({} : History)).mapIdx fun i h =>
      h.takeOwn s (s.grid.tile i) rs) = s.grid.tiles.map fun t => History.takeOwn s t {} rs := by
    refine List.ext_getElem? fun i => ?_
    by_cases hi : i < s.grid.numTiles
    · simp [Grid.tiles, hi]
    · simp [Grid.tiles, hi]
  rw [Trace.build, Report.bind, hpush]
  simp only [Builder.finish, Builder.takeAll, Builder.new, Trace.blank, htiles]

end TileTrace
