import Mathlib.Algebra.BigOperators.Group.List.Basic
import Mathlib.Data.Set.Card
import TileTrace.Proofs.OrderedMap
import TileTrace.Proofs.Trace.Columns
import TileTrace.Proofs.Trace.Coverage

/-!
# How many events a trace keeps

A trace keeps one event for every tile and cycle at which some record is kept, however many records there
are of them. So it never keeps more events than there were records, and this is what it logs.
-/

namespace TileTrace

theorem Grid.nodup_tiles (g : Grid) : g.tiles.Nodup := by
  unfold Grid.tiles
  rw [List.Nodup, List.pairwise_map]
  apply List.Pairwise.imp_of_mem _ List.pairwise_lt_range
  intro i j hi hj hij heq
  have hindex := index?_tile (List.mem_range.mp hi)
  rw [heq, index?_tile (List.mem_range.mp hj)] at hindex
  exact Nat.ne_of_gt hij (Option.some.inj hindex)

namespace Trace

/-! ## The places of events -/

def eventPlaces (t : Trace) : List (Tile × Cycle) :=
  t.columns.flatMap fun p => p.2.events.entries.map fun e => (p.1, e.1)

def keptPlaces (s : Selection) (rs : List Record) : Set (Tile × Cycle) :=
  {p | ∃ i r, Retained s rs i r ∧ (r.tile, r.cycle) = p}

theorem numEvents_eq_sum (t : Trace) : t.numEvents = (t.tiles.map fun h => h.events.size).sum := by
  unfold numEvents
  induction t.tiles with
  | nil => rfl
  | cons h hs ih => simp [ih]

section
variable {t : Trace} (hn : t.tiles.length = t.grid.numTiles)
include hn

theorem tiles_of_columns : t.columns.map (·.2) = t.tiles := by
  rw [histories_of_columns, ← hn, List.take_length]

theorem places_of_columns : t.columns.map (·.1) = t.grid.tiles := by
  apply List.map_fst_zip
  rw [Grid.length_tiles, hn]

theorem mem_columns_iff {tile : Tile} {h : History} :
    (tile, h) ∈ t.columns ↔ ∃ i, t.grid.tile i = tile ∧ t.tiles[i]? = some h := by
  unfold columns
  rw [List.mem_iff_getElem?]
  apply exists_congr
  intro i
  by_cases hi : i < t.grid.numTiles
  · rw [List.getElem?_zip_eq_some]
    simp [Grid.tiles, hi]
  · have hnone : t.tiles[i]? = none := List.getElem?_eq_none (by omega)
    simp [List.getElem?_zip_eq_some, hnone]

theorem length_eventPlaces : t.eventPlaces.length = t.numEvents := by
  have hmap : t.tiles.map (fun h => h.events.size) = t.columns.map fun p => p.2.events.size := by
    rw [← tiles_of_columns hn, List.map_map]
    rfl
  unfold eventPlaces
  rw [List.length_flatMap, numEvents_eq_sum, hmap]
  simp [OrderedMap.size]

theorem nodup_eventPlaces : t.eventPlaces.Nodup := by
  unfold eventPlaces
  rw [List.nodup_flatMap]
  constructor
  · intro p _
    have hkeys := p.2.events.nodup_keys
    rw [List.Nodup, List.pairwise_map] at hkeys ⊢
    apply hkeys.imp
    intro a b hab heq
    exact hab (Prod.mk.inj heq).2
  · have htiles := t.grid.nodup_tiles
    rw [← places_of_columns hn, List.Nodup, List.pairwise_map] at htiles
    apply htiles.imp
    intro p q hpq x hp hq
    obtain ⟨a, -, rfl⟩ := List.mem_map.mp hp
    obtain ⟨b, -, hb⟩ := List.mem_map.mp hq
    exact hpq (Prod.mk.inj hb).1.symm

theorem mem_eventPlaces {tile : Tile} {c : Cycle} :
    (tile, c) ∈ t.eventPlaces ↔ ∃ i e, t.grid.tile i = tile ∧ t.Keeps i c e := by
  unfold eventPlaces
  rw [List.mem_flatMap]
  constructor
  · intro h
    obtain ⟨⟨tile', h⟩, hcol, hmem⟩ := h
    obtain ⟨⟨c', e⟩, he, heq⟩ := List.mem_map.mp hmem
    obtain ⟨rfl, rfl⟩ := Prod.mk.inj heq
    obtain ⟨i, hi, hh⟩ := (mem_columns_iff hn).mp hcol
    exact ⟨i, e, hi, h, hh, OrderedMap.mem_entries.mp he⟩
  · intro h
    obtain ⟨i, e, hi, h, hh, he⟩ := h
    exact ⟨(tile, h), (mem_columns_iff hn).mpr ⟨i, hi, hh⟩,
      List.mem_map.mpr ⟨(c, e), OrderedMap.mem_entries.mpr he, rfl⟩⟩

end

section
variable {s : Selection} {rs : List Record} {t : Trace}

theorem mem_keptPlaces_iff (ht : IsReference s rs t) (hin : ∀ r ∈ rs, s.grid.Contains r.tile)
    {tile : Tile} {c : Cycle} :
    (tile, c) ∈ keptPlaces s rs ↔ ∃ i e, s.grid.tile i = tile ∧ t.Keeps i c e := by
  constructor
  · intro h
    obtain ⟨k, r, hr, heq⟩ := h
    obtain ⟨rfl, rfl⟩ := Prod.mk.inj heq
    obtain ⟨i, hi⟩ := (hin r (List.mem_of_getElem? hr.1)).index?
    obtain ⟨q, hq⟩ := exists_lastRetained hr
    have htile := Grid.tile_index? hi
    refine ⟨i, q.event, htile, (keeps_iff ht).mpr ⟨Grid.index?_lt hi, q, ?_, rfl⟩⟩
    rwa [htile]
  · intro h
    obtain ⟨i, e, rfl, hkeeps⟩ := h
    obtain ⟨-, r, ⟨k, hr, htile, hcycle, -⟩, -⟩ := (keeps_iff ht).mp hkeeps
    exact ⟨k, r, hr, by rw [htile, hcycle]⟩

theorem keptPlaces_eq (ht : IsReference s rs t) (hin : ∀ r ∈ rs, s.grid.Contains r.tile) :
    keptPlaces s rs = t.eventPlaces.toFinset := by
  have hn : t.tiles.length = t.grid.numTiles := by rw [ht.tiles, ht.grid]
  ext ⟨tile, c⟩
  rw [mem_keptPlaces_iff ht hin, List.coe_toFinset, Set.mem_ofPred_eq, mem_eventPlaces hn, ht.grid]

theorem encard_keptPlaces (ht : IsReference s rs t) (hin : ∀ r ∈ rs, s.grid.Contains r.tile) :
    (keptPlaces s rs).encard = t.numEvents := by
  have hn : t.tiles.length = t.grid.numTiles := by rw [ht.tiles, ht.grid]
  rw [keptPlaces_eq ht hin, Set.encard_coe_eq_coe_finsetCard,
    List.toFinset_card_of_nodup (nodup_eventPlaces hn), length_eventPlaces hn]

/-- Two events that are kept are of two records. -/
theorem numEvents_le (ht : IsReference s rs t) (hin : ∀ r ∈ rs, s.grid.Contains r.tile) :
    t.numEvents ≤ rs.length := by
  have hn : t.tiles.length = t.grid.numTiles := by rw [ht.tiles, ht.grid]
  have hsub : t.eventPlaces ⊆ rs.map fun r => (r.tile, r.cycle) := by
    intro p hp
    have hkept : p ∈ keptPlaces s rs := by
      rw [keptPlaces_eq ht hin]
      simpa using hp
    obtain ⟨i, r, hr, rfl⟩ := hkept
    exact List.mem_map.mpr ⟨r, List.mem_of_getElem? hr.1, rfl⟩
  have hle := ((nodup_eventPlaces hn).subperm hsub).length_le
  rwa [length_eventPlaces hn, List.length_map] at hle

end

/-! ## What is logged of them -/

theorem kept_not_mem_entries (s : Selection) (h : History) (r : Record) (k n : Nat) :
    Log.Entry.kept k n ∉ Builder.entries s h r := by
  unfold Builder.entries
  split <;> split <;> simp

theorem kept_not_mem_pushAll (k n : Nat) : ∀ (rs : List (Except Failure Record)) (b : Builder),
    Log.Entry.kept k n ∉ (b.pushAll rs).log
  | [], _ => by simp [Builder.pushAll, Report.pure]
  | .error f :: _, _ => by simp [Builder.pushAll, Report.fail]
  | .ok r :: rs, b => by
    unfold Builder.pushAll Report.bind Builder.push
    cases b.selection.grid.index? r.tile with
    | none => simp [Report.fail]
    | some i =>
      simp only [List.mem_append, not_or]
      exact ⟨kept_not_mem_entries _ _ _ k n, kept_not_mem_pushAll k n rs _⟩

/-- The numbers of events and of records are logged once. -/
theorem kept_mem_log {s : Selection} {rs : List Record} {t : Trace} (hin : ∀ r ∈ rs, s.grid.Contains r.tile)
    (ht : (build s (rs.map .ok)).result = .ok t) {k n : Nat} :
    Log.Entry.kept k n ∈ (build s (rs.map .ok)).log ↔ k = t.numEvents ∧ n = rs.length := by
  let b := (Builder.new s).takeAll rs
  have hpush : ((Builder.new s).pushAll (rs.map .ok)).result = .ok b := Builder.pushAll_new hin
  have hresult : (build s (rs.map .ok)).result = .ok b.trace := by
    simp only [build, Report.bind, hpush, Builder.finish]
  have hlog : (build s (rs.map .ok)).log = ((Builder.new s).pushAll (rs.map .ok)).log ++
      [.window b.trace.window, .kept b.trace.numEvents b.records] := by
    simp only [build, Report.bind, hpush, Builder.finish]
  have hrecords : b.records = rs.length := by simp [b, Builder.takeAll, Builder.new]
  have htrace : b.trace = t := Except.ok.inj (hresult.symm.trans ht)
  rw [hlog, hrecords, htrace]
  simp [kept_not_mem_pushAll]

end Trace

end TileTrace
