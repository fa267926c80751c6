import TileTrace.Mode.Assignment

/-!
# The mode of a tile

Directives that are applied one after another leave every tile with the mode of the last one that covers it.
-/

namespace TileTrace

theorem Mode.needsDisassembly_iff {mode : Mode} : mode.needsDisassembly = true ↔ mode = .full := by
  cases mode <;> simp [Mode.needsDisassembly]

namespace Modes

section
variable {a : Option Mode} {i : Nat} {d : Directive} {ds es : List Directive}

def decided (a : Option Mode) (i : Nat) (ds : List Directive) : Option Mode :=
  ds.foldl (fun a d => if d.tiles.Covers i then some d.mode else a) a

theorem decided_cons : decided a i (d :: ds) = decided (if d.tiles.Covers i then some d.mode else a) i ds := rfl

theorem decided_append : decided a i (ds ++ es) = decided (decided a i ds) i es :=
  List.foldl_append

/-- A tile that no directive covers keeps its mode. -/
theorem decided_of_not_covers (h : ∀ d ∈ ds, ¬ d.tiles.Covers i) : decided a i ds = a := by
  induction ds with
  | nil => rfl
  | cons d ds ih =>
    rw [decided_cons, if_neg (h d List.mem_cons_self)]
    exact ih fun e he => h e (List.mem_cons_of_mem d he)

/-- The last directive that covers a tile decides. -/
theorem decided_of_last (hd : d.tiles.Covers i) (h : ∀ e ∈ es, ¬ e.tiles.Covers i) :
    decided a i (ds ++ d :: es) = some d.mode := by
  rw [decided_append, decided_cons, if_pos hd, decided_of_not_covers h]

/-- Which directive decides is found from the end. -/
theorem decided_eq_find? (a : Option Mode) (i : Nat) (ds : List Directive) :
    decided a i ds = ((ds.reverse.find? fun d => d.tiles.Covers i).map (·.mode)).or a := by
  cases hlast : ds.reverse.find? fun d => d.tiles.Covers i with
  | none =>
    apply decided_of_not_covers
    simpa using hlast
  | some d =>
    obtain ⟨hd, es, rest, hds, hes⟩ := List.find?_eq_some_iff_append.mp hlast
    have hsplit : ds = rest.reverse ++ d :: es.reverse := by
      rw [← List.reverse_reverse ds, hds]
      simp
    rw [hsplit, decided_of_last (by simpa using hd) (by simpa using hes)]
    rfl

/-- Directives of one mode decide if one of them covers the tile. -/
theorem decided_of_mode {m : Mode} (hm : ∀ d ∈ ds, d.mode = m) :
    decided a i ds = if ∃ d ∈ ds, d.tiles.Covers i then some m else a := by
  induction ds generalizing a with
  | nil => simp [decided]
  | cons d ds ih =>
    rw [decided_cons, ih fun e he => hm e (List.mem_cons_of_mem d he)]
    by_cases hd : d.tiles.Covers i
    · by_cases hds : ∃ e ∈ ds, e.tiles.Covers i <;> simp [hd, hm d List.mem_cons_self]
    · simp [hd]

end

section
variable {m : Modes} {g : Grid} {ds : List Directive}

theorem result_applyAll (ds : List Directive) : ∀ m : Modes, (m.applyAll ds).result =
    .ok ⟨m.grid, m.assigned.mapIdx fun i a => decided a i ds⟩ := by
  induction ds with
  | nil =>
    intro m
    have hid : m.assigned.mapIdx (fun _ a => a) = m.assigned := List.ext_getElem (by simp) (by simp)
    simp [applyAll, Report.pure, decided, hid]
  | cons d ds ih =>
    intro m
    simp only [applyAll, Report.bind, apply, ih, List.mapIdx_mapIdx]
    rfl

theorem result_ofDirectives (hds : ds ≠ []) : (ofDirectives g ds).result =
    .ok ⟨g, (List.replicate g.numTiles .none).mapIdx fun i a => decided a i ds⟩ := by
  unfold ofDirectives
  rw [if_neg (by simpa using hds), result_applyAll]
  rfl

theorem result_ofDirectives_nil : (ofDirectives g []).result = .error .noDirectives := rfl

/-- Modes are made of directives if there are any. -/
theorem ofDirectives_eq_ok : (ofDirectives g ds).result = .ok m ↔
    ds ≠ [] ∧ m = ⟨g, (List.replicate g.numTiles .none).mapIdx fun i a => decided a i ds⟩ := by
  by_cases hds : ds = []
  · rw [hds, result_ofDirectives_nil]
    simp
  · rw [result_ofDirectives hds]
    simp [hds, eq_comm]

theorem ofDirectives_eq_error {f : Failure} :
    (ofDirectives g ds).result = .error f ↔ f = .noDirectives ∧ ds = [] := by
  by_cases hds : ds = []
  · rw [hds, result_ofDirectives_nil]
    simp [eq_comm]
  · rw [result_ofDirectives hds]
    simp [hds]

theorem get?_of_ofDirectives (h : (ofDirectives g ds).result = .ok m) {t : Tile} {i : Nat}
    (ht : g.index? t = some i) : m.get? t = decided .none i ds := by
  obtain ⟨-, rfl⟩ := ofDirectives_eq_ok.mp h
  have hi : i < g.numTiles := Grid.index?_lt ht
  simp [get?, ht, hi]

end

/-! ## Tiles in full mode -/

theorem needsDisassembly_of_get? {m : Modes} {t : Tile} (h : m.get? t = some .full) :
    m.needsDisassembly = true := by
  unfold Modes.get? at h
  split at h
  · cases h
  · rename_i i hi
    have hassigned := List.mem_of_getElem? (Option.join_eq_some_iff.mp h)
    exact List.any_eq_true.mpr ⟨some .full, hassigned, rfl⟩

/-- Modes that have a place for every tile of their grid need a dictionary if they show one of these tiles in
full mode. -/
theorem needsDisassembly_iff_get? {m : Modes} (hm : m.assigned.length = m.grid.numTiles) :
    m.needsDisassembly = true ↔ ∃ t ∈ m.grid.tiles, m.get? t = some .full := by
  constructor
  · intro hneeds
    obtain ⟨a, ha, hfull⟩ := List.any_eq_true.mp hneeds
    obtain ⟨i, hi, rfl⟩ := List.getElem_of_mem ha
    have hassigned : m.assigned[i] = some .full := by
      cases hmode : m.assigned[i] with
      | none => simp [hmode] at hfull
      | some mode =>
        rw [hmode] at hfull
        rw [Mode.needsDisassembly_iff.mp hfull]
    refine ⟨m.grid.tile i, List.mem_map_of_mem (List.mem_range.mpr (hm ▸ hi)), ?_⟩
    simp [get?, Grid.index?_tile (hm ▸ hi), List.getElem?_eq_getElem hi, hassigned]
  · intro h
    obtain ⟨t, -, ht⟩ := h
    exact needsDisassembly_of_get? ht

end Modes

end TileTrace
