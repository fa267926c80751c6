import TileTrace.Proofs.Render.LineBreaks
import TileTrace.Proofs.Trace.Count

/-!
# The cells that show an event

In every mode but hi the content of an event begins with a visible character, so that a cell is blank
exactly where its tile has no event. If all tiles are shown in one such mode, the rows have as many cells
that are not blank as the trace has events within the window.
-/

namespace TileTrace

/-! ## Modes for all tiles -/

namespace Modes

def uniform (g : Grid) (mode : Mode) : Modes :=
  ⟨g, List.replicate g.numTiles (some mode)⟩

theorem ofDirectives_all (g : Grid) (mode : Mode) :
    (ofDirectives g [⟨mode, .all⟩]).result = .ok (uniform g mode) := by
  have hassigned : (List.replicate g.numTiles (.none : Option Mode)).mapIdx (fun _ _ => some mode) =
      List.replicate g.numTiles (some mode) := by
    apply List.ext_getElem <;> simp
  simp [ofDirectives, applyAll, apply, Report.bind, Report.pure, TileRange.Covers, Modes.none, uniform,
    hassigned]

theorem get?_uniform {g : Grid} {mode : Mode} {tile : Tile} (h : tile ∈ g.tiles) :
    (uniform g mode).get? tile = some mode := by
  obtain ⟨i, hi, rfl⟩ := List.mem_map.mp h
  have hlt := List.mem_range.mp hi
  simp [get?, uniform, Grid.index?_tile hlt, hlt]

theorem mode_of_uniform {g : Grid} {mode other : Mode} {tile : Tile}
    (h : (uniform g mode).get? tile = some other) : other = mode := by
  unfold get? at h
  split at h
  · cases h
  · have hassigned := List.mem_of_getElem? (Option.join_eq_some_iff.mp h)
    exact Option.some.inj (List.eq_of_mem_replicate hassigned)

theorem needsDisassembly_uniform {g : Grid} {mode : Mode} (h : mode ≠ .full) :
    (uniform g mode).needsDisassembly = false := by
  have hmode : mode.needsDisassembly = false := by
    cases mode with
    | full => exact absurd rfl h
    | _ => rfl
  simp [needsDisassembly, uniform, hmode]

end Modes

namespace Rendering

/-! ## Visible contents -/

def Visible (s : List Char) : Prop := ∃ c, s.head? = some c ∧ c ≠ ' '

instance (s : List Char) : Decidable (Visible s) :=
  decidable_of_iff (s.head?.any (· ≠ ' ') = true) (by simp [Visible, Option.any_eq_true])

def isBlankCell (s : List Char) : Bool := s.all (· == ' ')

theorem Visible.append {s : List Char} (h : Visible s) (x : List Char) : Visible (s ++ x) := by
  obtain ⟨c, hc, hne⟩ := h
  exact ⟨c, by simp [List.head?_append, hc], hne⟩

theorem Visible.fit {s : List Char} (h : Visible s) (mode : Mode) : Visible (fit s mode.width) := by
  obtain ⟨c, hc, hne⟩ := h
  refine ⟨c, ?_, hne⟩
  have hwidth : mode.width ≠ 0 := Nat.ne_of_gt (one_le_width mode)
  simp [TileTrace.fit, List.head?_append, List.head?_take, hwidth, hc]

theorem Visible.not_blank {s : List Char} (h : Visible s) : isBlankCell s = false := by
  obtain ⟨c, hc, hne⟩ := h
  unfold isBlankCell
  rw [List.all_eq_false]
  exact ⟨c, List.mem_of_mem_head? hc, by simpa using hne⟩

theorem visible_instructions : ∀ e ∈ Operation.integerCodes ++ Operation.floatCodes, Visible e.2.toList := by
  decide

theorem visible_stalls : ∀ e ∈ Operation.stallCodes, Visible [e.2.lo] ∧ Visible e.2.mid.toList := by decide

theorem visible_lowDigits (pc : Pc) : Visible pc.lowDigits.toList := by
  rw [Pc.lowDigits, String.toList_ofList]
  have hlength := Numeral.writeFixed_length 16 4 pc.word.toNat
  cases hs : Numeral.writeFixed 16 4 pc.word.toNat with
  | nil =>
    rw [hs] at hlength
    cases hlength
  | cons c cs =>
    have hdigits := Numeral.digits_writeFixed (show 0 < 16 by decide) 4 pc.word.toNat
    rw [hs] at hdigits
    obtain ⟨d, hd, rfl⟩ := hdigits c List.mem_cons_self
    exact ⟨_, rfl, Numeral.digitChar_ne hd (by decide)⟩

section
variable {d : Option Disassembly} {tile : Tile} {mode : Mode} {n : Cycle} {e : Event} {s : List Char}

theorem visible_fullContent (h : fullContent d tile n e = .ok s) : Visible s := by
  have hlow := visible_lowDigits e.pc
  rcases fullContent_eq_ok h with ⟨-, code, -, rfl⟩ | ⟨-, rfl⟩ | ⟨-, a, fragments, -, -, rfl⟩
  · exact ⟨'#', rfl, by decide⟩
  · exact (hlow.append _).append _
  · exact hlow.append _

theorem visible_content (hmode : mode ≠ .hi) (h : content d tile mode n e = .ok s) : Visible s := by
  cases mode with
  | lo =>
    rcases content_lo_eq_ok h with rfl | ⟨label, code, hcode, rfl⟩ | rfl
    · decide
    · exact (visible_stalls _ hcode).1
    · decide
  | mid =>
    rcases content_mid_eq_ok h with ⟨label, code, hcode, rfl⟩ | ⟨label, code, hcode, rfl⟩ | rfl
    · exact visible_instructions _ hcode
    · exact (visible_stalls _ hcode).2
    · decide
  | hi => exact absurd rfl hmode
  | pc =>
    simp only [content] at h
    cases h
    split
    · decide
    · exact visible_lowDigits e.pc
  | full => exact visible_fullContent h

end

/-- A cell is blank exactly where its tile has no event. -/
theorem IsCell.isBlankCell_iff {d : Option Disassembly} {c : Column} {n : Cycle} {s : List Char}
    (hmode : c.mode ≠ .hi) (h : IsCell d c n s) :
    isBlankCell s = true ↔ c.history.events.get? n = none := by
  cases h with
  | blank h => simp [isBlankCell, h]
  | event h hs =>
    have hvisible := ((visible_content hmode hs).fit c.mode).append c.mode.separator.toList
    simp [hvisible.not_blank, h]

/-! ## Counting cells -/

def countShown (t : Trace) (cs : List Column) (f : Cycle → Column → List Char) : Nat :=
  (t.window.cycles.flatMap fun n => cs.map (f n)).countP fun s => !isBlankCell s

theorem countP_eq_sum {α : Type} (p : α → Bool) (l : List α) :
    l.countP p = (l.map fun a => if p a then 1 else 0).sum := by
  induction l with
  | nil => rfl
  | cons a l ih => simp [List.countP_cons, ih, Nat.add_comm]

/-- The cells row by row are the cells column by column. -/
theorem countP_rows (p : List Char → Bool) (f : Cycle → Column → List Char) (cs : List Column)
    (ns : List Cycle) :
    (ns.flatMap fun n => cs.map (f n)).countP p = (cs.map fun c => ns.countP fun n => p (f n c)).sum := by
  induction ns with
  | nil => simp
  | cons n ns ih =>
    simp only [List.flatMap_cons, List.countP_append, ih, List.countP_cons, List.sum_map_add]
    rw [List.countP_map, countP_eq_sum, Nat.add_comm]
    rfl

/-- A list that has all keys of a map, each once, meets as many of them as there are. -/
theorem countP_contains {β : Type} {m : OrderedMap Cycle β} {ns : List Cycle} (hns : ns.Nodup)
    (h : ∀ n v, m.get? n = some v → n ∈ ns) : ns.countP (fun n => (m.get? n).isSome) = m.size := by
  have hperm : (ns.filter fun n => (m.get? n).isSome).Perm (m.entries.map (·.1)) := by
    rw [List.perm_ext_iff_of_nodup (hns.filter _) m.nodup_keys]
    intro n
    rw [List.mem_filter, Option.isSome_iff_exists, List.mem_map]
    constructor
    · intro hn
      obtain ⟨-, v, hv⟩ := hn
      exact ⟨(n, v), OrderedMap.mem_entries.mpr hv, rfl⟩
    · intro hn
      obtain ⟨⟨k, v⟩, hv, rfl⟩ := hn
      have hget := OrderedMap.mem_entries.mp hv
      exact ⟨h k v hget, v, hget⟩
  rw [List.countP_eq_length_filter, hperm.length_eq, List.length_map, OrderedMap.size]

section
variable {t : Trace} {mode : Mode} {d : Option Disassembly}

theorem history_of_columns (mode : Mode) (hn : t.tiles.length = t.grid.numTiles) :
    ((List.range t.grid.numTiles).filterMap (column? t (.uniform t.grid mode))).map (·.history) = t.tiles := by
  have hcolumns : ∀ p ∈ t.columns, ((Modes.uniform t.grid mode).get? p.1).map (fun m => Column.mk p.1 m p.2) =
      some (Column.mk p.1 mode p.2) := by
    intro p hp
    rw [Modes.get?_uniform (List.of_mem_zip hp).1]
    rfl
  rw [← columns_eq ⟨t, .uniform t.grid mode, none⟩]
  show ((t.columns.filterMap fun p => _).map _) = _
  rw [List.filterMap_congr hcolumns]
  simp [Function.comp_def, Trace.tiles_of_columns hn]

theorem countShown_eq {f : Cycle → Column → List Char} {text : List Char} (hmode : mode ≠ .hi)
    (hn : t.tiles.length = t.grid.numTiles) (hshown : ∀ i c e, t.Keeps i c e → c ∈ t.window.cycles)
    (h : IsTable t d ((List.range t.grid.numTiles).filterMap (column? t (.uniform t.grid mode))) f text) :
    countShown t ((List.range t.grid.numTiles).filterMap (column? t (.uniform t.grid mode))) f =
      t.numEvents := by
  have hnodup : t.window.cycles.Nodup := by
    apply t.window.cycles_increase.imp
    intro a b hab heq
    rw [heq] at hab
    exact UInt64.lt_irrefl _ hab
  have hcolumn : ∀ c ∈ (List.range t.grid.numTiles).filterMap (column? t (.uniform t.grid mode)),
      (t.window.cycles.countP fun n => !isBlankCell (f n c)) = c.history.events.size := by
    intro c hc
    obtain ⟨i, -, hi⟩ := List.mem_filterMap.mp hc
    obtain ⟨-, hhistory, hget⟩ := column?_eq_some.mp hi
    have hkeys : ∀ n e, c.history.events.get? n = some e → n ∈ t.window.cycles := by
      intro n e he
      exact hshown i n e ⟨c.history, hhistory, he⟩
    rw [← countP_contains hnodup hkeys]
    apply List.countP_congr
    intro n hcycle
    have hblank := (h.cells n hcycle c hc).isBlankCell_iff (by rwa [Modes.mode_of_uniform hget])
    cases he : c.history.events.get? n with
    | none => simp [hblank.mpr he]
    | some e =>
      have hvisible : isBlankCell (f n c) ≠ true := by
        rw [ne_eq, hblank, he]
        exact nofun
      simp [hvisible]
  have hsum : t.numEvents = (((List.range t.grid.numTiles).filterMap
      (column? t (.uniform t.grid mode))).map fun c => c.history.events.size).sum := by
    rw [Trace.numEvents_eq_sum, ← history_of_columns mode hn, List.map_map]
    rfl
  rw [countShown, countP_rows, List.map_congr_left hcolumn, hsum]

theorem new_uniform_eq_ok (hmode : mode ≠ .full) :
    new t (.uniform t.grid mode) d = .ok ⟨t, .uniform t.grid mode, d⟩ := by
  apply new_eq_ok rfl
  · intro hneeds
    rw [Modes.needsDisassembly_uniform hmode] at hneeds
    cases hneeds
  · intro i n e he
    exact absurd (Modes.mode_of_uniform he.full).symm hmode

end

/-! ## From records to cells -/

/-- A trace keeps one event for each tile and cycle at which a record is kept, and logs how many. If no
tile is inside the window at the end, or every record ends it, then all of them can be seen: in each mode
but hi so many cells are not blank. -/
theorem build_shows_events {s : Selection} {rs : List Record} (hin : ∀ r ∈ rs, s.grid.Contains r.tile)
    (hord : rs.Pairwise fun a b => a.cycle ≤ b.cycle) :
    ∃ t, (Trace.build s (rs.map .ok)).result = .ok t ∧
      (∀ k n, .kept k n ∈ (Trace.build s (rs.map .ok)).log ↔ k = t.numEvents ∧ n = rs.length) ∧
      (Trace.keptPlaces s rs).encard = t.numEvents ∧ t.numEvents ≤ rs.length ∧
      (s.stop = .any ∨ (∀ h ∈ t.tiles, h.inRange = false) → ∀ mode, mode ≠ .hi →
        ∃ m, (Modes.ofDirectives t.grid [⟨mode, .all⟩]).result = .ok m ∧
          (mode ≠ .full → ∀ d, ∃ r, new t m d = .ok r) ∧
          ∀ d r, new t m d = .ok r → ∃ f text, r.text = .ok (String.ofList text) ∧
            IsTable t d ((List.range t.grid.numTiles).filterMap (column? t m)) f text ∧
            countShown t ((List.range t.grid.numTiles).filterMap (column? t m)) f = t.numEvents) := by
  have hbuilt := Trace.build_inside s hin
  have href : Trace.IsReference s rs _ := Trace.isReference_built
  have hn := href.tiles
  refine ⟨_, hbuilt, fun k n => Trace.kept_mem_log hin hbuilt, Trace.encard_keptPlaces href hin,
    Trace.numEvents_le href hin, ?_⟩
  intro hclosed mode hmode
  have hshown := (href.windowCovers hin hord).shown hclosed
  refine ⟨_, Modes.ofDirectives_all _ mode, ?_, ?_⟩
  · intro hfull d
    exact ⟨_, new_uniform_eq_ok hfull⟩
  · intro d r hr
    obtain ⟨f, hf⟩ := fields_of_new_eq_ok hr
    obtain ⟨rfl, -⟩ := accepted_of_new_eq_ok hr
    obtain ⟨text, htext, htable⟩ := isTable_of_fields hf
    rw [columns_eq] at htable
    exact ⟨_, text, htext, htable, countShown_eq hmode hn hshown htable⟩

/-- A record that replaces another, one that is not kept, and a tile that enters the window twice. -/
theorem build_shows_events_reentry :
    let s : Selection := ⟨.pc ⟨0x1000⟩, .pc ⟨0x1008⟩, .reduced⟩
    let rs : List Record := [⟨⟨0, 0⟩, 1, ⟨0x1000⟩, "stall_fence"⟩, ⟨⟨0, 0⟩, 1, ⟨0x1004⟩, "add"⟩,
      ⟨⟨0, 0⟩, 2, ⟨0x1008⟩, "jalr"⟩, ⟨⟨0, 0⟩, 3, ⟨0x1004⟩, "addi"⟩, ⟨⟨1, 3⟩, 3, ⟨0x1008⟩, "jalr"⟩,
      ⟨⟨0, 0⟩, 4, ⟨0x1000⟩, ""⟩, ⟨⟨0, 0⟩, 5, ⟨0x1008⟩, "jalr"⟩]
    let d : Disassembly := ⟨.ofList [(⟨0x1000⟩, ["nop"]), (⟨0x1004⟩, []), (⟨0x1008⟩, ["ret"])]⟩
    (∀ r ∈ rs, s.grid.Contains r.tile) ∧ (rs.Pairwise fun a b => a.cycle ≤ b.cycle) ∧
      ∃ t, (Trace.build s (rs.map .ok)).result = .ok t ∧ (∀ h ∈ t.tiles, h.inRange = false) ∧
        .kept 4 7 ∈ (Trace.build s (rs.map .ok)).log ∧ (Trace.keptPlaces s rs).encard = 4 ∧
        ∃ m r f text, (Modes.ofDirectives t.grid [⟨.full, .all⟩]).result = .ok m ∧
          new t m (some d) = .ok r ∧ r.text = .ok (String.ofList text) ∧
          IsTable t d ((List.range t.grid.numTiles).filterMap (column? t m)) f text ∧
          countShown t ((List.range t.grid.numTiles).filterMap (column? t m)) f = 4 := by
  intro s rs d
  have hin : ∀ r ∈ rs, s.grid.Contains r.tile := by decide
  have hord : rs.Pairwise fun a b => a.cycle ≤ b.cycle := by decide
  let t : Trace := ⟨.reduced, ⟨some 1, some 5⟩,
    ⟨false, .ofList [(1, ⟨⟨0x1004⟩, "add"⟩), (2, ⟨⟨0x1008⟩, "jalr"⟩), (4, ⟨⟨0x1000⟩, ""⟩),
      (5, ⟨⟨0x1008⟩, "jalr"⟩)]⟩ :: List.replicate 15 {}⟩
  have hbuilt : (Trace.build s (rs.map .ok)).result = .ok t := by decide +kernel
  have hclosed : ∀ h ∈ t.tiles, h.inRange = false := by decide
  have hevents : t.numEvents = 4 := by decide
  have hnew : new t (.uniform .reduced .full) (some d) = .ok ⟨t, .uniform .reduced .full, some d⟩ := by
    with_unfolding_all rfl
  obtain ⟨u, hu, hlog, hplaces, -, hrows⟩ := build_shows_events hin hord
  obtain rfl := Except.ok.inj (hbuilt.symm.trans hu)
  obtain ⟨m, hm, -, hcells⟩ := hrows (.inr hclosed) .full (by decide)
  obtain rfl := Except.ok.inj ((Modes.ofDirectives_all .reduced .full).symm.trans hm)
  obtain ⟨f, text, htext, htable, hcount⟩ := hcells (some d) _ hnew
  rw [hevents] at hplaces hcount
  exact ⟨hin, hord, t, hbuilt, hclosed, (hlog 4 7).mpr ⟨hevents.symm, rfl⟩, hplaces, _, _, f, text, hm, hnew,
    htext, htable, hcount⟩

end Rendering

end TileTrace
