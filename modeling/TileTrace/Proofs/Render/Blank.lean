import TileTrace.Proofs.Render.Count

/-!
# Blank cells

A blank cell means that its tile has no event at the cycle. Only in hi mode can the cell of an event be blank,
and it is so if what it shows of the label is.
-/

namespace TileTrace.Rendering

section
variable {d : Option Disassembly} {c : Column} {n : Cycle} {s : List Char}

theorem isBlankCell_iff_forall : isBlankCell s = true ↔ ∀ x ∈ s, x = ' ' := by
  simp [isBlankCell]

/-- Padding and separators are spaces, so that what is left of a content decides whether its cell is blank. -/
theorem isBlankCell_fit (mode : Mode) :
    isBlankCell (fit s mode.width ++ mode.separator.toList) = true ↔ ∀ x ∈ s.take mode.width, x = ' ' := by
  rw [isBlankCell_iff_forall, fit, separator_eq]
  constructor
  · intro h x hx
    exact h x (by simp [hx])
  · intro h x hx
    rcases List.mem_append.mp hx with hx | hx
    · rcases List.mem_append.mp hx with hx | hx
      · exact h x hx
      · exact List.eq_of_mem_replicate hx
    · exact List.eq_of_mem_replicate hx

/-- In hi mode a cell is blank exactly where its tile has no event or one whose label begins with spaces
only. -/
theorem IsCell.isBlankCell_hi_iff (hmode : c.mode = .hi) (h : IsCell d c n s) :
    isBlankCell s = true ↔
      ∀ e, c.history.events.get? n = some e → ∀ x ∈ e.operation.toList.take 15, x = ' ' := by
  cases h with
  | blank h => simp [isBlankCell, h]
  | @event e s h hs =>
    rw [hmode] at hs
    obtain rfl := Except.ok.inj hs
    rw [isBlankCell_fit, h, hmode]
    simp [Mode.width]

end

/-- In every row the cell of a column is blank exactly where its tile has no event, whatever the event is. In hi
mode the cell of an event is blank if the first characters of its label are. -/
theorem blank_iff_no_event {t : Trace} {m : Modes} {d : Option Disassembly} {r : Rendering}
    (h : new t m d = .ok r) :
    ∃ f text, r.text = .ok (String.ofList text) ∧
      IsTable t d ((List.range t.grid.numTiles).filterMap (column? t m)) f text ∧
      ∀ n ∈ t.window.cycles, ∀ c ∈ (List.range t.grid.numTiles).filterMap (column? t m),
        (c.mode ≠ .hi → (isBlankCell (f n c) = true ↔ c.history.events.get? n = none)) ∧
        (c.mode = .hi → (isBlankCell (f n c) = true ↔
          ∀ e, c.history.events.get? n = some e → ∀ x ∈ e.operation.toList.take 15, x = ' ')) := by
  obtain ⟨f, hf⟩ := fields_of_new_eq_ok h
  obtain ⟨rfl, -⟩ := accepted_of_new_eq_ok h
  obtain ⟨text, htext, htable⟩ := isTable_of_fields hf
  rw [columns_eq] at htable
  refine ⟨_, text, htext, htable, ?_⟩
  intro n hn c hc
  have hcell := htable.cells n hn c hc
  exact ⟨fun hmode => hcell.isBlankCell_iff hmode, fun hmode => hcell.isBlankCell_hi_iff hmode⟩

/-- A label with fifteen spaces in front, an empty one, and a stall behind an idle program counter. -/
theorem blank_iff_no_event_spaces :
    let hi : Column := ⟨⟨0, 0⟩, .hi,
      ⟨false, .ofList [(1, ⟨⟨0x1000⟩, "               add"⟩), (2, ⟨⟨0x1004⟩, "add"⟩)]⟩⟩
    let lo : Column := ⟨⟨1, 0⟩, .lo, ⟨false, .ofList [(1, ⟨⟨0x1000⟩, ""⟩)]⟩⟩
    let full : Column := ⟨⟨2, 0⟩, .full, ⟨true, .ofList [(2, ⟨.idle, "stall_fence"⟩)]⟩⟩
    let t : Trace := ⟨.reduced, ⟨some 1, some 2⟩, [hi.history, lo.history, full.history]⟩
    let m : Modes := ⟨.reduced, [some .hi, some .lo, some .full]⟩
    let r : Rendering := ⟨t, m, some {}⟩
    new t m (some {}) = .ok r ∧ ∃ f text, r.text = .ok (String.ofList text) ∧
      IsTable t (some {}) ((List.range t.grid.numTiles).filterMap (column? t m)) f text ∧
      isBlankCell (f 1 hi) = true ∧ isBlankCell (f 2 hi) ≠ true ∧ isBlankCell (f 1 lo) ≠ true ∧
      isBlankCell (f 2 lo) = true ∧ isBlankCell (f 1 full) = true ∧ isBlankCell (f 2 full) ≠ true := by
  intro hi lo full t m r
  have hnew : new t m (some {}) = .ok r := by with_unfolding_all rfl
  have hcolumns : (List.range t.grid.numTiles).filterMap (column? t m) = [hi, lo, full] := by
    with_unfolding_all rfl
  have hone : (1 : Cycle) ∈ t.window.cycles := by decide
  have htwo : (2 : Cycle) ∈ t.window.cycles := by decide
  obtain ⟨f, text, htext, htable, hcells⟩ := blank_iff_no_event hnew
  rw [hcolumns] at hcells
  have hhi := fun n hn => (hcells n hn hi (by simp)).2 rfl
  have hlo := fun n hn => (hcells n hn lo (by simp)).1 (by decide)
  have hfull := fun n hn => (hcells n hn full (by simp)).1 (by decide)
  refine ⟨hnew, f, text, htext, htable, ?_, ?_, ?_, ?_, ?_, ?_⟩
  · rw [hhi 1 hone]
    intro e he
    obtain rfl : _ = e := Option.some.inj he
    exact isBlankCell_iff_forall.mp rfl
  · rw [ne_eq, hhi 2 htwo]
    intro hblank
    exact absurd (hblank ⟨⟨0x1004⟩, "add"⟩ rfl 'a' (by decide)) (by decide)
  · rw [ne_eq, hlo 1 hone]
    exact nofun
  · exact (hlo 2 htwo).mpr rfl
  · exact (hfull 1 hone).mpr rfl
  · rw [ne_eq, hfull 2 htwo]
    exact nofun

end TileTrace.Rendering
