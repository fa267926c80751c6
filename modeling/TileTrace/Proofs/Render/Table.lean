import Mathlib.Algebra.BigOperators.Group.List.Basic
import TileTrace.Proofs.Render.Acceptance
import TileTrace.Proofs.Text.Numeral

/-!
# The table

What is printed is a table: two lines of labels and a line for every cycle of the window, in which each
column has its place and its width. Labels are whole, and only the content of an event may be cut.
-/

namespace TileTrace

/-! ## Fields -/

theorem length_fit (s : List Char) (width : Nat) : (fit s width).length = width := by
  simp [fit]
  omega

theorem fit_of_le {s : List Char} {width : Nat} (h : s.length ≤ width) :
    fit s width = s ++ List.replicate (width - s.length) ' ' := by
  rw [fit, List.take_of_length_le h]

namespace Rendering

def cellWidth (m : Mode) : Nat := m.width + m.separator.length

theorem separator_eq (m : Mode) : m.separator.toList = List.replicate m.separator.length ' ' := by
  cases m <;> rfl

theorem length_cell {c : Column} {s : List Char} (h : s.length = c.mode.width) :
    (cell c s).length = cellWidth c.mode := by
  rw [cell, cellWidth, List.length_append, h, String.length_toList]

/-! ## Columns of cells -/

def offset (cs : List Column) (j : Nat) : Nat :=
  ((cs.take j).map fun c => cellWidth c.mode).sum

structure Aligned (cs : List Column) (f : Column → List Char) : Prop where
  width : ∀ c ∈ cs, (f c).length = cellWidth c.mode
  place : ∀ j c, cs[j]? = some c →
    ((cs.map f).flatten.drop (offset cs j)).take (cellWidth c.mode) = f c

theorem place_of_width {f : Column → List Char} : ∀ {cs : List Column},
    (∀ c ∈ cs, (f c).length = cellWidth c.mode) → ∀ {j : Nat} {c : Column}, cs[j]? = some c →
    ((cs.map f).flatten.drop (offset cs j)).take (cellWidth c.mode) = f c
  | [], _, _, _, h => by cases h
  | a :: cs, hw, 0, c, h => by
    obtain rfl := Option.some.inj h
    rw [offset, List.take_zero, List.map_nil, List.sum_nil, List.drop_zero, List.map_cons, List.flatten_cons,
      ← hw a List.mem_cons_self, List.take_left]
  | a :: cs, hw, j + 1, c, h => by
    have ih := place_of_width (fun c hc => hw c (List.mem_cons_of_mem a hc)) (j := j) h
    have hoffset : offset (a :: cs) (j + 1) = (f a).length + offset cs j := by
      rw [hw a List.mem_cons_self]
      simp [offset]
    rw [List.map_cons, List.flatten_cons, hoffset, List.drop_length_add_append]
    exact ih

theorem aligned_of_width {cs : List Column} {f : Column → List Char}
    (h : ∀ c ∈ cs, (f c).length = cellWidth c.mode) : Aligned cs f :=
  ⟨h, fun _ _ hc => place_of_width h hc⟩

/-! ## Labels and contents -/

structure IsLabel (c : Column) (label s : List Char) : Prop where
  whole : label.length ≤ c.mode.width
  eq : s = label ++ List.replicate (cellWidth c.mode - label.length) ' '

/-- The cell of a column at a cycle: spaces where its tile has no event, and else the content of the event
cut or padded to the width of the mode. -/
inductive IsCell (d : Option Disassembly) (c : Column) (n : Cycle) : List Char → Prop
  | blank (h : c.history.events.get? n = none) : IsCell d c n (List.replicate (cellWidth c.mode) ' ')
  | event {e : Event} {s : List Char} (h : c.history.events.get? n = some e)
      (hs : content d c.tile c.mode n e = .ok s) :
      IsCell d c n (fit s c.mode.width ++ c.mode.separator.toList)

theorem one_le_width (m : Mode) : 1 ≤ m.width := by
  cases m <;> decide

theorem isLabel_labelCell (label : Tile → List Char) (c : Column) (h : (label c.tile).length = 1) :
    IsLabel c (label c.tile) (labelCell label c) := by
  have hle : (label c.tile).length ≤ c.mode.width := h ▸ one_le_width c.mode
  refine ⟨hle, ?_⟩
  rw [labelCell, cell, fit_of_le hle, separator_eq, List.append_assoc, List.replicate_append_replicate,
    cellWidth]
  congr 2
  omega

theorem length_labelCell (label : Tile → List Char) (c : Column) :
    (labelCell label c).length = cellWidth c.mode :=
  length_cell (length_fit _ _)

section
variable {r : Rendering} {c : Column} {n : Cycle} {s : List Char}

theorem field_eq_ok (h : r.field c n = .ok s) :
    (c.history.events.get? n = none ∧ s = List.replicate c.mode.width ' ') ∨
      ∃ e x, c.history.events.get? n = some e ∧ content r.disassembly c.tile c.mode n e = .ok x ∧
        s = fit x c.mode.width := by
  unfold field at h
  cases he : c.history.events.get? n with
  | none =>
    simp only [he] at h
    cases h
    exact .inl ⟨rfl, rfl⟩
  | some e =>
    simp only [he] at h
    cases hx : content r.disassembly c.tile c.mode n e with
    | error f =>
      rw [hx] at h
      cases h
    | ok x =>
      rw [hx] at h
      cases h
      exact .inr ⟨e, x, rfl, hx, rfl⟩

theorem length_field (h : r.field c n = .ok s) : s.length = c.mode.width := by
  rcases field_eq_ok h with ⟨-, rfl⟩ | ⟨e, x, -, -, rfl⟩
  · exact List.length_replicate
  · exact length_fit _ _

theorem isCell_field (h : r.field c n = .ok s) : IsCell r.disassembly c n (cell c s) := by
  rcases field_eq_ok h with ⟨he, rfl⟩ | ⟨e, x, he, hx, rfl⟩
  · rw [cell, separator_eq, List.replicate_append_replicate]
    exact .blank he
  · exact .event he hx

theorem isLabel_xLabel (h : c ∈ r.columns) : IsLabel c (Numeral.write 16 c.tile.x) (xLabel c) := by
  obtain ⟨i, hi, hcol⟩ := mem_columns.mp h
  have hx := (Grid.tile_lt hi).1
  rw [(column?_eq_some.mp hcol).1] at hx
  apply isLabel_labelCell (fun t => Numeral.write 16 t.x) c
  rw [Numeral.write_of_lt hx]
  rfl

theorem isLabel_yLabel (h : c ∈ r.columns) : IsLabel c (Numeral.write 10 c.tile.y) (yLabel c) := by
  obtain ⟨i, hi, hcol⟩ := mem_columns.mp h
  have hy := (Grid.tile_lt hi).2
  rw [(column?_eq_some.mp hcol).1] at hy
  apply isLabel_labelCell (fun t => Numeral.write 10 t.y) c
  rw [Numeral.write_of_lt hy]
  rfl

end

/-! ## The table -/

/-- The text of a rendering, line by line and cell by cell. -/
structure IsTable (t : Trace) (d : Option Disassembly) (cs : List Column)
    (f : Cycle → Column → List Char) (text : List Char) : Prop where
  lines : text = line "Tiles".toList (cs.map xLabel) ++ line "Cycles".toList (cs.map yLabel) ++
    t.window.cycles.flatMap fun n => line (Numeral.write 10 n.toNat) (cs.map (f n))
  shown : ∀ n, n ∈ t.window.cycles ↔ t.window.Shows n
  increasing : t.window.cycles.Pairwise (· < ·)
  count : t.window.cycles.length =
    match t.window.start, t.window.stop with
    | some a, some b => if a ≤ b then b.toNat - a.toNat + 1 else 0
    | _, _ => 0
  alignedX : Aligned cs xLabel
  alignedY : Aligned cs yLabel
  aligned : ∀ n ∈ t.window.cycles, Aligned cs (f n)
  labelX : ∀ c ∈ cs, IsLabel c (Numeral.write 16 c.tile.x) (xLabel c)
  labelY : ∀ c ∈ cs, IsLabel c (Numeral.write 10 c.tile.y) (yLabel c)
  cells : ∀ n ∈ t.window.cycles, ∀ c ∈ cs, IsCell d c n (f n c)

theorem isTable_of_fields {r : Rendering} {f : Cycle → Column → List Char}
    (hf : ∀ n ∈ r.trace.window.cycles, ∀ c ∈ r.columns, r.field c n = .ok (f n c)) :
    ∃ text, r.text = .ok (String.ofList text) ∧
      IsTable r.trace r.disassembly r.columns (fun n c => cell c (f n c)) text := by
  refine ⟨_, text_eq hf, ?_⟩
  exact
    { lines := rfl
      shown := fun n => Window.mem_cycles
      increasing := r.trace.window.cycles_increase
      count := Window.length_cycles
      alignedX := aligned_of_width fun c _ => length_labelCell _ c
      alignedY := aligned_of_width fun c _ => length_labelCell _ c
      aligned := fun n hn => aligned_of_width fun c hc => length_cell (length_field (hf n hn c hc))
      labelX := fun c hc => isLabel_xLabel hc
      labelY := fun c hc => isLabel_yLabel hc
      cells := fun n hn c hc => isCell_field (hf n hn c hc) }

/-- The text of what was accepted is a table whose columns are the tiles of the grid that have a history
and a mode, in the order of their numbers. -/
theorem text_isTable {t : Trace} {m : Modes} {d : Option Disassembly} {r : Rendering}
    (h : new t m d = .ok r) :
    ∃ f text, r.text = .ok (String.ofList text) ∧
      IsTable t d ((List.range t.grid.numTiles).filterMap (column? t m)) f text := by
  obtain ⟨f, hf⟩ := fields_of_new_eq_ok h
  obtain ⟨rfl, -⟩ := accepted_of_new_eq_ok h
  obtain ⟨text, htext, htable⟩ := isTable_of_fields hf
  rw [columns_eq ⟨t, m, d⟩] at htable
  exact ⟨_, text, htext, htable⟩

/-- A label that is cut in one column, a blank cell in another, and a window up to the last cycle of all. -/
theorem text_isTable_last_cycle :
    let t : Trace := ⟨.reduced, ⟨some 0xfffffffffffffffe, some 0xffffffffffffffff⟩,
      [⟨true, .ofList [(0xffffffffffffffff, ⟨⟨0x1000⟩, "stall_depend_dram_load"⟩)]⟩, {}]⟩
    let m : Modes := ⟨.reduced, [some .hi, some .lo, some .full]⟩
    let r : Rendering := ⟨t, m, some {}⟩
    let lines := ["Tiles\t0               1\n", "Cycles\t0               0\n",
      "18446744073709551614\t                 \n", "18446744073709551615\tstall_depend_dr  \n"]
    new t m (some {}) = .ok r ∧ r.text = .ok (String.join lines) ∧ ∃ f,
      IsTable t (some {}) ((List.range t.grid.numTiles).filterMap (column? t m)) f
        (String.join lines).toList := by
  intro t m r lines
  have hnew : new t m (some {}) = .ok r := by with_unfolding_all rfl
  have hlines : r.text = .ok (String.join lines) := by decide +kernel
  obtain ⟨f, text, htext, htable⟩ := text_isTable hnew
  have hsame : text = (String.join lines).toList := by
    rw [Except.ok.inj (hlines.symm.trans htext), String.toList_ofList]
  exact ⟨hnew, hlines, f, hsame ▸ htable⟩

end Rendering

end TileTrace
