import TileTrace.Proofs.Disassembly
import TileTrace.Proofs.Render.Contents
import TileTrace.Proofs.Render.Table
import TileTrace.Trace.Builder

/-!
# Line breaks

Nothing but the label of an operation can bring a line break into a cell: codes are single lines, program
counters are digits, and the pieces of an instruction are words. Labels can: in hi mode they are shown as
they are, and in full mode behind an idle program counter.
-/

namespace TileTrace

theorem plain_of_digits {radix : Nat} (hr : radix ≤ 16) {cs : List Char} (h : Numeral.Digits radix cs) :
    '\n' ∉ cs := by
  intro hmem
  obtain ⟨d, hd, heq⟩ := h _ hmem
  exact Numeral.digitChar_ne (Nat.lt_of_lt_of_le hd hr) (by decide) heq.symm

theorem plain_write {radix : Nat} (hr : 2 ≤ radix ∧ radix ≤ 16) (n : Nat) : '\n' ∉ Numeral.write radix n :=
  plain_of_digits hr.2 (Numeral.digits_write hr.1 n)

theorem count_fit (s : List Char) (width : Nat) : (fit s width).count '\n' = (s.take width).count '\n' := by
  rw [fit, List.count_append, List.count_replicate]
  rfl

theorem count_fit_of_plain {s : List Char} (h : '\n' ∉ s) (width : Nat) : (fit s width).count '\n' = 0 := by
  rw [count_fit, List.count_eq_zero]
  exact fun hmem => h (List.mem_of_mem_take hmem)

namespace Rendering

theorem count_cell (c : Column) (s : List Char) : (cell c s).count '\n' = s.count '\n' := by
  rw [cell, List.count_append, separator_eq, List.count_replicate]
  rfl

theorem count_line {lead : List Char} (h : '\n' ∉ lead) (cells : List (List Char)) :
    (line lead cells).count '\n' = 1 + (cells.map (List.count '\n')).sum := by
  rw [line, List.count_append, List.count_append, List.count_append, List.count_eq_zero.mpr h,
    List.count_flatten]
  simp [Nat.add_comm]

theorem count_labelCell (label : Tile → List Char) {c : Column} (h : '\n' ∉ label c.tile) :
    (labelCell label c).count '\n' = 0 := by
  rw [labelCell, count_cell, count_fit_of_plain h]

/-! ## Contents -/

theorem plain_stallReason {label : List Char} (h : '\n' ∉ label) : '\n' ∉ stallReason label := by
  have hsub : label.dropWhile (· ≠ '_') ⊆ label := (List.dropWhile_suffix _).subset
  unfold stallReason
  split
  · rename_i c reason heq
    rw [heq] at hsub
    exact fun hmem => h (hsub (List.mem_cons_of_mem c hmem))
  · exact h

theorem plain_lowDigits (pc : Pc) : '\n' ∉ pc.lowDigits.toList := by
  rw [Pc.lowDigits, String.toList_ofList]
  exact plain_of_digits (Nat.le_refl 16) (Numeral.digits_writeFixed (by decide) 4 _)

/-- What of the label of its event a cell shows: as much as there is room for in hi mode, and in full mode
behind a program counter that is idle. -/
def shownLabel (c : Column) (n : Cycle) : List Char :=
  match c.history.events.get? n with
  | none => []
  | some e => if c.mode = .hi ∨ c.mode = .full ∧ e.pc.isIdle then e.operation.toList.take 15 else []

def shownLabels (r : Rendering) : List Char :=
  r.trace.window.cycles.flatMap fun n => r.columns.flatMap fun c => shownLabel c n

section
variable {d : Option Disassembly} {tile : Tile} {n : Cycle} {e : Event} {s : List Char}

theorem plain_lo (h : content d tile .lo n e = .ok s) : '\n' ∉ s := by
  rcases content_lo_eq_ok h with rfl | ⟨label, code, hcode, rfl⟩ | rfl
  · decide
  · rw [List.mem_singleton]
    exact (Operation.plain_stalls _ hcode).2.1.symm
  · decide

theorem plain_mid (h : content d tile .mid n e = .ok s) : '\n' ∉ s := by
  rcases content_mid_eq_ok h with ⟨label, code, hcode, rfl⟩ | ⟨label, code, hcode, rfl⟩ | rfl
  · exact Operation.plain_instructions _ hcode
  · exact (Operation.plain_stalls _ hcode).2.2
  · decide

theorem plain_pc (h : content d tile .pc n e = .ok s) : '\n' ∉ s := by
  simp only [content] at h
  cases h
  split
  · decide
  · exact plain_lowDigits e.pc

theorem plain_fragments {d : Disassembly} (hd : d.WellFormed) {pc : Pc} {fragments : List String}
    (h : d.get? pc = some fragments) : '\n' ∉ fragments.flatMap fun f => ' ' :: f.toList := by
  intro hmem
  obtain ⟨f, hf, hmem⟩ := List.mem_flatMap.mp hmem
  obtain ⟨-, hblank⟩ := (hd pc fragments h).2 f hf
  rcases List.mem_cons.mp hmem with heq | hmem
  · exact absurd heq (by decide)
  · exact absurd (hblank '\n' hmem) (by decide)

theorem count_fullContent (hd : ∀ a, d = some a → a.WellFormed) (h : fullContent d tile n e = .ok s) :
    (fit s Mode.full.width).count '\n' =
      (if e.pc.isIdle then e.operation.toList.take 15 else []).count '\n' := by
  have hlow := plain_lowDigits e.pc
  rcases fullContent_eq_ok h with ⟨hidle, code, hop, hs⟩ | ⟨hidle, hs⟩ | ⟨hidle, a, fragments, ha, hget, hs⟩
  · -- a stall is in the tables, and so is its label
    have hlabel := (Operation.plain_stalls _ (Operation.mem_of_classify_stall hop)).1
    have hreason := plain_stallReason hlabel
    have htake : '\n' ∉ e.operation.toList.take 15 := fun hmem => hlabel (List.mem_of_mem_take hmem)
    rw [hs, count_fit_of_plain (by simpa using hreason), hidle, if_pos rfl, List.count_eq_zero.mpr htake]
  · -- four digits and a space leave room for fifteen characters
    have hlength : e.pc.lowDigits.toList.length = 4 := by
      rw [Pc.lowDigits, String.toList_ofList, Numeral.writeFixed_length]
    rw [hs, count_fit, List.append_assoc, List.take_append, hlength, List.count_append,
      List.take_of_length_le (by rw [hlength]; decide), List.count_eq_zero.mpr hlow]
    simp [hidle, Mode.width]
  · have hfragments := plain_fragments (hd a ha) hget
    rw [hs, count_fit_of_plain (by simp [hlow, hfragments])]
    simp [hidle]

theorem count_content {c : Column} (hd : ∀ a, d = some a → a.WellFormed)
    (he : c.history.events.get? n = some e) (h : content d c.tile c.mode n e = .ok s) :
    (fit s c.mode.width).count '\n' = (shownLabel c n).count '\n' := by
  obtain ⟨tile, mode, history⟩ := c
  simp only [shownLabel, he]
  cases mode with
  | lo =>
    rw [count_fit_of_plain (plain_lo h)]
    simp
  | mid =>
    rw [count_fit_of_plain (plain_mid h)]
    simp
  | hi =>
    cases h
    rw [count_fit]
    simp [Mode.width]
  | pc =>
    rw [count_fit_of_plain (plain_pc h)]
    simp
  | full => simpa using count_fullContent hd h

end

section
variable {r : Rendering} {c : Column} {n : Cycle} {s : List Char}

theorem count_field (hd : ∀ a, r.disassembly = some a → a.WellFormed) (h : r.field c n = .ok s) :
    s.count '\n' = (shownLabel c n).count '\n' := by
  rcases field_eq_ok h with ⟨he, rfl⟩ | ⟨e, x, he, hx, rfl⟩
  · simp [shownLabel, he, List.count_replicate]
  · exact count_content hd he hx

theorem count_xLabel (c : Column) : (xLabel c).count '\n' = 0 :=
  count_labelCell (fun t => Numeral.write 16 t.x) (plain_write (by decide) c.tile.x)

theorem count_yLabel (c : Column) : (yLabel c).count '\n' = 0 :=
  count_labelCell (fun t => Numeral.write 10 t.y) (plain_write (by decide) c.tile.y)

theorem count_header {title : List Char} (h : '\n' ∉ title) {f : Column → List Char}
    (hf : ∀ c, (f c).count '\n' = 0) (cs : List Column) : (line title (cs.map f)).count '\n' = 1 := by
  rw [count_line h, List.map_map]
  simp [Function.comp_def, hf]

/-- A row ends once, and breaks at every line break in the labels that it shows. -/
theorem count_row {f : Column → List Char} (hd : ∀ a, r.disassembly = some a → a.WellFormed)
    (h : ∀ c ∈ r.columns, r.field c n = .ok (f c)) :
    (line (Numeral.write 10 n.toNat) (r.columns.map fun c => cell c (f c))).count '\n' =
      1 + (r.columns.flatMap fun c => shownLabel c n).count '\n' := by
  rw [count_line (plain_write (by decide) n.toNat), List.count_flatMap, List.map_map]
  congr 2
  apply List.map_congr_left
  intro c hc
  simp only [Function.comp_apply]
  rw [count_cell, count_field hd (h c hc)]

end

theorem count_text {r : Rendering} {f : Cycle → Column → List Char}
    (hd : ∀ a, r.disassembly = some a → a.WellFormed)
    (h : ∀ n ∈ r.trace.window.cycles, ∀ c ∈ r.columns, r.field c n = .ok (f n c)) :
    ∃ x, r.text = .ok x ∧
      x.toList.count '\n' = 2 + r.trace.window.cycles.length + (shownLabels r).count '\n' := by
  refine ⟨_, text_eq h, ?_⟩
  have hrows : (r.trace.window.cycles.flatMap fun n =>
        line (Numeral.write 10 n.toNat) (r.columns.map fun c => cell c (f n c))).count '\n' =
      r.trace.window.cycles.length + (shownLabels r).count '\n' := by
    rw [List.count_flatMap, Function.comp_def, List.map_congr_left fun n hn => count_row hd (h n hn),
      List.sum_map_add, shownLabels, List.count_flatMap]
    simp [Function.comp_def]
  rw [String.toList_ofList, List.count_append, List.count_append, hrows,
    count_header (by decide) count_xLabel, count_header (by decide) count_yLabel]
  omega

/-- The text of what was accepted has a line for each header, one for every cycle of the window, and one
more for every line break in a label that a cell shows. -/
theorem count_newline_text {t : Trace} {m : Modes} {d : Option Disassembly} {r : Rendering}
    (h : new t m d = .ok r) (hd : ∀ a, d = some a → ∃ s entry, Disassembly.parse s = some (a, entry)) :
    ∃ x, r.text = .ok x ∧
      x.toList.count '\n' = 2 + t.window.cycles.length + (shownLabels r).count '\n' ∧
      (x.toList.count '\n' = 2 + t.window.cycles.length ↔ '\n' ∉ shownLabels r) := by
  obtain ⟨f, hf⟩ := fields_of_new_eq_ok h
  obtain ⟨rfl, -⟩ := accepted_of_new_eq_ok h
  have hwell : ∀ a, d = some a → a.WellFormed := by
    intro a ha
    obtain ⟨s, entry, hparse⟩ := hd a ha
    exact Disassembly.wellFormed_of_parse hparse
  obtain ⟨x, hx, hcount⟩ := count_text (r := ⟨t, m, d⟩) hwell hf
  refine ⟨x, hx, hcount, ?_⟩
  rw [← List.count_eq_zero, hcount]
  exact Nat.add_eq_left

/-- Three tiles with a label of two lines: it breaks the row where it is shown, in hi mode and behind an idle
program counter in full mode, but not where an instruction is shown instead. -/
theorem count_newline_text_two_lines :
    let t : Trace := ⟨.reduced, ⟨some 7, some 8⟩,
      [⟨true, .ofList [(7, ⟨⟨0x1000⟩, "a\nb"⟩)]⟩, ⟨true, .ofList [(8, ⟨⟨0x1000⟩, "a\nb"⟩)]⟩,
        ⟨true, .ofList [(8, ⟨.idle, "a\nb"⟩)]⟩]⟩
    let m : Modes := ⟨.reduced, [some .hi, some .full, some .full]⟩
    let d : Option Disassembly := some ⟨.ofList [(⟨0x1000⟩, ["nop"])]⟩
    let r : Rendering := ⟨t, m, d⟩
    (new t m d = .ok r ∧ ∀ a, d = some a → ∃ s entry, Disassembly.parse s = some (a, entry)) ∧
      ∃ x, r.text = .ok x ∧ x.toList.count '\n' = 6 ∧ (shownLabels r).count '\n' = 2 ∧
        x.toList.count '\n' = 2 + t.window.cycles.length + (shownLabels r).count '\n' ∧
        (x.toList.count '\n' = 2 + t.window.cycles.length ↔ '\n' ∉ shownLabels r) := by
  intro t m d r
  have hparse : Disassembly.parse (Utf8.encodeString "1000:\t00000013\tnop\n") =
      some (⟨.ofList [(⟨0x1000⟩, ["nop"])]⟩, .parsed 1 0) := by decide +kernel
  have hnew : new t m d = .ok r := by with_unfolding_all rfl
  have hd : ∀ a, d = some a → ∃ s entry, Disassembly.parse s = some (a, entry) := by
    intro a ha
    rw [← Option.some.inj ha]
    exact ⟨_, _, hparse⟩
  have hlabels : (shownLabels r).count '\n' = 2 := by decide +kernel
  have hcycles : t.window.cycles.length = 2 := by decide
  obtain ⟨x, hx, hcount, hiff⟩ := count_newline_text hnew hd
  exact ⟨⟨hnew, hd⟩, x, hx, by rw [hcount, hlabels, hcycles], hlabels, hcount, hiff⟩

/-- A label of two lines in quotes is read as it is, and makes two lines of the only row. -/
theorem text_breaks_at_label :
    let m : Modes := ⟨.reduced, some .hi :: List.replicate 15 none⟩
    ∃ t r x, (Trace.ofCsv ⟨.any, .any, .reduced⟩
        (Utf8.encodeString "x,y,cycle,pc,operation\n0,0,1,1000,\"a\nb\"\n")).result = .ok t ∧
      new t m none = .ok r ∧ r.text = .ok x ∧
      t.window.cycles.length = 1 ∧ x.toList.count '\n' = 4 ∧
      x.toList.count '\n' ≠ 2 + t.window.cycles.length := by
  intro m
  let t : Trace := ⟨.reduced, ⟨some 1, some 1⟩,
    ⟨true, .ofList [(1, ⟨⟨0x1000⟩, "a\nb"⟩)]⟩ :: List.replicate 15 {}⟩
  let r : Rendering := ⟨t, m, none⟩
  have ht : (Trace.ofCsv ⟨.any, .any, .reduced⟩
      (Utf8.encodeString "x,y,cycle,pc,operation\n0,0,1,1000,\"a\nb\"\n")).result = .ok t := by
    decide +kernel
  have hnew : new t m none = .ok r := by with_unfolding_all rfl
  let x := "Tiles\t0               \nCycles\t0               \n1\ta\nb             \n"
  have hx : r.text = .ok x := by decide +kernel
  have hcycles : t.window.cycles.length = 1 := by decide
  have hcount : x.toList.count '\n' = 4 := by decide
  refine ⟨t, r, x, ht, hnew, hx, hcycles, hcount, ?_⟩
  rw [hcount, hcycles]
  decide

end Rendering

end TileTrace
