import Mathlib.Tactic
import TileTrace.Proofs.Mode.Assignment
import TileTrace.Proofs.Render.Lines
import TileTrace.Proofs.Trace.Window

/-!
# What is accepted is rendered

Before the first line the dictionary is looked up for every event that full mode has to show. The lines
then look up no other event, so that a rendering that was accepted has a text. One that is refused for an
instruction is refused for the first, by tile and then by cycle.
-/

namespace TileTrace.Rendering

/-- Full mode has to show the event at a cycle of the tile with the number. -/
structure ShownInFull (t : Trace) (m : Modes) (i : Nat) (n : Cycle) (e : Event) : Prop where
  tile : i < t.grid.numTiles
  full : m.get? (t.grid.tile i) = some .full
  keeps : t.Keeps i n e
  shown : n ∈ t.window.cycles

/-- What full mode shows of an event is known: its tile is idle, or the dictionary has its instruction. -/
def Explained (d : Option Disassembly) (e : Event) : Prop :=
  e.pc = .idle ∨ ∃ a, d = some a ∧ a.contains e.pc = true

/-! ## Fields -/

section
variable {d : Option Disassembly} {tile : Tile} {mode : Mode} {n : Cycle} {e : Event}

theorem fullContent_ok (h : Explained d e) : ∃ s, fullContent d tile n e = .ok s := by
  unfold fullContent
  by_cases hidle : e.pc.isIdle = true
  · simp only [hidle, if_true]
    cases Operation.classify e.operation <;> exact ⟨_, rfl⟩
  · rcases h with hpc | ⟨a, rfl, ha⟩
    · exact absurd (by simp [Pc.isIdle, hpc]) hidle
    · obtain ⟨fragments, hf⟩ := Option.isSome_iff_exists.mp ha
      have hget : a.get? e.pc = some fragments := hf
      simp [hidle, hget]

theorem content_ok (h : mode = .full → Explained d e) : ∃ s, content d tile mode n e = .ok s := by
  cases mode with
  | full => exact fullContent_ok (h rfl)
  | hi => exact ⟨_, rfl⟩
  | pc => exact ⟨_, rfl⟩
  | lo =>
    unfold content
    cases Operation.classify e.operation <;> exact ⟨_, rfl⟩
  | mid =>
    unfold content
    cases Operation.classify e.operation <;> exact ⟨_, rfl⟩

theorem field_ok {r : Rendering} {c : Column}
    (h : c.mode = .full → ∀ e, c.history.events.get? n = some e → Explained r.disassembly e) :
    ∃ s, r.field c n = .ok s := by
  unfold field
  cases he : c.history.events.get? n with
  | none => exact ⟨_, rfl⟩
  | some e =>
    have hcontent : ∃ s, content r.disassembly c.tile c.mode n e = .ok s :=
      content_ok fun hc => h hc e he
    obtain ⟨s, hs⟩ := hcontent
    simp only [hs]
    exact ⟨_, rfl⟩

end

section
variable {r : Rendering} {t : Trace} {m : Modes} {d : Option Disassembly}

theorem exists_fields
    (h : ∀ i n e, ShownInFull r.trace r.modes i n e → Explained r.disassembly e) :
    ∃ f : Cycle → Column → List Char,
      ∀ n ∈ r.trace.window.cycles, ∀ c ∈ r.columns, r.field c n = .ok (f n c) := by
  have hfield : ∀ n c, ∃ s, n ∈ r.trace.window.cycles → c ∈ r.columns → r.field c n = .ok s := by
    intro n c
    by_cases hn : n ∈ r.trace.window.cycles
    · by_cases hc : c ∈ r.columns
      · obtain ⟨i, hi, hcol⟩ := mem_columns.mp hc
        obtain ⟨-, hhistory, hmode⟩ := column?_eq_some.mp hcol
        have hknown : c.mode = .full → ∀ e, c.history.events.get? n = some e →
            Explained r.disassembly e := by
          intro hfull e he
          rw [hfull] at hmode
          exact h i n e ⟨hi, hmode, ⟨c.history, hhistory, he⟩, hn⟩
        obtain ⟨s, hs⟩ := field_ok hknown
        exact ⟨s, fun _ _ => hs⟩
      · exact ⟨[], fun _ hc' => absurd hc' hc⟩
    · exact ⟨[], fun hn' _ => absurd hn' hn⟩
  choose f hf using hfield
  exact ⟨f, fun n hn c hc => hf n c hn hc⟩

/-! ## The first of a list in order -/

theorem before_or_eq_or_behind {α : Type} {R : α → α → Prop} {before behind : List α} {x y : α}
    (hl : (before ++ x :: behind).Pairwise R) (hy : y ∈ before ++ x :: behind) :
    y ∈ before ∨ y = x ∨ R x y := by
  have hbehind := (List.pairwise_cons.mp (List.pairwise_append.mp hl).2.1).1
  rcases List.mem_append.mp hy with h | h
  · exact .inl h
  · rcases List.mem_cons.mp h with h | h
    · exact .inr (.inl h)
    · exact .inr (.inr (hbehind y h))

theorem eq_or_of_find? {α : Type} {R : α → α → Prop} {p : α → Bool} {l : List α} {x y : α}
    (hl : l.Pairwise R) (hx : l.find? p = some x) (hy : y ∈ l) (hp : p y = true) : y = x ∨ R x y := by
  obtain ⟨-, before, behind, rfl, hbefore⟩ := List.find?_eq_some_iff_append.mp hx
  rcases before_or_eq_or_behind hl hy with h | h
  · simpa [hp] using hbefore y h
  · exact h

theorem exists_of_findSome? {α β : Type} {R : α → α → Prop} {f : α → Option β} {l : List α} {b : β}
    (hl : l.Pairwise R) (hb : l.findSome? f = some b) :
    ∃ x ∈ l, f x = some b ∧ ∀ y ∈ l, f y ≠ none → y = x ∨ R x y := by
  obtain ⟨before, x, behind, rfl, hx, hbefore⟩ := List.findSome?_eq_some_iff.mp hb
  refine ⟨x, by simp, hx, ?_⟩
  intro y hy hne
  rcases before_or_eq_or_behind hl hy with h | h
  · exact absurd (hbefore y h) hne
  · exact h

/-! ## The check -/

theorem lacksInstruction_iff {a : Disassembly} {e : Event} :
    lacksInstruction a e = true ↔ ¬ Explained (some a) e := by
  simp [lacksInstruction, Explained, Pc.isIdle]

theorem firstLacking?_of_none (h : r.trace.window.bounds? = none) (a : Disassembly) :
    r.firstLacking? a = none := by
  unfold firstLacking?
  split
  · rfl
  · rename_i hb
    rw [h] at hb
    cases hb

theorem firstLacking?_of_bounds {first last : Cycle} (h : r.trace.window.bounds? = some (first, last))
    (a : Disassembly) :
    r.firstLacking? a = (r.columns.filter (·.mode.needsDisassembly)).findSome? fun c =>
      ((c.history.events.range first last (Window.bounds?_ordered h)).find? (lacksInstruction a ·.2)).map
        fun (n, e) => .missingInstruction e.pc c.tile n := by
  unfold firstLacking?
  split
  · rename_i hb
    rw [h] at hb
    cases hb
  · rename_i hb
    rw [h] at hb
    cases hb
    rfl

/-- The columns that are in full mode, and in one of them the events that the window shows. -/
theorem shownInFull_iff {first last : Cycle} (h : r.trace.window.bounds? = some (first, last)) {i : Nat}
    {n : Cycle} {e : Event} :
    ShownInFull r.trace r.modes i n e ↔
      i < r.trace.grid.numTiles ∧ ∃ c, column? r.trace r.modes i = some c ∧
        c.mode.needsDisassembly = true ∧
        (n, e) ∈ c.history.events.range first last (Window.bounds?_ordered h) := by
  simp only [OrderedMap.mem_range, Mode.needsDisassembly_iff, column?_eq_some]
  constructor
  · rintro ⟨hi, hfull, ⟨g, hg, he⟩, hn⟩
    obtain ⟨han, hnb⟩ := (Window.mem_cycles_of_bounds h).mp hn
    exact ⟨hi, ⟨_, .full, g⟩, ⟨rfl, hg, hfull⟩, rfl, he, UInt64.le_iff_toNat_le.mp han,
      UInt64.le_iff_toNat_le.mp hnb⟩
  · rintro ⟨hi, c, ⟨-, hg, hmode⟩, hfull, he, han, hnb⟩
    rw [hfull] at hmode
    exact ⟨hi, hmode, ⟨_, hg, he⟩, (Window.mem_cycles_of_bounds h).mpr
      ⟨UInt64.le_iff_toNat_le.mpr han, UInt64.le_iff_toNat_le.mpr hnb⟩⟩

theorem explained_of_firstLacking?_eq_none {a : Disassembly} (h : r.firstLacking? a = none) {i : Nat}
    {n : Cycle} {e : Event} (he : ShownInFull r.trace r.modes i n e) : Explained (some a) e := by
  cases hb : r.trace.window.bounds? with
  | none =>
    have hn := he.shown
    rw [Window.cycles_of_none hb] at hn
    cases hn
  | some p =>
    obtain ⟨hi, c, hcol, hfull, hmem⟩ := (shownInFull_iff hb).mp he
    have hc : c ∈ r.columns.filter (·.mode.needsDisassembly) :=
      List.mem_filter.mpr ⟨mem_columns.mpr ⟨i, hi, hcol⟩, hfull⟩
    rw [firstLacking?_of_bounds hb] at h
    have hnone := List.findSome?_eq_none_iff.mp h c hc
    by_contra hnot
    exact List.find?_eq_none.mp (Option.map_eq_none_iff.mp hnone) _ hmem (lacksInstruction_iff.mpr hnot)

theorem exists_of_firstLacking?_eq_some {a : Disassembly} {f : Failure} (h : r.firstLacking? a = some f) :
    ∃ i n e, ShownInFull r.trace r.modes i n e ∧ ¬ Explained (some a) e ∧
      (∀ j k q, ShownInFull r.trace r.modes j k q → ¬ Explained (some a) q → i < j ∨ i = j ∧ n ≤ k) ∧
      f = .missingInstruction e.pc (r.trace.grid.tile i) n := by
  cases hb : r.trace.window.bounds? with
  | none =>
    rw [firstLacking?_of_none hb] at h
    cases h
  | some p =>
    rw [firstLacking?_of_bounds hb] at h
    obtain ⟨c, hmem, hc, hfirst⟩ := exists_of_findSome? ((columns_increase r).filter _) h
    obtain ⟨⟨n, e⟩, hfind, rfl⟩ := Option.map_eq_some_iff.mp hc
    obtain ⟨hmem, hfull⟩ := List.mem_filter.mp hmem
    obtain ⟨i, hi, hcol⟩ := mem_columns.mp hmem
    have hshown : ShownInFull r.trace r.modes i n e :=
      (shownInFull_iff hb).mpr ⟨hi, c, hcol, hfull, List.mem_of_find?_eq_some hfind⟩
    have hlacks := List.find?_some hfind
    refine ⟨i, n, e, hshown, lacksInstruction_iff.mp hlacks, ?_, by rw [(column?_eq_some.mp hcol).1]⟩
    -- Columns are in the order of their tiles, and the events of each in the order of their cycles.
    intro j k q hq hnot
    obtain ⟨hj, c', hcol', hfull', hk⟩ := (shownInFull_iff hb).mp hq
    have hlacks' := lacksInstruction_iff.mpr hnot
    have hne : ¬ (c'.history.events.range _ _ (Window.bounds?_ordered hb)).find? (lacksInstruction a ·.2) =
        none := fun hnone => List.find?_eq_none.mp hnone _ hk hlacks'
    have hmem' : c' ∈ r.columns.filter (·.mode.needsDisassembly) :=
      List.mem_filter.mpr ⟨mem_columns.mpr ⟨j, hj, hcol'⟩, hfull'⟩
    have hindex := Grid.index?_tile hi
    have hindex' := Grid.index?_tile hj
    rw [(column?_eq_some.mp hcol).1] at hindex
    rw [(column?_eq_some.mp hcol').1] at hindex'
    rcases hfirst c' hmem' (by simpa using hne) with rfl | hlt
    · obtain rfl := Option.some.inj (hindex.symm.trans hindex')
      right
      refine ⟨rfl, UInt64.le_iff_toNat_le.mpr ?_⟩
      rcases eq_or_of_find? (OrderedMap.range_sorted _ _) hfind hk hlacks' with heq | hlt
      · cases heq
        exact Nat.le_refl _
      · exact Nat.le_of_lt hlt
    · exact .inl (hlt i j hindex hindex')

/-! ## New renderings -/

theorem explained_of_not_needsDisassembly (hm : m.needsDisassembly = false) {i : Nat} {n : Cycle} {e : Event}
    (h : ShownInFull t m i n e) : Explained d e := by
  rw [Modes.needsDisassembly_of_get? h.full] at hm
  cases hm

theorem new_eq_ok (hgrid : m.grid = t.grid) (hd : m.needsDisassembly = true → d ≠ none)
    (h : ∀ i n e, ShownInFull t m i n e → Explained d e) : new t m d = .ok ⟨t, m, d⟩ := by
  unfold new
  rw [if_neg (by simp [hgrid])]
  cases d with
  | none =>
    have hm : m.needsDisassembly = false := by simpa using hd
    simp [hm]
  | some a =>
    cases hf : firstLacking? ⟨t, m, some a⟩ a with
    | none => simp only [hf]
    | some f =>
      obtain ⟨i, n, e, he, hnot, -⟩ := exists_of_firstLacking?_eq_some hf
      exact absurd (h i n e he) hnot

theorem accepted_of_new_eq_ok (h : new t m d = .ok r) :
    r = ⟨t, m, d⟩ ∧ m.grid = t.grid ∧ (m.needsDisassembly = true → d ≠ none) ∧
      ∀ i n e, ShownInFull t m i n e → Explained d e := by
  unfold new at h
  by_cases hgrid : m.grid = t.grid
  · rw [if_neg (by simp [hgrid])] at h
    cases d with
    | none =>
      by_cases hm : m.needsDisassembly = true
      · simp [hm] at h
      · simp only [hm] at h
        cases h
        refine ⟨rfl, hgrid, fun hm' => absurd hm' hm, ?_⟩
        intro i n e he
        exact explained_of_not_needsDisassembly (by simpa using hm) he
    | some a =>
      cases hf : firstLacking? ⟨t, m, some a⟩ a with
      | none =>
        simp only [hf] at h
        cases h
        exact ⟨rfl, hgrid, nofun, fun i n e he => explained_of_firstLacking?_eq_none hf he⟩
      | some f =>
        simp only [hf] at h
        cases h
  · rw [if_pos hgrid] at h
    cases h

theorem new_eq_missingInstruction (hgrid : m.grid = t.grid) (hd : m.needsDisassembly = true → d ≠ none)
    {j : Nat} {k : Cycle} {q : Event} (hq : ShownInFull t m j k q) (hnot : ¬ Explained d q) :
    ∃ i n e, ShownInFull t m i n e ∧ ¬ Explained d e ∧
      (∀ j k q, ShownInFull t m j k q → ¬ Explained d q → i < j ∨ i = j ∧ n ≤ k) ∧
      new t m d = .error (.missingInstruction e.pc (t.grid.tile i) n) := by
  cases d with
  | none => exact absurd rfl (hd (Modes.needsDisassembly_of_get? hq.full))
  | some a =>
    cases hf : firstLacking? ⟨t, m, some a⟩ a with
    | none => exact absurd (explained_of_firstLacking?_eq_none hf hq) hnot
    | some f =>
      obtain ⟨i, n, e, he, hlacks, hfirst, rfl⟩ := exists_of_firstLacking?_eq_some hf
      refine ⟨i, n, e, he, hlacks, hfirst, ?_⟩
      unfold new
      rw [if_neg (by simp [hgrid])]
      simp only [hf]

theorem fields_of_new_eq_ok (h : new t m d = .ok r) :
    ∃ f : Cycle → Column → List Char,
      ∀ n ∈ r.trace.window.cycles, ∀ c ∈ r.columns, r.field c n = .ok (f n c) := by
  obtain ⟨rfl, -, -, hexplained⟩ := accepted_of_new_eq_ok h
  exact exists_fields hexplained

theorem exists_text (h : new t m d = .ok r) : ∃ s, r.text = .ok s := by
  obtain ⟨f, hf⟩ := fields_of_new_eq_ok h
  exact ⟨_, text_eq hf⟩

/-- A rendering is accepted if the modes are for the grid of the trace, there is a dictionary where full
mode needs one, and full mode can explain whatever it has to show. Then it has a text. If only the last
of the three fails, the failure names the first event by tile and then by cycle that is not explained. -/
theorem new_renders (t : Trace) (m : Modes) (d : Option Disassembly) :
    ((∃ r, new t m d = .ok r) ↔
      m.grid = t.grid ∧ (m.needsDisassembly = true → d ≠ none) ∧
        ∀ i n e, ShownInFull t m i n e → Explained d e) ∧
    (∀ r, new t m d = .ok r → ∃ s, r.text = .ok s) ∧
    (m.grid = t.grid → (m.needsDisassembly = true → d ≠ none) →
      (∃ j k q, ShownInFull t m j k q ∧ ¬ Explained d q) →
      ∃ i n e, ShownInFull t m i n e ∧ ¬ Explained d e ∧
        (∀ j k q, ShownInFull t m j k q → ¬ Explained d q → i < j ∨ i = j ∧ n ≤ k) ∧
        new t m d = .error (.missingInstruction e.pc (t.grid.tile i) n)) := by
  refine ⟨⟨?_, ?_⟩, ?_, ?_⟩
  · rintro ⟨r, hr⟩
    exact (accepted_of_new_eq_ok hr).2
  · rintro ⟨hgrid, hd, hexplained⟩
    exact ⟨_, new_eq_ok hgrid hd hexplained⟩
  · intro r hr
    obtain ⟨f, hf⟩ := fields_of_new_eq_ok hr
    exact ⟨_, text_eq hf⟩
  · rintro hgrid hd ⟨j, k, q, hq, hnot⟩
    exact new_eq_missingInstruction hgrid hd hq hnot

end

/-- Two instructions are not in the dictionary, and the later one is that of the first tile. -/
theorem new_renders_two_missing :
    let t : Trace := ⟨.reduced, ⟨some 2, some 0xffffffffffffffff⟩,
      [⟨true, .ofList [(9, ⟨⟨0x1000⟩, "add"⟩)]⟩, ⟨true, .ofList [(3, ⟨⟨0x1004⟩, "sub"⟩)]⟩]⟩
    let m : Modes := ⟨.reduced, [some .full, some .full]⟩
    let d : Option Disassembly := some {}
    m.grid = t.grid ∧ (m.needsDisassembly = true → d ≠ none) ∧
      (ShownInFull t m 1 3 ⟨⟨0x1004⟩, "sub"⟩ ∧ ¬ Explained d ⟨⟨0x1004⟩, "sub"⟩) ∧
      (ShownInFull t m 0 9 ⟨⟨0x1000⟩, "add"⟩ ∧ ¬ Explained d ⟨⟨0x1000⟩, "add"⟩) ∧
      (¬ ∃ r, new t m d = .ok r) ∧ new t m d = .error (.missingInstruction ⟨0x1000⟩ ⟨0, 0⟩ 9) := by
  intro t m d
  have hshown : ShownInFull t m 1 3 ⟨⟨0x1004⟩, "sub"⟩ :=
    ⟨by decide, by decide, ⟨_, rfl, rfl⟩, Window.mem_cycles.mpr ⟨_, _, rfl, rfl, by decide, by decide⟩⟩
  have hshown' : ShownInFull t m 0 9 ⟨⟨0x1000⟩, "add"⟩ :=
    ⟨by decide, by decide, ⟨_, rfl, rfl⟩, Window.mem_cycles.mpr ⟨_, _, rfl, rfl, by decide, by decide⟩⟩
  have hnot : ∀ e : Event, e.pc ≠ .idle → ¬ Explained d e := by
    rintro e hidle (h | ⟨a, ha, h⟩)
    · exact hidle h
    · rw [← Option.some.inj ha] at h
      cases h
  have hlacks : ¬ Explained d ⟨⟨0x1004⟩, "sub"⟩ := hnot _ (by decide)
  have hlacks' : ¬ Explained d ⟨⟨0x1000⟩, "add"⟩ := hnot _ (by decide)
  obtain ⟨haccepted, -, hfirst⟩ := new_renders t m d
  obtain ⟨i, n, e, he, -, hleast, herror⟩ := hfirst rfl nofun ⟨1, 3, _, hshown, hlacks⟩
  -- Nothing is in front of the event of the first tile, which is its only one.
  obtain rfl : i = 0 := by
    rcases hleast 0 9 _ hshown' hlacks' with hlt | ⟨h, -⟩
    · exact absurd hlt (Nat.not_lt_zero i)
    · exact h
  obtain ⟨g, hg, hget⟩ := he.keeps
  obtain rfl := Option.some.inj hg
  have hmem : (n, e) ∈ [((9 : Cycle), (⟨⟨0x1000⟩, "add"⟩ : Event))] := OrderedMap.mem_entries.mpr hget
  obtain ⟨rfl, rfl⟩ := Prod.mk.inj (List.mem_singleton.mp hmem)
  have htile : t.grid.tile 0 = ⟨0, 0⟩ := by decide
  rw [htile] at herror
  refine ⟨rfl, nofun, ⟨hshown, hlacks⟩, ⟨hshown', hlacks'⟩, ?_, herror⟩
  intro haccept
  exact hlacks ((haccepted.mp haccept).2.2 _ _ _ hshown)

end TileTrace.Rendering
