import TileTrace.Proofs.Render.Writing

/-!
# What a line trace depends on

A rendering looks at no event outside the window, at no tile without a mode, and at no instruction that
full mode does not show. Two traces that differ only there are accepted or refused alike, for the same
reason, and have the same text.
-/

namespace TileTrace.Rendering

/-- Two traces of the same size and window with the same events wherever a tile has a mode and a cycle is
shown. -/
structure ShowAlike (m : Modes) (t u : Trace) : Prop where
  grid : t.grid = u.grid
  window : t.window = u.window
  size : t.tiles.length = u.tiles.length
  events : ∀ i, i < t.grid.numTiles → m.get? (t.grid.tile i) ≠ none → ∀ n ∈ t.window.cycles,
    (t.tiles[i]?.bind fun h => h.events.get? n) = u.tiles[i]?.bind fun h => h.events.get? n

/-- Two dictionaries, both there or both missing, with the same instructions for what full mode shows of
the trace. -/
structure ExplainAlike (t : Trace) (m : Modes) (d d' : Option Disassembly) : Prop where
  present : d.isSome = d'.isSome
  same : ∀ i n e, ShownInFull t m i n e → e.pc ≠ .idle →
    (d.bind fun a => a.get? e.pc) = d'.bind fun a => a.get? e.pc

theorem explained_iff_bind {d : Option Disassembly} {e : Event} :
    Explained d e ↔ (e.pc ≠ .idle → (d.bind fun a => a.get? e.pc).isSome = true) := by
  unfold Explained
  by_cases hidle : e.pc = .idle
  · simp [hidle]
  · cases d with
    | none => simp [hidle]
    | some a => simp [hidle, Disassembly.contains, Disassembly.get?, OrderedMap.contains]

section
variable {t u : Trace} {m : Modes} {d d' : Option Disassembly} {i : Nat} {n : Cycle} {e : Event}

/-! ## What is accepted -/

theorem ShowAlike.shownInFull_iff (h : ShowAlike m t u) : ShownInFull t m i n e ↔ ShownInFull u m i n e := by
  have hkeeps : i < t.grid.numTiles → m.get? (t.grid.tile i) = some .full → n ∈ t.window.cycles →
      (t.Keeps i n e ↔ u.Keeps i n e) := by
    intro hi hfull hn
    rw [Trace.keeps_iff_bind, Trace.keeps_iff_bind, h.events i hi (by simp [hfull]) n hn]
  constructor
  · intro he
    exact ⟨h.grid ▸ he.tile, h.grid ▸ he.full, (hkeeps he.tile he.full he.shown).mp he.keeps,
      h.window ▸ he.shown⟩
  · intro he
    have hi : i < t.grid.numTiles := h.grid ▸ he.tile
    have hfull : m.get? (t.grid.tile i) = some .full := h.grid ▸ he.full
    have hn : n ∈ t.window.cycles := h.window ▸ he.shown
    exact ⟨hi, hfull, (hkeeps hi hfull hn).mpr he.keeps, hn⟩

theorem ExplainAlike.explained_iff (hd : ExplainAlike t m d d') (he : ShownInFull t m i n e) :
    Explained d e ↔ Explained d' e := by
  rw [explained_iff_bind, explained_iff_bind]
  apply forall_congr'
  intro hidle
  rw [hd.same i n e he hidle]

theorem ExplainAlike.ne_none_iff (hd : ExplainAlike t m d d') : d ≠ none ↔ d' ≠ none := by
  rw [Option.ne_none_iff_isSome, Option.ne_none_iff_isSome, hd.present]

structure Lacks (t : Trace) (m : Modes) (d : Option Disassembly) (i : Nat) (n : Cycle) (e : Event) : Prop where
  shown : ShownInFull t m i n e
  unexplained : ¬ Explained d e

theorem lacks_iff (h : ShowAlike m t u) (hd : ExplainAlike t m d d') :
    Lacks t m d i n e ↔ Lacks u m d' i n e := by
  constructor
  · intro hl
    exact ⟨h.shownInFull_iff.mp hl.shown, fun he => hl.unexplained ((hd.explained_iff hl.shown).mpr he)⟩
  · intro hl
    have hshown := h.shownInFull_iff.mpr hl.shown
    exact ⟨hshown, fun he => hl.unexplained ((hd.explained_iff hshown).mp he)⟩

/-- There is but one first event, by tile and then by cycle. -/
theorem first_unique {i j : Nat} {n k : Cycle} {e q : Event} (he : t.Keeps i n e) (hq : t.Keeps j k q)
    (hij : i < j ∨ i = j ∧ n ≤ k) (hji : j < i ∨ j = i ∧ k ≤ n) : i = j ∧ n = k ∧ e = q := by
  obtain rfl : i = j := by omega
  have hnk : n ≤ k := (hij.resolve_left (Nat.lt_irrefl i)).2
  have hkn : k ≤ n := (hji.resolve_left (Nat.lt_irrefl i)).2
  obtain rfl := UInt64.le_antisymm hnk hkn
  rw [Trace.keeps_iff_bind] at he hq
  exact ⟨rfl, rfl, Option.some.inj (he.symm.trans hq)⟩

theorem new_eq_gridMismatch (hgrid : m.grid ≠ t.grid) : new t m d = .error (.gridMismatch t.grid m.grid) := by
  unfold new
  rw [if_pos hgrid]

theorem new_eq_missingDisassembly (hgrid : m.grid = t.grid) (hneeds : m.needsDisassembly = true) :
    new t m none = .error .missingDisassembly := by
  unfold new
  rw [if_neg (not_not_intro hgrid), if_pos hneeds]

theorem new_alike (h : ShowAlike m t u) (hd : ExplainAlike t m d d') :
    (∃ f, new t m d = .error f ∧ new u m d' = .error f) ∨
      new t m d = .ok ⟨t, m, d⟩ ∧ new u m d' = .ok ⟨u, m, d'⟩ := by
  by_cases hgrid : m.grid = t.grid
  · have hgrid' : m.grid = u.grid := hgrid.trans h.grid
    by_cases hneeds : m.needsDisassembly = true → d ≠ none
    · have hneeds' : m.needsDisassembly = true → d' ≠ none := fun hm => hd.ne_none_iff.mp (hneeds hm)
      by_cases hlacks : ∃ i n e, Lacks t m d i n e
      · -- Both name their first event that is not explained, and these are the same.
        obtain ⟨i, n, e, hl⟩ := hlacks
        have hl' := (lacks_iff h hd).mp hl
        obtain ⟨j, k, q, hq, hnot, hfirst, hnew⟩ :=
          new_eq_missingInstruction hgrid hneeds hl.shown hl.unexplained
        obtain ⟨j', k', q', hq', hnot', hfirst', hnew'⟩ :=
          new_eq_missingInstruction hgrid' hneeds' hl'.shown hl'.unexplained
        have hbehind := (lacks_iff h hd).mpr ⟨hq', hnot'⟩
        have hbehind' := (lacks_iff h hd).mp ⟨hq, hnot⟩
        obtain ⟨rfl, rfl, rfl⟩ := first_unique hq.keeps hbehind.shown.keeps
          (hfirst j' k' q' hbehind.shown hbehind.unexplained)
          (hfirst' j k q hbehind'.shown hbehind'.unexplained)
        rw [← h.grid] at hnew'
        exact .inl ⟨_, hnew, hnew'⟩
      · have hall : ∀ i n e, ShownInFull t m i n e → Explained d e := by
          intro i n e he
          by_contra hnot
          exact hlacks ⟨i, n, e, he, hnot⟩
        have hall' : ∀ i n e, ShownInFull u m i n e → Explained d' e := by
          intro i n e he
          by_contra hnot
          exact hlacks ⟨i, n, e, (lacks_iff h hd).mpr ⟨he, hnot⟩⟩
        exact .inr ⟨new_eq_ok hgrid hneeds hall, new_eq_ok hgrid' hneeds' hall'⟩
    · obtain ⟨hm, hnone⟩ : m.needsDisassembly = true ∧ d = none := by simpa using hneeds
      have hnone' : d' = none := by
        by_contra hsome
        exact hd.ne_none_iff.mpr hsome hnone
      rw [hnone, hnone']
      exact .inl ⟨_, new_eq_missingDisassembly hgrid hm, new_eq_missingDisassembly hgrid' hm⟩
  · have hgrid' : m.grid ≠ u.grid := h.grid ▸ hgrid
    refine .inl ⟨_, new_eq_gridMismatch hgrid, ?_⟩
    rw [new_eq_gridMismatch hgrid', h.grid]

/-! ## What is written -/

theorem fullContent_congr {tile : Tile} (hpresent : d.isSome = d'.isSome)
    (h : e.pc ≠ .idle → (d.bind fun a => a.get? e.pc) = d'.bind fun a => a.get? e.pc) :
    fullContent d tile n e = fullContent d' tile n e := by
  unfold fullContent
  by_cases hidle : e.pc.isIdle = true
  · simp only [hidle, if_true]
  · have hne : e.pc ≠ .idle := fun hpc => hidle (by simp [Pc.isIdle, hpc])
    simp only [hidle, Bool.false_eq_true, if_false]
    cases d with
    | none =>
      cases d' with
      | none => rfl
      | some a' => cases hpresent
    | some a =>
      cases d' with
      | none => cases hpresent
      | some a' =>
        have hget : a.get? e.pc = a'.get? e.pc := h hne
        simp only [hget]

theorem content_congr {tile : Tile} {mode : Mode}
    (h : mode = .full → fullContent d tile n e = fullContent d' tile n e) :
    content d tile mode n e = content d' tile mode n e := by
  cases mode with
  | full => exact h rfl
  | _ => rfl

/-- The tiles of the grid have columns in both traces or in neither. -/
theorem ShowAlike.column?_cases (h : ShowAlike m t u) (i : Nat) :
    (column? t m i = none ∧ column? u m i = none) ∨
      ∃ tile mode g g', column? t m i = some ⟨tile, mode, g⟩ ∧ column? u m i = some ⟨tile, mode, g'⟩ := by
  unfold column?
  rw [← h.grid]
  cases hm : m.get? (t.grid.tile i) with
  | none => cases t.tiles[i]? <;> cases u.tiles[i]? <;> exact .inl ⟨rfl, rfl⟩
  | some mode =>
    by_cases hi : i < t.tiles.length
    · have hi' : i < u.tiles.length := h.size ▸ hi
      rw [List.getElem?_eq_getElem hi, List.getElem?_eq_getElem hi']
      exact .inr ⟨_, mode, _, _, rfl, rfl⟩
    · have hi' : ¬ i < u.tiles.length := h.size ▸ hi
      rw [List.getElem?_eq_none (by omega), List.getElem?_eq_none (by omega)]
      exact .inl ⟨rfl, rfl⟩

/-- Lines with the same cell in every pair of columns have the same pieces. -/
theorem ShowAlike.linePieces_eq (h : ShowAlike m t u) (lead : List Char)
    {f g : Column → Except Failure (List Char)}
    (hcells : ∀ i c c', i < t.grid.numTiles → column? t m i = some c → column? u m i = some c' →
      c.tile = c'.tile → c.mode = c'.mode → f c = g c') :
    linePieces ⟨t, m, d⟩ lead f = linePieces ⟨u, m, d'⟩ lead g := by
  have hmap : (columns ⟨t, m, d⟩).map f = (columns ⟨u, m, d'⟩).map g := by
    rw [columns_eq, columns_eq, List.map_filterMap, List.map_filterMap]
    simp only [← h.grid]
    apply List.filterMap_congr
    intro i hi
    rcases h.column?_cases i with ⟨hnone, hnone'⟩ | ⟨tile, mode, x, x', hc, hc'⟩
    · rw [hnone, hnone']
      rfl
    · rw [hc, hc', Option.map_some, Option.map_some, hcells i _ _ (List.mem_range.mp hi) hc hc' rfl rfl]
  unfold linePieces
  rw [hmap]

theorem field_alike (h : ShowAlike m t u) (hd : ExplainAlike t m d d') {c c' : Column}
    (hn : n ∈ t.window.cycles) (hi : i < t.grid.numTiles) (hc : column? t m i = some c)
    (hc' : column? u m i = some c') : field ⟨t, m, d⟩ c n = field ⟨u, m, d'⟩ c' n := by
  obtain ⟨tile, mode, g⟩ := c
  obtain ⟨tile', mode', g'⟩ := c'
  obtain ⟨rfl, hg, hmode⟩ := column?_eq_some.mp hc
  obtain ⟨rfl, hg', hmode'⟩ := column?_eq_some.mp hc'
  rw [← h.grid] at hmode' ⊢
  obtain rfl : mode = mode' := Option.some.inj (hmode.symm.trans hmode')
  -- The cycle is shown and the tile has a mode, so the events there are the same.
  have hget : g.events.get? n = g'.events.get? n := by
    have hevents := h.events i hi (by simp [hmode]) n hn
    rwa [hg, hg'] at hevents
  unfold field
  simp only [← hget]
  cases he : g.events.get? n with
  | none => rfl
  | some e =>
    have hcontent : content d (t.grid.tile i) mode n e = content d' (t.grid.tile i) mode n e := by
      apply content_congr
      intro hfull
      have hshown : ShownInFull t m i n e := ⟨hi, hfull ▸ hmode, ⟨g, hg, he⟩, hn⟩
      exact fullContent_congr hd.present (hd.same i n e hshown)
    simp only [hcontent]

theorem pieces_alike (h : ShowAlike m t u) (hd : ExplainAlike t m d d') :
    pieces ⟨t, m, d⟩ = pieces ⟨u, m, d'⟩ := by
  have hheader : ∀ title label, headerPieces ⟨t, m, d⟩ title label = headerPieces ⟨u, m, d'⟩ title label := by
    intro title label
    apply h.linePieces_eq
    intro i c c' _ _ _ htile hmode
    simp only [cell, htile, hmode]
  have hrow : ∀ n ∈ t.window.cycles, rowPieces ⟨t, m, d⟩ n = rowPieces ⟨u, m, d'⟩ n := by
    intro n hn
    apply h.linePieces_eq
    intro i c c' hi hc hc' _ hmode
    simp only [cell, hmode, field_alike h hd hn hi hc hc']
  unfold pieces
  rw [hheader, hheader, ← h.window, List.flatMap_congr hrow]

theorem text_alike (h : ShowAlike m t u) (hd : ExplainAlike t m d d') : text ⟨t, m, d⟩ = text ⟨u, m, d'⟩ := by
  rw [text_eq_written, text_eq_written, written, written, pieces_alike h hd]

/-- A rendering depends on nothing but what is shown. If two traces show the same events and two
dictionaries explain them alike, both are refused with the same failure, or both have the same text. -/
theorem renders_alike (h : ShowAlike m t u) (hd : ExplainAlike t m d d') :
    (∃ f, new t m d = .error f ∧ new u m d' = .error f) ∨
      ∃ r r' x, new t m d = .ok r ∧ new u m d' = .ok r' ∧ r.text = .ok x ∧ r'.text = .ok x := by
  rcases new_alike h hd with hrefused | ⟨hnew, hnew'⟩
  · exact .inl hrefused
  · obtain ⟨x, hx⟩ := exists_text hnew
    exact .inr ⟨_, _, x, hnew, hnew', hx, (text_alike h hd).symm.trans hx⟩

end

/-- The traces differ in front of the window and behind it, in a tile without a mode and in the states of
their tiles, and the dictionaries in an instruction that is not shown. -/
theorem renders_alike_outside :
    let kept : List (Cycle × Event) := [(5, ⟨⟨0x1000⟩, "add"⟩), (6, ⟨.idle, "stall_fence"⟩)]
    let t : Trace := ⟨.reduced, ⟨some 5, some 6⟩,
      [⟨true, .ofList ((4, ⟨⟨0x2000⟩, "sub"⟩) :: kept)⟩, ⟨false, .ofList [(5, ⟨⟨0x3000⟩, "lw"⟩)]⟩, {}]⟩
    let u : Trace := ⟨.reduced, ⟨some 5, some 6⟩,
      [⟨false, .ofList kept⟩, {}, ⟨true, .ofList [(7, ⟨⟨0x2000⟩, "sub"⟩)]⟩]⟩
    let m : Modes := ⟨.reduced, [some .full, none, some .lo]⟩
    let d : Option Disassembly := some ⟨.ofList [(⟨0x1000⟩, ["add", "a0,a0,a1"])]⟩
    let d' : Option Disassembly := some ⟨.ofList [(⟨0x1000⟩, ["add", "a0,a0,a1"]), (⟨0x2000⟩, ["nop"])]⟩
    let lines := ["Tiles\t0                    2\n", "Cycles\t0                    0\n",
      "5\t1000 add a0,a0,a1     \n", "6\t##fence               \n"]
    t ≠ u ∧ d ≠ d' ∧ ShowAlike m t u ∧ ExplainAlike t m d d' ∧
      ∃ r r', new t m d = .ok r ∧ new u m d' = .ok r' ∧ r.text = .ok (String.join lines) ∧
        r'.text = .ok (String.join lines) := by
  intro kept t u m d d' lines
  have hcycles : ∀ n ∈ t.window.cycles, n = 5 ∨ n = 6 := by
    have hlist : t.window.cycles = [5, 6] := by decide
    simp [hlist]
  have hshow : ShowAlike m t u := by
    refine ⟨rfl, rfl, rfl, ?_⟩
    intro i hi hmode n hn
    have hfive : ∀ i < 16, m.get? (Grid.tile .reduced i) ≠ none →
        (t.tiles[i]?.bind fun h => h.events.get? 5) = u.tiles[i]?.bind fun h => h.events.get? 5 := by decide
    have hsix : ∀ i < 16, m.get? (Grid.tile .reduced i) ≠ none →
        (t.tiles[i]?.bind fun h => h.events.get? 6) = u.tiles[i]?.bind fun h => h.events.get? 6 := by decide
    rcases hcycles n hn with rfl | rfl
    · exact hfive i hi hmode
    · exact hsix i hi hmode
  have hexplain : ExplainAlike t m d d' := by
    refine ⟨rfl, ?_⟩
    intro i n e he hidle
    have hfirst : ∀ i < 16, m.get? (Grid.tile .reduced i) = some .full → i = 0 := by decide
    obtain rfl := hfirst i he.tile he.full
    have hkeeps := Trace.keeps_iff_bind.mp he.keeps
    rcases hcycles n he.shown with rfl | rfl
    · obtain rfl : (⟨⟨0x1000⟩, "add"⟩ : Event) = e := Option.some.inj hkeeps
      decide
    · obtain rfl : (⟨.idle, "stall_fence"⟩ : Event) = e := Option.some.inj hkeeps
      exact absurd rfl hidle
  have hnew : new t m d = .ok ⟨t, m, d⟩ := by with_unfolding_all rfl
  have hlines : Rendering.text ⟨t, m, d⟩ = .ok (String.join lines) := by decide +kernel
  refine ⟨by decide, by decide, hshow, hexplain, ?_⟩
  rcases renders_alike hshow hexplain with ⟨f, hf, -⟩ | ⟨r, r', x, hr, hr', hx, hx'⟩
  · rw [hnew] at hf
    cases hf
  · obtain rfl := Except.ok.inj (hnew.symm.trans hr)
    obtain rfl := Except.ok.inj (hlines.symm.trans hx)
    exact ⟨_, r', hnew, hr', hlines, hx'⟩

end TileTrace.Rendering
