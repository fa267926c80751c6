import TileTrace.Proofs.Trace.Retention

/-!
# Orders of the records

Records of different tiles do not disturb each other. However they are interleaved, every tile ends with
the same history, and only the bounds of the window can tell in which order the tiles took turns.
-/

namespace TileTrace.Trace

/-- The records are the same, and those of each tile come in the same order. -/
structure Interleaves (rs qs : List Record) : Prop where
  perm : rs.Perm qs
  order : ∀ r ∈ rs, rs.filter (·.tile = r.tile) = qs.filter (·.tile = r.tile)

section
variable {s : Selection} {rs qs : List Record}

theorem Interleaves.filter_eq (h : Interleaves rs qs) (t : Tile) :
    rs.filter (·.tile = t) = qs.filter (·.tile = t) := by
  by_cases ht : ∃ r ∈ rs, r.tile = t
  · obtain ⟨r, hr, rfl⟩ := ht
    exact h.order r hr
  · -- A tile without a record in one list has none in the other.
    have hnone : ∀ r ∈ rs, ¬ decide (r.tile = t) = true := fun r hr hrt =>
      ht ⟨r, hr, of_decide_eq_true hrt⟩
    have hnone' : ∀ r ∈ qs, ¬ decide (r.tile = t) = true := fun r hr => hnone r (h.perm.mem_iff.mpr hr)
    rw [List.filter_eq_nil_iff.mpr hnone, List.filter_eq_nil_iff.mpr hnone']

theorem Interleaves.takeOwn_eq (h : Interleaves rs qs) (t : Tile) (g : History) :
    g.takeOwn s t rs = g.takeOwn s t qs := by
  unfold History.takeOwn
  rw [h.filter_eq t]

/-- The window can tell the order of the records by the first that starts it and the last that ends it. -/
theorem takeAll_eq_of_first_last
    (hstart : (rs.find? fun r => s.start.Matches r.pc) = qs.find? fun r => s.start.Matches r.pc)
    (hstop : (rs.reverse.find? fun r => s.stop.Matches r.pc) =
      qs.reverse.find? fun r => s.stop.Matches r.pc) :
    Window.takeAll s {} rs = Window.takeAll s {} qs := by
  obtain ⟨hfirst, hlast⟩ := takeAll_window s rs
  obtain ⟨hfirst', hlast'⟩ := takeAll_window s qs
  apply Window.eq_of_bounds
  · rw [hfirst, hfirst', hstart]
  · rw [hlast, hlast', hstop]

/-- Traces of interleaved records have the same tiles and as many events. If the same record is the first
that starts the window, and the same is the last that ends it, they are equal. -/
theorem build_interleaved (h : Interleaves rs qs) (hin : ∀ r ∈ rs, s.grid.Contains r.tile) :
    ∃ t u, (build s (rs.map .ok)).result = .ok t ∧ (build s (qs.map .ok)).result = .ok u ∧
      t.tiles = u.tiles ∧ t.numEvents = u.numEvents ∧
      ((rs.find? fun r => s.start.Matches r.pc) = (qs.find? fun r => s.start.Matches r.pc) →
        (rs.reverse.find? fun r => s.stop.Matches r.pc) = (qs.reverse.find? fun r => s.stop.Matches r.pc) →
        t = u) := by
  have hin' : ∀ r ∈ qs, s.grid.Contains r.tile := fun r hr => hin r (h.perm.mem_iff.mpr hr)
  have htiles : (s.grid.tiles.map fun t => History.takeOwn s t {} rs) =
      s.grid.tiles.map fun t => History.takeOwn s t {} qs :=
    List.map_congr_left fun t _ => h.takeOwn_eq t {}
  refine ⟨_, _, build_inside s hin, build_inside s hin', htiles, ?_, ?_⟩
  · simp only [numEvents, htiles]
  · intro hstart hstop
    rw [takeAll_eq_of_first_last hstart hstop, htiles]

/-- Three tiles take turns in two orders. One of them enters the window twice, and one leaves it without
having been inside. -/
theorem build_interleaved_three_tiles :
    let s : Selection := ⟨.pc ⟨0x1000⟩, .pc ⟨0x1008⟩, .reduced⟩
    let a : Record := ⟨⟨0, 0⟩, 1, ⟨0x1000⟩, "add"⟩
    let b : Record := ⟨⟨0, 0⟩, 2, ⟨0x1008⟩, "jalr"⟩
    let c : Record := ⟨⟨0, 0⟩, 4, ⟨0x1000⟩, "add"⟩
    let d : Record := ⟨⟨1, 3⟩, 2, ⟨0x1008⟩, "jalr"⟩
    let e : Record := ⟨⟨2, 0⟩, 3, ⟨0x1000⟩, "add"⟩
    let f : Record := ⟨⟨2, 0⟩, 3, ⟨0x1008⟩, "jalr"⟩
    let rs := [a, d, b, e, c, f]
    let qs := [a, b, c, e, d, f]
    let t : Trace := ⟨.reduced, ⟨some 1, some 3⟩,
      ⟨true, .ofList [(1, a.event), (2, b.event), (4, c.event)]⟩ :: {} :: ⟨false, .ofList [(3, f.event)]⟩ ::
        List.replicate 13 {}⟩
    Interleaves rs qs ∧ (∀ r ∈ rs, s.grid.Contains r.tile) ∧
      (rs.find? fun r => s.start.Matches r.pc) = (qs.find? fun r => s.start.Matches r.pc) ∧
      (rs.reverse.find? fun r => s.stop.Matches r.pc) = (qs.reverse.find? fun r => s.stop.Matches r.pc) ∧
      (build s (rs.map .ok)).result = .ok t ∧ (build s (qs.map .ok)).result = .ok t := by
  intro s a b c d e f rs qs t
  have h : Interleaves rs qs := ⟨by decide, by decide⟩
  have hin : ∀ r ∈ rs, s.grid.Contains r.tile := by decide
  have hbuilt : (build s (rs.map .ok)).result = .ok t := by decide +kernel
  obtain ⟨t', u, ht, hu, -, -, heq⟩ := build_interleaved h hin
  obtain rfl := Except.ok.inj (hbuilt.symm.trans ht)
  obtain rfl := heq (by decide) (by decide)
  exact ⟨h, hin, by decide, by decide, hbuilt, hu⟩

end

end TileTrace.Trace
