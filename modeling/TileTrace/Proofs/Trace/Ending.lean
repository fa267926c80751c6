import TileTrace.Proofs.Trace.Retention

/-!
# What ends the window

The last record with the end marker ends the window, wherever its tile is. If the tile was not inside, the
record is not kept, and the window may end at a cycle at which no tile left it.
-/

namespace TileTrace.Trace

section
variable (s : Selection) (rs : List Record)

/-- The record at position `i` is `r`, it matches the end marker, and no later one does. -/
def LastEnding (i : Nat) (r : Record) : Prop :=
  rs[i]? = some r ∧ s.stop.Matches r.pc ∧ ∀ k q, i < k → rs[k]? = some q → ¬ s.stop.Matches q.pc

/-- The record `r` at position `i` is taken while its tile is inside the window: the tile was inside before,
or the record itself makes it enter. -/
def TakenInside (i : Nat) (r : Record) : Prop :=
  ∃ b h, ((Builder.new s).pushAll ((rs.take i).map .ok)).result = .ok b ∧
    b.trace.history? r.tile = some h ∧ (h.inRange = true ∨ s.start.Matches r.pc)

end

section
variable {s : Selection} {rs : List Record} {i : Nat} {r : Record}

/-! ## The last record that ends the window -/

theorem lastEnding_snoc {q : Record} :
    LastEnding s (rs ++ [r]) i q ↔
      (s.stop.Matches r.pc ∧ i = rs.length ∧ q = r) ∨ (¬ s.stop.Matches r.pc ∧ LastEnding s rs i q) := by
  constructor
  · intro h
    obtain ⟨hi, hq, hlater⟩ := h
    rcases getElem?_snoc.mp hi with hi | ⟨rfl, rfl⟩
    · -- An earlier record is the last one to end the window, so this one does not.
      have hr : ¬ s.stop.Matches r.pc := hlater rs.length r (lt_of_getElem? hi) (by simp)
      exact .inr ⟨hr, hi, hq, fun k p hk hp => hlater k p hk (getElem?_snoc.mpr (.inl hp))⟩
    · exact .inl ⟨hq, rfl, rfl⟩
  · intro h
    rcases h with ⟨hr, rfl, rfl⟩ | ⟨hr, hi, hq, hlater⟩
    · refine ⟨by simp, hr, ?_⟩
      intro k p hk hp
      have hlt := lt_of_getElem? hp
      simp only [List.length_append, List.length_singleton] at hlt
      omega
    · refine ⟨getElem?_snoc.mpr (.inl hi), hq, ?_⟩
      intro k p hk hp
      rcases getElem?_snoc.mp hp with hp | ⟨-, rfl⟩
      · exact hlater k p hk hp
      · exact hr

theorem LastEnding.unique {j : Nat} {q : Record} (hi : LastEnding s rs i r) (hj : LastEnding s rs j q) :
    i = j ∧ r = q := by
  rcases Nat.lt_trichotomy i j with hlt | rfl | hlt
  · exact absurd hj.2.1 (hi.2.2 j q hlt hj.1)
  · exact ⟨rfl, Option.some.inj (hi.1.symm.trans hj.1)⟩
  · exact absurd hi.2.1 (hj.2.2 i r hlt hi.1)

theorem stop_takeAll {c : Cycle} :
    (Window.takeAll s {} rs).stop = some c ↔ ∃ i r, LastEnding s rs i r ∧ r.cycle = c := by
  induction rs using List.reverseRecOn with
  | nil => simp [Window.takeAll, LastEnding]
  | append_singleton rs r ih =>
    simp only [Window.takeAll_snoc, Window.take, lastEnding_snoc]
    by_cases hr : s.stop.Matches r.pc
    · simp [hr]
    · simp [hr, ih]

/-! ## Records that are taken inside -/

/-- Whether a record is kept hangs on the records in front of it alone. -/
theorem retained_append {qs : List Record} (hi : i < rs.length) :
    Retained s (rs ++ qs) i r ↔ Retained s rs i r := by
  induction qs using List.reverseRecOn with
  | nil => rw [List.append_nil]
  | append_singleton qs q ih =>
    rw [← List.append_assoc, retained_snoc, ih]
    constructor
    · intro h
      rcases h with h | ⟨hlen, -, -⟩
      · exact h
      · simp only [List.length_append] at hlen
        omega
    · exact .inl

theorem retained_iff_inside (hi : rs[i]? = some r) :
    Retained s rs i r ↔ Inside s (rs.take i) r.tile ∨ s.start.Matches r.pc := by
  have hlt := lt_of_getElem? hi
  have hlength : (rs.take i).length = i := List.length_take_of_le (Nat.le_of_lt hlt)
  have htake : rs.take (i + 1) = rs.take i ++ [r] := by
    rw [List.take_add_one, hi]
    rfl
  -- Whether a record is kept depends on nothing behind it.
  have happend : Retained s rs i r ↔ Retained s (rs.take i ++ [r]) i r := by
    conv_lhs => rw [← List.take_append_drop (i + 1) rs, htake]
    exact retained_append (by simp [hlength])
  rw [happend, retained_snoc, hlength]
  constructor
  · intro h
    rcases h with h | ⟨-, -, h⟩
    · have hlt' := h.lt
      omega
    · exact h
  · intro h
    exact .inr ⟨rfl, rfl, h⟩

theorem takenInside_iff (hin : ∀ r ∈ rs, s.grid.Contains r.tile) (hi : rs[i]? = some r) :
    TakenInside s rs i r ↔ Inside s (rs.take i) r.tile ∨ s.start.Matches r.pc := by
  have hpush : ((Builder.new s).pushAll ((rs.take i).map .ok)).result =
      .ok ((Builder.new s).takeAll (rs.take i)) :=
    Builder.pushAll_new fun q hq => hin q (List.mem_of_mem_take hq)
  have hhistory := Builder.history?_takeAll (hin r (List.mem_of_getElem? hi)) (rs.take i)
  unfold TakenInside
  rw [hpush]
  constructor
  · intro h
    obtain ⟨b, g, hb, hg, htaken⟩ := h
    obtain rfl := Except.ok.inj hb
    obtain rfl := Option.some.inj (hhistory.symm.trans hg)
    exact htaken.imp (takeOwn_inRange s _ _).mp id
  · intro h
    exact ⟨_, _, rfl, hhistory, h.imp (takeOwn_inRange s _ _).mpr id⟩

/-- The end of the window is the cycle of the last record with the end marker. That record is kept exactly
if it is taken while its tile is inside the window, so that the end is that of a tile which leaves the window
only if this is so. -/
theorem stop_of_lastEnding (hin : ∀ r ∈ rs, s.grid.Contains r.tile) :
    ∃ b, ((Builder.new s).pushAll (rs.map .ok)).result = .ok b ∧
      (∀ c, b.trace.window.stop = some c ↔ ∃ i r, LastEnding s rs i r ∧ r.cycle = c) ∧
      (∀ i r, LastEnding s rs i r → (Retained s rs i r ↔ TakenInside s rs i r)) ∧
      ((∀ c, b.trace.window.stop = some c → ∃ i r, LastEnding s rs i r ∧ r.cycle = c ∧ Retained s rs i r) ↔
        ∀ i r, LastEnding s rs i r → TakenInside s rs i r) := by
  have hstop : ∀ c, ((Builder.new s).takeAll rs).trace.window.stop = some c ↔
      ∃ i r, LastEnding s rs i r ∧ r.cycle = c := fun c => stop_takeAll
  have hretained : ∀ i r, LastEnding s rs i r → (Retained s rs i r ↔ TakenInside s rs i r) := by
    intro i r h
    rw [retained_iff_inside h.1, takenInside_iff hin h.1]
  refine ⟨_, Builder.pushAll_new hin, hstop, hretained, ?_⟩
  constructor
  · intro hkept i r h
    obtain ⟨j, q, hj, -, hq⟩ := hkept r.cycle ((hstop r.cycle).mpr ⟨i, r, h, rfl⟩)
    obtain ⟨rfl, rfl⟩ := h.unique hj
    exact (hretained i r h).mp hq
  · intro htaken c hc
    obtain ⟨i, r, h, hcycle⟩ := (hstop c).mp hc
    exact ⟨i, r, h, hcycle, (hretained i r h).mpr (htaken i r h)⟩

/-- A tile that was never inside meets the end marker, and then one that leaves the window does. -/
theorem stop_of_lastEnding_inside :
    let s : Selection := ⟨.pc ⟨0x1000⟩, .pc ⟨0x1008⟩, .reduced⟩
    let rs : List Record := [⟨⟨0, 0⟩, 5, ⟨0x1000⟩, "add"⟩, ⟨⟨1, 3⟩, 6, ⟨0x1008⟩, "jalr"⟩,
      ⟨⟨0, 0⟩, 7, ⟨0x1008⟩, "jalr"⟩, ⟨⟨1, 3⟩, 8, ⟨0x1000⟩, "add"⟩]
    (∀ r ∈ rs, s.grid.Contains r.tile) ∧
      ∃ b, ((Builder.new s).pushAll (rs.map .ok)).result = .ok b ∧ b.trace.window.stop = some 7 ∧
        ∃ i r, LastEnding s rs i r ∧ r.cycle = 7 ∧ Retained s rs i r := by
  intro s rs
  have hin : ∀ r ∈ rs, s.grid.Contains r.tile := by decide
  let r : Record := ⟨⟨0, 0⟩, 7, ⟨0x1008⟩, "jalr"⟩
  have hlast : LastEnding s rs 2 r := by
    refine ⟨rfl, by decide, ?_⟩
    intro k q hk hq
    obtain rfl : k = 3 := by
      have hlt : k < 4 := lt_of_getElem? hq
      omega
    obtain rfl := Option.some.inj hq
    decide
  have htaken : TakenInside s rs 2 r := ⟨_, _, rfl, rfl, by decide⟩
  obtain ⟨b, hb, hstop, hretained, -⟩ := stop_of_lastEnding hin
  exact ⟨hin, b, hb, (hstop 7).mpr ⟨2, r, hlast, rfl⟩, 2, r, hlast, rfl, (hretained 2 r hlast).mpr htaken⟩

/-- One tile is inside from cycle 5 to cycle 7, but the window ends at cycle 9, where another tile meets the
end marker without having been inside. -/
theorem stop_of_tile_outside :
    let s : Selection := ⟨.pc ⟨0x1000⟩, .pc ⟨0x1008⟩, .reduced⟩
    let rs : List Record := [⟨⟨0, 0⟩, 5, ⟨0x1000⟩, "add"⟩, ⟨⟨0, 0⟩, 7, ⟨0x1008⟩, "jalr"⟩,
      ⟨⟨1, 0⟩, 9, ⟨0x1008⟩, "jalr"⟩]
    (∀ r ∈ rs, s.grid.Contains r.tile) ∧
      ∃ b, ((Builder.new s).pushAll (rs.map .ok)).result = .ok b ∧ b.trace.window.stop = some 9 ∧
        ¬ ∃ i r, LastEnding s rs i r ∧ r.cycle = 9 ∧ Retained s rs i r := by
  intro s rs
  have hin : ∀ r ∈ rs, s.grid.Contains r.tile := by decide
  have hlast : LastEnding s rs 2 ⟨⟨1, 0⟩, 9, ⟨0x1008⟩, "jalr"⟩ := by
    refine ⟨rfl, by decide, ?_⟩
    intro k q hk hq
    have hlt : k < 3 := lt_of_getElem? hq
    omega
  refine ⟨hin, _, Builder.pushAll_new hin, rfl, ?_⟩
  intro hkept
  obtain ⟨i, r, h, -, hr⟩ := hkept
  obtain ⟨rfl, rfl⟩ := hlast.unique h
  rcases (retained_iff_inside h.1).mp hr with hinside | hstart
  · have houtside : (History.takeOwn s ⟨1, 0⟩ {} (rs.take 2)).inRange = false := rfl
    rw [(takeOwn_inRange s ⟨1, 0⟩ (rs.take 2)).mpr hinside] at houtside
    cases houtside
  · exact absurd hstart (by decide)

end

end TileTrace.Trace
