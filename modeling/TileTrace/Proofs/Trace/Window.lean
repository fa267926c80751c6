import TileTrace.Trace.Basic

/-!
# The cycles of a window

A window shows the cycles from its first bound to its last, in order and each once, up to the last
cycle that a word can hold. It shows none where a bound was not met or the bounds are the wrong way round.
-/

namespace TileTrace.Window

variable {w : Window} {a b c : Cycle}

theorem cycles_of_bounds (h : w.bounds? = some (a, b)) :
    w.cycles = (List.range (b.toNat - a.toNat + 1)).map fun i => UInt64.ofNat (a.toNat + i) := by
  unfold cycles
  rw [h]

theorem cycles_of_none (h : w.bounds? = none) : w.cycles = [] := by
  unfold cycles
  rw [h]

/-- Counting on from the first bound does not leave the words. -/
theorem toNat_cycle (h : w.bounds? = some (a, b)) {i : Nat} (hi : i < b.toNat - a.toNat + 1) :
    (UInt64.ofNat (a.toNat + i)).toNat = a.toNat + i := by
  have hab : a.toNat ≤ b.toNat := bounds?_ordered h
  have hb : b.toNat < UInt64.size := b.toNat_lt_size
  exact UInt64.toNat_ofNat_of_lt' (by omega)

theorem mem_cycles_of_bounds (h : w.bounds? = some (a, b)) : c ∈ w.cycles ↔ a ≤ c ∧ c ≤ b := by
  rw [cycles_of_bounds h]
  simp only [List.mem_map, List.mem_range, UInt64.le_iff_toNat_le]
  constructor
  · rintro ⟨i, hi, rfl⟩
    rw [toNat_cycle h hi]
    have hab : a.toNat ≤ b.toNat := bounds?_ordered h
    omega
  · rintro ⟨hac, hcb⟩
    have hi : c.toNat - a.toNat < b.toNat - a.toNat + 1 := by omega
    refine ⟨c.toNat - a.toNat, hi, ?_⟩
    apply UInt64.toNat_inj.mp
    rw [toNat_cycle h hi]
    omega

theorem mem_cycles : c ∈ w.cycles ↔ w.Shows c := by
  unfold Shows
  cases hb : w.bounds? with
  | none =>
    rw [cycles_of_none hb]
    constructor
    · intro h
      cases h
    · rintro ⟨a, b, ha, hb', hac, hcb⟩
      rw [bounds?_eq_some.mpr ⟨ha, hb', UInt64.le_trans hac hcb⟩] at hb
      cases hb
  | some p =>
    obtain ⟨a, b⟩ := p
    obtain ⟨ha, hb', -⟩ := bounds?_eq_some.mp hb
    rw [mem_cycles_of_bounds hb]
    simp [ha, hb']

theorem length_cycles : w.cycles.length =
    match w.start, w.stop with
    | some a, some b => if a ≤ b then b.toNat - a.toNat + 1 else 0
    | _, _ => 0 := by
  cases hb : w.bounds? with
  | none =>
    rw [cycles_of_none hb]
    unfold bounds? at hb
    cases hs : w.start with
    | none => rfl
    | some a =>
      cases he : w.stop with
      | none => rfl
      | some b =>
        have hab : ¬ a ≤ b := by simpa [hs, he] using hb
        simp [hab]
  | some p =>
    obtain ⟨a, b⟩ := p
    obtain ⟨ha, hb', hab⟩ := bounds?_eq_some.mp hb
    rw [cycles_of_bounds hb]
    simp [ha, hb', hab]

theorem cycles_increase (w : Window) : w.cycles.Pairwise (· < ·) := by
  cases hb : w.bounds? with
  | none =>
    rw [cycles_of_none hb]
    exact .nil
  | some p =>
    obtain ⟨a, b⟩ := p
    rw [cycles_of_bounds hb, List.pairwise_map]
    apply List.Pairwise.imp_of_mem _ List.pairwise_lt_range
    intro i j hi hj hij
    rw [UInt64.lt_iff_toNat_lt, toNat_cycle hb (List.mem_range.mp hi), toNat_cycle hb (List.mem_range.mp hj)]
    omega

end TileTrace.Window
