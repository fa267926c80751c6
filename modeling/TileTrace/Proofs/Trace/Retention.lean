import Mathlib.Data.List.Induction
import TileTrace.Proofs.Trace.Run

/-!
# What a trace keeps

A record is kept if its tile met the start marker at it or before it, and has not met the end marker
since. `IsReference` says what a trace is in these terms, by positions in the list of records and without
any running state. Building gives the one trace of which it holds.
-/

namespace TileTrace.Trace

section
variable (s : Selection) (rs : List Record)

/-- From position `i` on and before position `j` the tile does not leave the window. -/
def Unclosed (t : Tile) (i j : Nat) : Prop :=
  ∀ k r, i ≤ k → k < j → rs[k]? = some r → r.tile = t → ¬ s.Closes r.pc

/-- The tile is inside the window behind all records. -/
def Inside (t : Tile) : Prop :=
  ∃ j o, rs[j]? = some o ∧ o.tile = t ∧ s.start.Matches o.pc ∧ Unclosed s rs t j rs.length

/-- The record at position `i` is `r`, and it is kept. -/
def Retained (i : Nat) (r : Record) : Prop :=
  rs[i]? = some r ∧ ∃ j o, j ≤ i ∧ rs[j]? = some o ∧ o.tile = r.tile ∧ s.start.Matches o.pc ∧
    Unclosed s rs r.tile j i

/-- The last record of the tile and the cycle that is kept. -/
def LastRetained (t : Tile) (c : Cycle) (r : Record) : Prop :=
  ∃ i, Retained s rs i r ∧ r.tile = t ∧ r.cycle = c ∧
    ∀ k q, i < k → Retained s rs k q → q.tile = t → q.cycle ≠ c

/-- The trace of the records, told without running through them. -/
structure IsReference (t : Trace) : Prop where
  grid : t.grid = s.grid
  tiles : t.tiles.length = s.grid.numTiles
  events : ∀ i h, t.tiles[i]? = some h → ∀ c e,
    h.events.get? c = some e ↔ ∃ r, LastRetained s rs (s.grid.tile i) c r ∧ r.event = e
  inRange : ∀ i h, t.tiles[i]? = some h → (h.inRange = true ↔ Inside s rs (s.grid.tile i))
  start : t.window.start = (rs.find? fun r => s.start.Matches r.pc).map (·.cycle)
  stop : t.window.stop = (rs.reverse.find? fun r => s.stop.Matches r.pc).map (·.cycle)

end

/-! ## One more record -/

section
variable {s : Selection} {rs : List Record} {r : Record}

theorem unclosed_snoc {t : Tile} {i j : Nat} (hj : j ≤ rs.length) :
    Unclosed s (rs ++ [r]) t i j ↔ Unclosed s rs t i j := by
  have hget : ∀ k, k < j → (rs ++ [r])[k]? = rs[k]? := fun k hk =>
    List.getElem?_append_left (by omega)
  constructor
  · intro h k q hik hkj hq
    exact h k q hik hkj ((hget k hkj).trans hq)
  · intro h k q hik hkj hq
    exact h k q hik hkj ((hget k hkj).symm.trans hq)

theorem unclosed_snoc_length {t : Tile} {i : Nat} (hi : i ≤ rs.length) :
    Unclosed s (rs ++ [r]) t i (rs ++ [r]).length ↔
      Unclosed s rs t i rs.length ∧ (r.tile = t → ¬ s.Closes r.pc) := by
  constructor
  · intro h
    refine ⟨(unclosed_snoc (Nat.le_refl _)).mp fun k q hik hk => h k q hik ?_, ?_⟩
    · rw [List.length_append]; omega
    · exact h rs.length r hi (by simp) (by simp)
  · rintro ⟨h, hr⟩ k q hik hk hq
    rcases Nat.lt_or_ge k rs.length with hlt | hge
    · exact h k q hik hlt (by rwa [List.getElem?_append_left hlt] at hq)
    · have hk' : k = rs.length := by simp only [List.length_append, List.length_singleton] at hk; omega
      subst hk'
      simp only [List.getElem?_concat_length, Option.some.injEq] at hq
      exact hq ▸ hr

theorem getElem?_snoc {i : Nat} {q : Record} :
    (rs ++ [r])[i]? = some q ↔ rs[i]? = some q ∨ (i = rs.length ∧ q = r) := by
  rcases Nat.lt_trichotomy i rs.length with h | rfl | h
  · rw [List.getElem?_append_left h]
    exact ⟨.inl, fun h' => h'.resolve_right fun h' => absurd h'.1 (Nat.ne_of_lt h)⟩
  · simp [eq_comm]
  · have hsnoc : (rs ++ [r])[i]? = none := by simp; omega
    have hinit : rs[i]? = none := by simp; omega
    simp [hsnoc, hinit, Nat.ne_of_gt h]

theorem lt_of_getElem? {i : Nat} {q : Record} (h : rs[i]? = some q) : i < rs.length :=
  (List.getElem?_eq_some_iff.mp h).1

theorem inside_snoc {t : Tile} :
    Inside s (rs ++ [r]) t ↔
      (Inside s rs t ∨ r.tile = t ∧ s.start.Matches r.pc) ∧ (r.tile = t → ¬ s.Closes r.pc) := by
  constructor
  · rintro ⟨j, o, hj, ht, hm, hu⟩
    rcases getElem?_snoc.mp hj with hj | ⟨rfl, rfl⟩
    · obtain ⟨hu, hr⟩ := (unclosed_snoc_length (Nat.le_of_lt (lt_of_getElem? hj))).mp hu
      exact ⟨.inl ⟨j, o, hj, ht, hm, hu⟩, hr⟩
    · exact ⟨.inr ⟨ht, hm⟩, ((unclosed_snoc_length (Nat.le_refl _)).mp hu).2⟩
  · rintro ⟨⟨j, o, hj, ht, hm, hu⟩ | ⟨ht, hm⟩, hr⟩
    · exact ⟨j, o, getElem?_snoc.mpr (.inl hj), ht, hm,
        (unclosed_snoc_length (Nat.le_of_lt (lt_of_getElem? hj))).mpr ⟨hu, hr⟩⟩
    · refine ⟨rs.length, r, by simp, ht, hm, (unclosed_snoc_length (Nat.le_refl _)).mpr ⟨?_, hr⟩⟩
      intro k q hk hk'; omega

theorem retained_snoc {i : Nat} {q : Record} :
    Retained s (rs ++ [r]) i q ↔
      Retained s rs i q ∨
        i = rs.length ∧ q = r ∧ (Inside s rs r.tile ∨ s.start.Matches r.pc) := by
  constructor
  · rintro ⟨hi, j, o, hji, hj, ht, hm, hu⟩
    rcases getElem?_snoc.mp hi with hi | ⟨rfl, rfl⟩
    · have hlt := lt_of_getElem? hi
      have hj' : rs[j]? = some o := by rwa [List.getElem?_append_left (by omega)] at hj
      exact .inl ⟨hi, j, o, hji, hj', ht, hm, (unclosed_snoc (Nat.le_of_lt hlt)).mp hu⟩
    · refine .inr ⟨rfl, rfl, ?_⟩
      rcases getElem?_snoc.mp hj with hj | ⟨rfl, rfl⟩
      · exact .inl ⟨j, o, hj, ht, hm, (unclosed_snoc (Nat.le_refl _)).mp hu⟩
      · exact .inr hm
  · rintro (⟨hi, j, o, hji, hj, ht, hm, hu⟩ | ⟨rfl, rfl, hin⟩)
    · exact ⟨getElem?_snoc.mpr (.inl hi), j, o, hji, getElem?_snoc.mpr (.inl hj), ht, hm,
        (unclosed_snoc (Nat.le_of_lt (lt_of_getElem? hi))).mpr hu⟩
    · refine ⟨by simp, ?_⟩
      rcases hin with ⟨j, o, hj, ht, hm, hu⟩ | hm
      · exact ⟨j, o, (Nat.le_of_lt (lt_of_getElem? hj)), getElem?_snoc.mpr (.inl hj), ht, hm,
          (unclosed_snoc (Nat.le_refl _)).mpr hu⟩
      · exact ⟨rs.length, q, Nat.le_refl _, by simp, rfl, hm, fun k _ hk hk' => by omega⟩

theorem Retained.lt {i : Nat} {q : Record} (h : Retained s rs i q) : i < rs.length :=
  lt_of_getElem? h.1

theorem lastRetained_snoc_self {q : Record} (hin : Inside s rs r.tile ∨ s.start.Matches r.pc) :
    LastRetained s (rs ++ [r]) r.tile r.cycle q ↔ q = r := by
  have hr : Retained s (rs ++ [r]) rs.length r := retained_snoc.mpr (.inr ⟨rfl, rfl, hin⟩)
  constructor
  · rintro ⟨i, hi, ht, hc, hlast⟩
    rcases retained_snoc.mp hi with hi | ⟨-, rfl, -⟩
    · exact absurd rfl (hlast rs.length r hi.lt hr rfl)
    · rfl
  · rintro rfl
    refine ⟨rs.length, hr, rfl, rfl, fun k p hk hp => ?_⟩
    have := hp.lt
    simp only [List.length_append, List.length_singleton] at this
    omega

theorem lastRetained_snoc_of_ne {t : Tile} {c : Cycle} {q : Record}
    (hne : ¬ (r.tile = t ∧ r.cycle = c ∧ (Inside s rs r.tile ∨ s.start.Matches r.pc))) :
    LastRetained s (rs ++ [r]) t c q ↔ LastRetained s rs t c q := by
  constructor
  · rintro ⟨i, hi, ht, hc, hlast⟩
    rcases retained_snoc.mp hi with hi | ⟨-, rfl, hin⟩
    · exact ⟨i, hi, ht, hc, fun k p hk hp => hlast k p hk (retained_snoc.mpr (.inl hp))⟩
    · exact absurd ⟨ht, hc, hin⟩ hne
  · rintro ⟨i, hi, ht, hc, hlast⟩
    refine ⟨i, retained_snoc.mpr (.inl hi), ht, hc, fun k p hk hp hpt hpc => ?_⟩
    rcases retained_snoc.mp hp with hp | ⟨-, rfl, hin⟩
    · exact hlast k p hk hp hpt hpc
    · exact hne ⟨hpt, hpc, hin⟩

end

/-! ## The running state -/

theorem takeOwn_inRange (s : Selection) (t : Tile) (rs : List Record) :
    (History.takeOwn s t {} rs).inRange = true ↔ Inside s rs t := by
  induction rs using List.reverseRecOn with
  | nil => simp [History.takeOwn, Inside]
  | append_singleton rs r ih =>
    rw [History.takeOwn_snoc, inside_snoc]
    by_cases hr : r.tile = t
    · simp [hr, History.take, ih]
    · simp [hr, ih]

theorem takeOwn_events (s : Selection) (t : Tile) (rs : List Record) (c : Cycle) (e : Event) :
    (History.takeOwn s t {} rs).events.get? c = some e ↔
      ∃ r, LastRetained s rs t c r ∧ r.event = e := by
  induction rs using List.reverseRecOn with
  | nil =>
    constructor
    · intro h; cases h
    · rintro ⟨r, ⟨i, hi, -⟩, -⟩
      exact absurd hi.lt (Nat.not_lt_zero i)
  | append_singleton rs r ih =>
    rw [History.takeOwn_snoc]
    by_cases hr : r.tile = t
    · subst hr
      have hentered : ((History.takeOwn s r.tile {} rs).inRange || decide (s.start.Matches r.pc)) = true ↔
          Inside s rs r.tile ∨ s.start.Matches r.pc := by
        simp [takeOwn_inRange]
      rw [if_pos rfl]
      -- The record is kept if the tile is inside, or if it enters by this record.
      by_cases hin : Inside s rs r.tile ∨ s.start.Matches r.pc
      · simp only [History.take, hentered.mpr hin, if_true, OrderedMap.get?_insert]
        by_cases hc : r.cycle = c
        · subst hc
          simp [lastRetained_snoc_self hin]
        · rw [if_neg fun h => hc (Ranked.rank_inj h).symm]
          simp only [ih, lastRetained_snoc_of_ne fun h => hc h.2.1]
      · have hout := Bool.eq_false_iff.mpr fun h => hin (hentered.mp h)
        simp only [History.take, hout, Bool.false_eq_true, if_false, ih,
          lastRetained_snoc_of_ne fun h => hin h.2.2]
    · rw [if_neg hr]
      simp only [ih, lastRetained_snoc_of_ne fun h => hr h.1]

theorem takeAll_window (s : Selection) (rs : List Record) :
    (Window.takeAll s {} rs).start = (rs.find? fun r => s.start.Matches r.pc).map (·.cycle) ∧
      (Window.takeAll s {} rs).stop = (rs.reverse.find? fun r => s.stop.Matches r.pc).map (·.cycle) := by
  induction rs using List.reverseRecOn with
  | nil => exact ⟨rfl, rfl⟩
  | append_singleton rs r ih =>
    obtain ⟨ihstart, ihstop⟩ := ih
    rw [Window.takeAll_snoc]
    constructor
    · simp only [Window.take, ihstart, List.find?_append]
      by_cases hm : s.start.Matches r.pc <;>
        cases rs.find? (fun r => s.start.Matches r.pc) <;> simp [hm]
    · simp only [Window.take, ihstop, List.reverse_append, List.reverse_singleton, List.singleton_append]
      by_cases hm : s.stop.Matches r.pc <;> simp [hm]

/-! ## The trace -/

section
variable {s : Selection} {rs : List Record}

theorem isReference_built :
    IsReference s rs
      { grid := s.grid
        window := Window.takeAll s {} rs
        tiles := s.grid.tiles.map fun t => History.takeOwn s t {} rs } := by
  have htile : ∀ i h, (s.grid.tiles.map fun t => History.takeOwn s t {} rs)[i]? = some h →
      h = History.takeOwn s (s.grid.tile i) {} rs := by
    intro i h hi
    by_cases hlt : i < s.grid.numTiles
    · simpa [Grid.tiles, hlt, eq_comm] using hi
    · simp [Grid.tiles, hlt] at hi
  constructor
  · rfl
  · simp [Grid.tiles]
  · intro i h hi c e; rw [htile i h hi]; exact takeOwn_events s _ rs c e
  · intro i h hi; rw [htile i h hi]; exact takeOwn_inRange s _ rs
  · exact (takeAll_window s rs).1
  · exact (takeAll_window s rs).2

theorem IsReference.unique {t u : Trace} (ht : IsReference s rs t) (hu : IsReference s rs u) : t = u := by
  have hwindow : t.window = u.window :=
    Window.eq_of_bounds (ht.start.trans hu.start.symm) (ht.stop.trans hu.stop.symm)
  have htiles : t.tiles = u.tiles := by
    refine List.ext_getElem (ht.tiles.trans hu.tiles.symm) fun i h1 h2 => ?_
    have hget : t.tiles[i]? = some t.tiles[i] := List.getElem?_eq_getElem h1
    have hget' : u.tiles[i]? = some u.tiles[i] := List.getElem?_eq_getElem h2
    have hevents : t.tiles[i].events = u.tiles[i].events := OrderedMap.ext_get? fun c => by
      refine Option.ext fun e => ?_
      rw [ht.events i _ hget c e, hu.events i _ hget' c e]
    have hin : t.tiles[i].inRange = u.tiles[i].inRange := by
      rw [Bool.eq_iff_iff, ht.inRange i _ hget, hu.inRange i _ hget']
    cases hx : t.tiles[i]; cases hy : u.tiles[i]
    simp_all
  have hgrid := ht.grid.trans hu.grid.symm
  cases t; cases u
  simp_all

/-- Building from records inside the grid succeeds, and gives the one trace that they keep. -/
theorem build_eq_reference (hin : ∀ r ∈ rs, s.grid.Contains r.tile) :
    ∃ t, (build s (rs.map .ok)).result = .ok t ∧ ∀ u, IsReference s rs u ↔ u = t :=
  ⟨_, build_inside s hin, fun _ => ⟨fun hu => hu.unique isReference_built, fun h => h ▸ isReference_built⟩⟩

/-- A tile that leaves the window and enters it again, and another that leaves it without having been
inside. -/
theorem build_eq_reference_reentry :
    let s : Selection := ⟨.pc ⟨0x1000⟩, .pc ⟨0x1008⟩, .reduced⟩
    let rs : List Record := [⟨⟨0, 0⟩, 1, ⟨0x1000⟩, "add"⟩, ⟨⟨1, 3⟩, 1, ⟨0x1008⟩, "jalr"⟩,
      ⟨⟨0, 0⟩, 2, ⟨0x1008⟩, "jalr"⟩, ⟨⟨0, 0⟩, 3, ⟨0x1004⟩, "addi"⟩, ⟨⟨0, 0⟩, 4, ⟨0x1000⟩, "add"⟩]
    let t : Trace := ⟨.reduced, ⟨some 1, some 2⟩, ⟨true, .ofList [(1, ⟨⟨0x1000⟩, "add"⟩),
      (2, ⟨⟨0x1008⟩, "jalr"⟩), (4, ⟨⟨0x1000⟩, "add"⟩)]⟩ :: List.replicate 15 {}⟩
    (∀ r ∈ rs, s.grid.Contains r.tile) ∧ (build s (rs.map .ok)).result = .ok t ∧ IsReference s rs t ∧
      ∀ u, IsReference s rs u → u = t := by
  intro s rs t
  have hin : ∀ r ∈ rs, s.grid.Contains r.tile := by decide
  have hbuilt : (build s (rs.map .ok)).result = .ok t := by decide +kernel
  obtain ⟨u, hu, hreference⟩ := build_eq_reference hin
  obtain rfl := Except.ok.inj (hbuilt.symm.trans hu)
  exact ⟨hin, hbuilt, (hreference t).mpr rfl, fun u hu => (hreference u).mp hu⟩

end

end TileTrace.Trace
