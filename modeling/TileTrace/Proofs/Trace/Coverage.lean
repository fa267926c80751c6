import TileTrace.Proofs.Trace.Retention
import TileTrace.Proofs.Trace.Window

/-!
# What the window covers

If the cycles of the records never decrease, the window begins with the first event that is kept. It ends
behind every event of a tile that has left it, and behind every event at all if every record ends it.
-/

namespace TileTrace.Trace

/-- How the window of a trace lies to the events that the trace keeps. -/
structure WindowCovers (s : Selection) (t : Trace) : Prop where
  start_le : ∀ i c e, t.Keeps i c e → ∃ a, t.window.start = some a ∧ a ≤ c
  le_stop : ∀ i c e, t.Keeps i c e →
    (∃ b, t.window.stop = some b ∧ c ≤ b) ∨
      (∃ p, s.stop = .pc p) ∧ ∃ h, t.tiles[i]? = some h ∧ h.inRange = true
  start_iff : (∃ a, t.window.start = some a) ↔ ∃ i c e, t.Keeps i c e
  start_least : ∀ a, t.window.start = some a →
    (∃ i e, t.Keeps i a e) ∧ ∀ i c e, t.Keeps i c e → a ≤ c
  shown : s.stop = .any ∨ (∀ h ∈ t.tiles, h.inRange = false) →
    ∀ i c e, t.Keeps i c e → c ∈ t.window.cycles

section
variable {s : Selection} {rs : List Record} {t : Trace}

/-! ## First and last records -/

theorem cycle_le (hord : rs.Pairwise fun a b => a.cycle ≤ b.cycle) {i j : Nat} {a b : Record}
    (ha : rs[i]? = some a) (hb : rs[j]? = some b) (hij : i ≤ j) : a.cycle ≤ b.cycle := by
  obtain ⟨hi, rfl⟩ := List.getElem?_eq_some_iff.mp ha
  obtain ⟨hj, rfl⟩ := List.getElem?_eq_some_iff.mp hb
  rcases Nat.lt_or_eq_of_le hij with h | rfl
  · exact List.pairwise_iff_getElem.mp hord i j hi hj h
  · exact UInt64.le_refl _

theorem exists_find? {p : Record → Bool} {j : Nat} {o : Record} (hj : rs[j]? = some o) (hp : p o = true) :
    ∃ k q, rs.find? p = some q ∧ rs[k]? = some q ∧ p q = true ∧ k ≤ j := by
  have hsome : (rs.find? p).isSome := List.find?_isSome.mpr ⟨o, List.mem_of_getElem? hj, hp⟩
  obtain ⟨q, hq⟩ := Option.isSome_iff_exists.mp hsome
  obtain ⟨hpq, k, hk, rfl, hfirst⟩ := List.find?_eq_some_iff_getElem.mp hq
  refine ⟨k, rs[k], hq, List.getElem?_eq_getElem hk, hpq, ?_⟩
  apply Nat.le_of_not_lt
  intro hjk
  obtain ⟨hlt, rfl⟩ := List.getElem?_eq_some_iff.mp hj
  simpa [hp] using hfirst j hjk

theorem exists_find?_reverse {p : Record → Bool} {j : Nat} {o : Record} (hj : rs[j]? = some o)
    (hp : p o = true) : ∃ k q, rs.reverse.find? p = some q ∧ rs[k]? = some q ∧ p q = true ∧ j ≤ k := by
  have hlt := lt_of_getElem? hj
  have hj' : rs.reverse[rs.length - 1 - j]? = some o := by
    rw [List.getElem?_reverse (by omega), ← hj]
    congr 1
    omega
  obtain ⟨k, q, hq, hk, hpq, hkj⟩ := exists_find? hj' hp
  refine ⟨rs.length - 1 - k, q, hq, ?_, hpq, by omega⟩
  rw [← hk, List.getElem?_reverse (by omega)]

/-! ## Records that are kept -/

theorem exists_lastRetained {i : Nat} {r : Record} (h : Retained s rs i r) :
    ∃ q, LastRetained s rs r.tile r.cycle q := by
  -- the distance to the end of the records decreases with every later one that is kept in its place
  induction hn : rs.length - i using Nat.strongRecOn generalizing i r with
  | ind n ih =>
    by_cases hlater : ∃ k q, i < k ∧ Retained s rs k q ∧ q.tile = r.tile ∧ q.cycle = r.cycle
    · obtain ⟨k, q, hik, hq, htile, hcycle⟩ := hlater
      have hk := hq.lt
      rw [← htile, ← hcycle]
      exact ih (rs.length - k) (by omega) hq rfl
    · refine ⟨r, i, h, rfl, rfl, ?_⟩
      intro k q hik hq htile hcycle
      exact hlater ⟨k, q, hik, hq, htile, hcycle⟩

theorem keeps_iff (ht : IsReference s rs t) {i : Nat} {c : Cycle} {e : Event} :
    t.Keeps i c e ↔ i < s.grid.numTiles ∧ ∃ r, LastRetained s rs (s.grid.tile i) c r ∧ r.event = e := by
  constructor
  · rintro ⟨h, hi, he⟩
    refine ⟨?_, (ht.events i h hi c e).mp he⟩
    rw [← ht.tiles]
    exact (List.getElem?_eq_some_iff.mp hi).1
  · rintro ⟨hi, hr⟩
    rw [← ht.tiles] at hi
    have hget := List.getElem?_eq_getElem hi
    exact ⟨t.tiles[i], hget, (ht.events i _ hget c e).mpr hr⟩

theorem start_le (ht : IsReference s rs t) (hord : rs.Pairwise fun a b => a.cycle ≤ b.cycle) {i : Nat}
    {r : Record} (h : Retained s rs i r) : ∃ a, t.window.start = some a ∧ a ≤ r.cycle := by
  obtain ⟨hi, j, o, hji, hj, -, hm, -⟩ := h
  obtain ⟨k, q, hq, hk, -, hkj⟩ := exists_find? hj (p := fun r => s.start.Matches r.pc) (by simpa using hm)
  refine ⟨q.cycle, ?_, cycle_le hord hk hi (Nat.le_trans hkj hji)⟩
  rw [ht.start, hq]
  rfl

/-- The record that opens the window is kept. -/
theorem exists_retained_of_start (ht : IsReference s rs t) {a : Cycle} (ha : t.window.start = some a) :
    ∃ i r, Retained s rs i r ∧ r.cycle = a := by
  rw [ht.start] at ha
  obtain ⟨r, hr, rfl⟩ := Option.map_eq_some_iff.mp ha
  obtain ⟨i, hi⟩ := List.getElem?_of_mem (List.mem_of_find?_eq_some hr)
  have hm : s.start.Matches r.pc := by simpa using List.find?_some hr
  refine ⟨i, r, ⟨hi, i, r, Nat.le_refl i, hi, rfl, hm, ?_⟩, rfl⟩
  intro k q hik hki
  omega

theorem le_stop_of_matches (ht : IsReference s rs t) (hord : rs.Pairwise fun a b => a.cycle ≤ b.cycle)
    {i j : Nat} {r o : Record} (hi : rs[i]? = some r) (hj : rs[j]? = some o) (hij : i ≤ j)
    (hm : s.stop.Matches o.pc) : ∃ b, t.window.stop = some b ∧ r.cycle ≤ b := by
  obtain ⟨k, q, hq, hk, -, hjk⟩ :=
    exists_find?_reverse hj (p := fun r => s.stop.Matches r.pc) (by simpa using hm)
  refine ⟨q.cycle, ?_, cycle_le hord hi hk (Nat.le_trans hij hjk)⟩
  rw [ht.stop, hq]
  rfl

/-- A tile that is not inside the window at the end has left it at or behind each record that it keeps. -/
theorem exists_closes {i : Nat} {r : Record} (h : Retained s rs i r) (hout : ¬ Inside s rs r.tile) :
    ∃ k q, i ≤ k ∧ rs[k]? = some q ∧ s.Closes q.pc := by
  obtain ⟨hi, j, o, hji, hj, ht, hm, hu⟩ := h
  have hclosed : ¬ Unclosed s rs r.tile j rs.length := fun hu => hout ⟨j, o, hj, ht, hm, hu⟩
  simp only [Unclosed, not_forall, not_not] at hclosed
  obtain ⟨k, q, hjk, -, hk, hq, hc⟩ := hclosed
  refine ⟨k, q, ?_, hk, hc⟩
  apply Nat.le_of_not_lt
  intro hki
  exact hu k q hjk hki hk hq hc

theorem le_stop_or_inside (ht : IsReference s rs t) (hord : rs.Pairwise fun a b => a.cycle ≤ b.cycle)
    {i : Nat} {r : Record} (h : Retained s rs i r) :
    (∃ b, t.window.stop = some b ∧ r.cycle ≤ b) ∨ (∃ p, s.stop = .pc p) ∧ Inside s rs r.tile := by
  cases hs : s.stop with
  | any =>
    have hm : s.stop.Matches r.pc := by
      rw [hs]
      trivial
    exact .inl (le_stop_of_matches ht hord h.1 h.1 (Nat.le_refl i) hm)
  | pc p =>
    by_cases hin : Inside s rs r.tile
    · exact .inr ⟨⟨p, rfl⟩, hin⟩
    · obtain ⟨k, q, hik, hk, hc⟩ := exists_closes h hin
      have hm : s.stop.Matches q.pc := by
        rw [show s.stop = .pc q.pc from hc]
        rfl
      exact .inl (le_stop_of_matches ht hord h.1 hk hik hm)

/-! ## Events that are kept -/

theorem keeps_start (ht : IsReference s rs t) (hin : ∀ r ∈ rs, s.grid.Contains r.tile) {a : Cycle}
    (ha : t.window.start = some a) : ∃ i e, t.Keeps i a e := by
  obtain ⟨k, r, hr, rfl⟩ := exists_retained_of_start ht ha
  obtain ⟨i, hi⟩ := (hin r (List.mem_of_getElem? hr.1)).index?
  obtain ⟨q, hq⟩ := exists_lastRetained hr
  refine ⟨i, q.event, (keeps_iff ht).mpr ⟨Grid.index?_lt hi, q, ?_, rfl⟩⟩
  rw [Grid.tile_index? hi]
  exact hq

theorem Keeps.start_le (ht : IsReference s rs t) (hord : rs.Pairwise fun a b => a.cycle ≤ b.cycle) {i : Nat}
    {c : Cycle} {e : Event} (h : t.Keeps i c e) : ∃ a, t.window.start = some a ∧ a ≤ c := by
  obtain ⟨-, r, ⟨k, hr, -, rfl, -⟩, -⟩ := (keeps_iff ht).mp h
  exact Trace.start_le ht hord hr

theorem Keeps.le_stop_or_inRange (ht : IsReference s rs t)
    (hord : rs.Pairwise fun a b => a.cycle ≤ b.cycle) {i : Nat} {c : Cycle} {e : Event}
    (h : t.Keeps i c e) :
    (∃ b, t.window.stop = some b ∧ c ≤ b) ∨
      (∃ p, s.stop = .pc p) ∧ ∃ h, t.tiles[i]? = some h ∧ h.inRange = true := by
  obtain ⟨-, r, ⟨k, hr, htile, rfl, -⟩, -⟩ := (keeps_iff ht).mp h
  rcases le_stop_or_inside ht hord hr with hstop | ⟨hp, hinside⟩
  · exact .inl hstop
  · obtain ⟨g, hi, -⟩ := h
    rw [htile] at hinside
    exact .inr ⟨hp, g, hi, (ht.inRange i g hi).mpr hinside⟩

theorem IsReference.windowCovers (ht : IsReference s rs t) (hin : ∀ r ∈ rs, s.grid.Contains r.tile)
    (hord : rs.Pairwise fun a b => a.cycle ≤ b.cycle) : WindowCovers s t where
  start_le i c e h := h.start_le ht hord
  le_stop i c e h := h.le_stop_or_inRange ht hord
  start_iff := by
    constructor
    · rintro ⟨a, ha⟩
      obtain ⟨i, e, h⟩ := keeps_start ht hin ha
      exact ⟨i, a, e, h⟩
    · rintro ⟨i, c, e, h⟩
      obtain ⟨a, ha, -⟩ := h.start_le ht hord
      exact ⟨a, ha⟩
  start_least a ha := by
    refine ⟨keeps_start ht hin ha, ?_⟩
    intro i c e h
    obtain ⟨b, hb, hbc⟩ := h.start_le ht hord
    obtain rfl := Option.some.inj (ha.symm.trans hb)
    exact hbc
  shown hclosed i c e h := by
    obtain ⟨a, ha, hac⟩ := h.start_le ht hord
    -- An event behind the end of the window is of a tile that is still inside.
    rcases h.le_stop_or_inRange ht hord with ⟨b, hb, hcb⟩ | ⟨⟨p, hp⟩, g, hi, hg⟩
    · exact Window.mem_cycles.mpr ⟨a, b, ha, hb, hac, hcb⟩
    · rcases hclosed with hany | hout
      · rw [hany] at hp
        cases hp
      · rw [hout g (List.mem_of_getElem? hi)] at hg
        cases hg

/-- The events that are kept are those of the last records at their tiles and cycles. None of them is in
front of the window, nor behind it by a tile that has left it. The window starts with the first of them. -/
theorem build_windowCovers (hin : ∀ r ∈ rs, s.grid.Contains r.tile)
    (hord : rs.Pairwise fun a b => a.cycle ≤ b.cycle) :
    ∃ t, (build s (rs.map .ok)).result = .ok t ∧
      (∀ i c e, t.Keeps i c e ↔
        i < s.grid.numTiles ∧ ∃ r, LastRetained s rs (s.grid.tile i) c r ∧ r.event = e) ∧
      WindowCovers s t :=
  ⟨_, build_inside s hin, fun _ _ _ => keeps_iff isReference_built, isReference_built.windowCovers hin hord⟩

/-- A tile that leaves the window and enters it again, and another that stays inside and keeps an event
behind the end of the window. -/
theorem build_windowCovers_reentry :
    let s : Selection := ⟨.pc ⟨0x1000⟩, .pc ⟨0x1008⟩, .reduced⟩
    let rs : List Record := [⟨⟨1, 3⟩, 1, ⟨0x1008⟩, "jalr"⟩, ⟨⟨0, 0⟩, 2, ⟨0x1000⟩, "add"⟩,
      ⟨⟨0, 0⟩, 2, ⟨0x1008⟩, "jalr"⟩, ⟨⟨0, 0⟩, 4, ⟨0x1000⟩, "add"⟩, ⟨⟨0, 0⟩, 5, ⟨0x1008⟩, "jalr"⟩,
      ⟨⟨1, 3⟩, 5, ⟨0x1000⟩, "add"⟩, ⟨⟨1, 3⟩, 9, ⟨0x1004⟩, "lw"⟩]
    let blank : History := {}
    let t : Trace := ⟨.reduced, ⟨some 2, some 5⟩,
      ⟨false, .ofList [(2, ⟨⟨0x1008⟩, "jalr"⟩), (4, ⟨⟨0x1000⟩, "add"⟩), (5, ⟨⟨0x1008⟩, "jalr"⟩)]⟩ ::
        (List.replicate 12 blank ++
          [⟨true, .ofList [(5, ⟨⟨0x1000⟩, "add"⟩), (9, ⟨⟨0x1004⟩, "lw"⟩)]⟩, blank, blank])⟩
    (∀ r ∈ rs, s.grid.Contains r.tile) ∧ (rs.Pairwise fun a b => a.cycle ≤ b.cycle) ∧
      (build s (rs.map .ok)).result = .ok t ∧ t.Keeps 13 9 ⟨⟨0x1004⟩, "lw"⟩ ∧
      (∃ r, LastRetained s rs ⟨1, 3⟩ 9 r ∧ r.event = ⟨⟨0x1004⟩, "lw"⟩) ∧ (¬ ∃ e, t.Keeps 13 1 e) ∧
      WindowCovers s t := by
  intro s rs blank t
  have hin : ∀ r ∈ rs, s.grid.Contains r.tile := by decide
  have hord : rs.Pairwise fun a b => a.cycle ≤ b.cycle := by decide
  have hbuilt : (build s (rs.map .ok)).result = .ok t := by decide +kernel
  have hkept : t.Keeps 13 9 ⟨⟨0x1004⟩, "lw"⟩ := ⟨_, rfl, rfl⟩
  have htile : s.grid.tile 13 = ⟨1, 3⟩ := by decide
  obtain ⟨u, hu, hkeeps, hcovers⟩ := build_windowCovers hin hord
  obtain rfl := Except.ok.inj (hbuilt.symm.trans hu)
  refine ⟨hin, hord, hbuilt, hkept, htile ▸ ((hkeeps 13 9 _).mp hkept).2, ?_, hcovers⟩
  intro ⟨e, he⟩
  -- The window starts with the first event that is kept, which is later.
  have hle := (hcovers.start_least 2 rfl).2 13 1 e he
  exact absurd hle (by decide)

end

end TileTrace.Trace
