import TileTrace.Proofs.Trace.Refusal

/-!
# What the log says of a tile

The messages about a tile that enters or leaves the window can be trusted: the latest of them tells whether
the tile is inside, it leaves between any two times that it enters, and the cycle at which it entered stays
among its events.
-/

namespace TileTrace

namespace Log

def Entry.isOf (t : Tile) : Entry → Bool
  | .enters tile _ _ => tile = t
  | .leaves tile _ => tile = t
  | _ => false

def latest? (t : Tile) (log : List Entry) : Option Entry :=
  (log.filter (·.isOf t)).getLast?

/-- The tile entered the window and has not left it since. -/
def SaysInside (t : Tile) (log : List Entry) : Prop :=
  ∃ c pc, latest? t log = some (.enters t c pc)

/-- Between two messages that the tile enters the window there is one that it leaves it. -/
def Alternates (t : Tile) (log : List Entry) : Prop :=
  ∀ before c p between d q after, log = before ++ .enters t c p :: (between ++ .enters t d q :: after) →
    ∃ n, .leaves t n ∈ between

section
variable {t : Tile} {log es : List Entry} {e : Entry}

theorem latest?_append : latest? t (log ++ es) = (latest? t es).or (latest? t log) := by
  rw [latest?, List.filter_append, List.getLast?_append]
  rfl

theorem latest?_eq_none (h : ∀ e ∈ es, e.isOf t = false) : latest? t es = none := by
  rw [latest?, List.getLast?_eq_none_iff, List.filter_eq_nil_iff]
  simpa using h

theorem isOf_of_latest? (h : latest? t log = some e) : e ∈ log ∧ e.isOf t = true := by
  exact List.mem_filter.mp (List.mem_of_getLast? h)

theorem eq_of_isOf (h : e.isOf t = true) : (∃ c pc, e = .enters t c pc) ∨ ∃ c, e = .leaves t c := by
  cases e with
  | enters tile c pc => exact .inl ⟨c, pc, by rw [of_decide_eq_true h]⟩
  | leaves tile c => exact .inr ⟨c, by rw [of_decide_eq_true h]⟩
  | _ => cases h

theorem alternates_nil : Alternates t [] := by
  intro before c p between d q after h
  simp at h

/-- One more message keeps up the order if it does not say of a tile that it enters which is inside. -/
theorem Alternates.snoc (h : Alternates t log) (he : ∀ c p, e = .enters t c p → ¬ SaysInside t log) :
    Alternates t (log ++ [e]) := by
  intro before c p between d q after heq
  rcases List.eq_nil_or_concat after with rfl | ⟨rest, last, rfl⟩
  · -- The new message is the second one, so that the latest in front of it stands between the two.
    have hsplit : log ++ [e] = (before ++ .enters t c p :: between) ++ [.enters t d q] := by simpa using heq
    obtain ⟨hlog, hlast⟩ := List.append_inj' hsplit rfl
    have hout := he d q (List.head_eq_of_cons_eq hlast)
    have hlatest : latest? t log = (latest? t between).or (some (.enters t c p)) := by
      have hfirst : latest? t [Entry.enters t c p] = some (.enters t c p) := by simp [latest?, Entry.isOf]
      rw [hlog, ← List.singleton_append, ← List.append_assoc, latest?_append, latest?_append, hfirst]
      rfl
    cases hbetween : latest? t between with
    | none => exact absurd ⟨c, p, by rw [hlatest, hbetween]; rfl⟩ hout
    | some x =>
      obtain ⟨hx, hof⟩ := isOf_of_latest? hbetween
      rcases eq_of_isOf hof with ⟨n, r, rfl⟩ | ⟨n, rfl⟩
      · exact absurd ⟨n, r, by rw [hlatest, hbetween]; rfl⟩ hout
      · exact ⟨n, hx⟩
  · have hsplit : log ++ [e] = (before ++ .enters t c p :: (between ++ .enters t d q :: rest)) ++ [last] := by
      simpa using heq
    exact h before c p between d q rest (List.append_inj' hsplit rfl).1

end

end Log

open Log (SaysInside Alternates latest? latest?_append)

/-! ## One record -/

structure History.Told (t : Tile) (h : History) (log : List Log.Entry) : Prop where
  inside : h.inRange = true ↔ SaysInside t log
  kept : ∀ c pc, .enters t c pc ∈ log → h.events.contains c = true

section
variable {s : Selection} {h g : History} {r : Record} {t : Tile} {log : List Log.Entry}

theorem OrderedMap.contains_insert {κ β : Type} [Ranked κ] {m : OrderedMap κ β} {k j : κ} {v : β} :
    (m.insert k v).contains j = true ↔ rank j = rank k ∨ m.contains j = true := by
  rw [contains, contains, get?_insert]
  by_cases hk : rank j = rank k <;> simp [hk]

theorem enters_mem_entries {c : Cycle} {pc : Pc} : .enters t c pc ∈ Builder.entries s h r ↔
    (s.start.Matches r.pc ∧ h.inRange = false) ∧ t = r.tile ∧ c = r.cycle ∧ pc = r.pc := by
  unfold Builder.entries
  by_cases hstart : s.start.Matches r.pc ∧ h.inRange = false <;> by_cases hstop : s.Closes r.pc <;>
    simp [hstart, hstop]

theorem leaves_mem_entries {c : Cycle} : .leaves t c ∈ Builder.entries s h r ↔
    s.Closes r.pc ∧ t = r.tile ∧ c = r.cycle := by
  unfold Builder.entries
  by_cases hstart : s.start.Matches r.pc ∧ h.inRange = false <;> by_cases hstop : s.Closes r.pc <;>
    simp [hstart, hstop]

theorem isOf_of_mem_entries {e : Log.Entry} (he : e ∈ Builder.entries s h r) :
    e.isOf t = true ↔ r.tile = t := by
  unfold Builder.entries at he
  rcases List.mem_append.mp he with he | he <;> split at he <;> simp_all [Log.Entry.isOf]

theorem saysInside_entries : SaysInside r.tile (log ++ Builder.entries s h r) ↔
    ¬ s.Closes r.pc ∧ (s.start.Matches r.pc ∧ h.inRange = false ∨ SaysInside r.tile log) := by
  unfold SaysInside Builder.entries
  rw [← List.append_assoc, latest?_append, latest?_append]
  -- A message that the tile leaves is the last of the record, whether or not it entered by it.
  by_cases hstop : s.Closes r.pc
  · simp [hstop, latest?, Log.Entry.isOf]
  · by_cases hstart : s.start.Matches r.pc ∧ h.inRange = false
    · simp [hstop, hstart, latest?, Log.Entry.isOf]
    · simp [hstop, hstart, latest?]

theorem History.contains_take {c : Cycle} : (h.take s r).events.contains c = true ↔
    ((h.inRange = true ∨ s.start.Matches r.pc) ∧ c = r.cycle) ∨ h.events.contains c = true := by
  by_cases hentered : h.inRange = true ∨ s.start.Matches r.pc
  · have hrank : rank c = rank r.cycle ↔ c = r.cycle := ⟨Ranked.rank_inj, congrArg rank⟩
    simp [History.take, hentered, OrderedMap.contains_insert, hrank]
  · simp [History.take, hentered]

theorem History.Told.take (htold : h.Told r.tile log) :
    (h.take s r).Told r.tile (log ++ Builder.entries s h r) := by
  constructor
  · rw [saysInside_entries, ← htold.inside]
    cases hin : h.inRange <;> simp [History.take, hin, and_comm]
  · intro c pc hmem
    rw [History.contains_take]
    rcases List.mem_append.mp hmem with hmem | hmem
    · exact .inr (htold.kept c pc hmem)
    · obtain ⟨⟨hstart, -⟩, -, hc, -⟩ := enters_mem_entries.mp hmem
      exact .inl ⟨.inr hstart, hc⟩

theorem History.Told.other (htold : g.Told t log) (ht : t ≠ r.tile) :
    g.Told t (log ++ Builder.entries s h r) := by
  constructor
  · have hnone : latest? t (Builder.entries s h r) = none := by
      apply Log.latest?_eq_none
      intro e he
      rw [Bool.eq_false_iff, ne_eq, isOf_of_mem_entries he]
      exact fun h => ht h.symm
    rw [htold.inside, SaysInside, SaysInside, latest?_append, hnone]
    rfl
  · intro c pc hmem
    rcases List.mem_append.mp hmem with hmem | hmem
    · exact htold.kept c pc hmem
    · exact absurd (enters_mem_entries.mp hmem).2.1 ht

theorem alternates_entries (htold : h.Told r.tile log) (hlog : Alternates t log) :
    Alternates t (log ++ Builder.entries s h r) := by
  have henters : Alternates t
      (log ++ if s.start.Matches r.pc ∧ h.inRange = false then [.enters r.tile r.cycle r.pc] else []) := by
    split
    · rename_i hstart
      apply hlog.snoc
      intro c p heq hinside
      obtain ⟨rfl, -⟩ := Log.Entry.enters.inj heq
      rw [← htold.inside, hstart.2] at hinside
      cases hinside
    · rwa [List.append_nil]
  rw [Builder.entries, ← List.append_assoc]
  by_cases hstop : s.Closes r.pc
  · rw [if_pos hstop]
    apply henters.snoc
    intro c p heq
    cases heq
  · rwa [if_neg hstop, List.append_nil]

end

/-! ## Any records -/

structure Site.Truthful (s : Selection) (x : Site) : Prop where
  selection : x.builder.selection = s
  grid : x.builder.trace.grid = s.grid
  complete : x.builder.Complete
  told : ∀ t, s.grid.Contains t → ∃ h, x.builder.trace.history? t = some h ∧ h.Told t x.log
  inside : ∀ t c pc, .enters t c pc ∈ x.log → s.grid.Contains t
  alternates : ∀ t, Alternates t x.log
  wildcard : s.stop = .any → ∀ t c, .leaves t c ∉ x.log

theorem Log.not_saysInside_nil (t : Tile) : ¬ SaysInside t [] := by
  intro h
  obtain ⟨c, pc, h⟩ := h
  cases h

theorem Site.truthful_new (s : Selection) : Truthful s ⟨.new s, []⟩ := by
  have hempty : ∀ e : Log.Entry, e ∉ ([] : List Log.Entry) := fun _ => List.not_mem_nil
  exact
    { selection := rfl
      grid := rfl
      complete := Builder.complete_new s
      told := by
        intro t ht
        obtain ⟨i, hi⟩ := ht.index?
        have hblank : (Builder.new s).trace.history? t = some {} := by
          simp [Builder.new, Trace.blank, Trace.history?, hi, Grid.index?_lt hi]
        exact ⟨{}, hblank, by simp [Log.not_saysInside_nil t], fun c pc h => absurd h (hempty _)⟩
      inside := fun t c pc h => absurd h (hempty _)
      alternates := fun t => Log.alternates_nil
      wildcard := fun _ t c => hempty _ }

/-- Taking a record changes the history of its tile alone. -/
theorem Builder.push_histories {b : Builder} (hgrid : b.trace.grid = b.selection.grid) {r : Record}
    {h : History} (hh : b.trace.history? r.tile = some h) :
    ∃ c, b.push r = ⟨entries b.selection h r, .ok c⟩ ∧ c.trace.grid = b.trace.grid ∧
      c.trace.history? r.tile = some (h.take b.selection r) ∧
      ∀ t, t ≠ r.tile → c.trace.history? t = b.trace.history? t := by
  obtain ⟨i, hi, htile⟩ := Option.bind_eq_some_iff.mp hh
  rw [hgrid] at hi
  have hlt : i < b.trace.tiles.length := (List.getElem?_eq_some_iff.mp htile).1
  refine ⟨b.taken i h r, push_eq hi htile, rfl, ?_, ?_⟩
  · simp [Trace.history?, taken, hgrid, hi, hlt]
  · intro t ht
    cases hj : b.selection.grid.index? t with
    | none => simp [Trace.history?, taken, hgrid, hj]
    | some j =>
      have hij : i ≠ j := by
        rintro rfl
        exact ht ((Grid.tile_index? hj).symm.trans (Grid.tile_index? hi))
      simp [Trace.history?, taken, hgrid, hj, hij]

namespace Work

open Site

variable {s : Selection} {x : Site}

/-- No push makes the log untrue, whether the record is taken or refused. -/
theorem truthful_push (hx : x.Truthful s) (r : Record) :
    ∃ a y, push r x = some (a, y) ∧ y.Truthful s ∧ x.log <+: y.log := by
  by_cases hr : s.grid.Contains r.tile
  · obtain ⟨h, hh, htold⟩ := hx.told r.tile hr
    obtain ⟨b, l, hpush, hwork, hcomplete, hselection⟩ := push_inside hx.complete (hx.selection ▸ hr)
    obtain ⟨c, hpush', hgrid, hown, hothers⟩ :=
      Builder.push_histories (hx.grid.trans (congrArg Selection.grid hx.selection.symm)) hh
    rw [hpush, hx.selection] at hpush'
    cases hpush'
    rw [hx.selection] at hown
    refine ⟨_, _, hwork, ?_, List.prefix_append _ _⟩
    exact
      { selection := hselection.trans hx.selection
        grid := hgrid.trans hx.grid
        complete := hcomplete
        told := by
          intro t ht
          -- The record is of one tile, and the log says nothing new of the others.
          by_cases heq : t = r.tile
          · subst heq
            exact ⟨_, hown, htold.take⟩
          · obtain ⟨g, hg, htold⟩ := hx.told t ht
            exact ⟨g, (hothers t heq).trans hg, htold.other heq⟩
        inside := by
          intro t c pc hmem
          rcases List.mem_append.mp hmem with hmem | hmem
          · exact hx.inside t c pc hmem
          · exact (enters_mem_entries.mp hmem).2.1 ▸ hr
        alternates := fun t => alternates_entries htold (hx.alternates t)
        wildcard := by
          intro hany t c hmem
          rcases List.mem_append.mp hmem with hmem | hmem
          · exact hx.wildcard hany t c hmem
          · have hstop : s.stop = .pc r.pc := (leaves_mem_entries.mp hmem).1
            rw [hany] at hstop
            cases hstop }
  · obtain ⟨-, hwork⟩ := push_outside x (hx.selection ▸ hr)
    exact ⟨_, x, hwork, hx, List.prefix_rfl⟩

theorem truthful_pushEach (rs : List Record) : ∀ x : Site, x.Truthful s →
    ∃ answers y, pushEach rs x = some (answers, y) ∧ y.Truthful s ∧ x.log <+: y.log := by
  induction rs with
  | nil => exact fun x hx => ⟨[], x, rfl, hx, List.prefix_rfl⟩
  | cons r rs ih =>
    intro x hx
    obtain ⟨a, y, hpush, hy, hlog⟩ := truthful_push hx r
    obtain ⟨answers, z, heach, hz, hlog'⟩ := ih y hy
    exact ⟨a :: answers, z, by simp [pushEach, hpush, heach], hz, hlog.trans hlog'⟩

end Work

namespace Trace

open Work

/-- Behind any records, of which some may have been refused, the latest message of a tile tells whether it is
inside the window, it left the window between any two times that it entered, and with a marker for every
record it never left. Whatever records follow, the cycles at which it entered stay among its events. -/
theorem log_tells_truth (s : Selection) (rs : List Record) :
    ∃ answers x, pushEach rs ⟨.new s, []⟩ = some (answers, x) ∧
      (Builder.new s).pushAll ((rs.filter (s.grid.Contains ·.tile)).map .ok) = ⟨x.log, .ok x.builder⟩ ∧
      (∀ t, s.grid.Contains t → ∃ h, x.builder.trace.history? t = some h ∧
        (h.inRange = true ↔ SaysInside t x.log)) ∧
      (∀ t, Alternates t x.log) ∧
      (s.stop = .any → ∀ t c, .leaves t c ∉ x.log) ∧
      ∀ qs, ∃ answers y, pushEach qs x = some (answers, y) ∧ x.log <+: y.log ∧
        ∀ t c pc, .enters t c pc ∈ x.log →
          ∃ h, y.builder.trace.history? t = some h ∧ h.events.contains c = true := by
  obtain ⟨b, l, hpushAll, heach, -⟩ := pushEach_eq s rs (x := ⟨.new s, []⟩) (Builder.complete_new s) rfl
  obtain ⟨answers, x, heach', hx, -⟩ := truthful_pushEach rs _ (Site.truthful_new s)
  rw [heach] at heach'
  cases heach'
  refine ⟨_, _, heach, hpushAll, ?_, hx.alternates, hx.wildcard, ?_⟩
  · intro t ht
    obtain ⟨h, hh, htold⟩ := hx.told t ht
    exact ⟨h, hh, htold.inside⟩
  · intro qs
    obtain ⟨answers, y, hrest, hy, hlog⟩ := truthful_pushEach qs _ hx
    refine ⟨answers, y, hrest, hlog, ?_⟩
    intro t c pc hmem
    obtain ⟨h, hh, htold⟩ := hy.told t (hx.inside t c pc hmem)
    exact ⟨h, hh, htold.kept c pc (hlog.subset hmem)⟩

/-- A tile that enters twice, a record that is refused in between, and one that replaces the event of the second
entry. -/
theorem log_tells_truth_reentry :
    let s : Selection := ⟨.pc ⟨0x1000⟩, .pc ⟨0x1008⟩, .reduced⟩
    let t : Tile := ⟨0, 0⟩
    let rs : List Record := [⟨t, 1, ⟨0x1000⟩, "add"⟩, ⟨t, 2, ⟨0x1008⟩, "jalr"⟩, ⟨⟨4, 0⟩, 2, ⟨0x1000⟩, "add"⟩,
      ⟨t, 3, ⟨0x1000⟩, "add"⟩]
    let qs : List Record := [⟨t, 3, ⟨0x1008⟩, "jalr"⟩]
    ∃ answers x h, pushEach rs ⟨.new s, []⟩ = some (answers, x) ∧
      x.log = [.enters t 1 ⟨0x1000⟩, .leaves t 2, .enters t 3 ⟨0x1000⟩] ∧
      x.builder.trace.history? t = some h ∧ h.inRange = true ∧ (∃ n, .leaves t n ∈ [Log.Entry.leaves t 2]) ∧
      (∃ answers y g, pushEach qs x = some (answers, y) ∧ y.builder.trace.history? t = some g ∧
        g.events.contains 3 = true) ∧
      ∃ answers x, pushEach rs ⟨.new { s with stop := .any }, []⟩ = some (answers, x) ∧
        .leaves t 2 ∉ x.log := by
  intro s t rs qs
  obtain ⟨answers, x, heach, hpushAll, hinside, halternates, -, hrest⟩ := log_tells_truth s rs
  have hlog : x.log = [.enters t 1 ⟨0x1000⟩, .leaves t 2, .enters t 3 ⟨0x1000⟩] :=
    (congrArg Report.log hpushAll).symm.trans (by decide)
  obtain ⟨h, hh, hin⟩ := hinside t (by decide)
  obtain ⟨later, y, hlater, -, hkept⟩ := hrest qs
  obtain ⟨g, hg, hcontains⟩ := hkept t 3 ⟨0x1000⟩ (by rw [hlog]; decide)
  obtain ⟨others, z, hothers, -, -, -, hwildcard, -⟩ := log_tells_truth { s with stop := .any } rs
  refine ⟨answers, x, h, heach, hlog, hh, ?_, ?_, ⟨later, y, g, hlater, hg, hcontains⟩, others, z, hothers,
    hwildcard rfl t 2⟩
  · rw [hin, hlog]
    exact ⟨3, ⟨0x1000⟩, by decide⟩
  · exact halternates t [] 1 ⟨0x1000⟩ [.leaves t 2] 3 ⟨0x1000⟩ [] hlog

end Trace

end TileTrace
