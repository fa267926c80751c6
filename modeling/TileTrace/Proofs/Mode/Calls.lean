import Mathlib.Data.List.Forall2
import TileTrace.Proofs.Mode.Assignment

/-!
# Assigning in place

Modes can also be assigned by calls that write into the list of the tiles, from one number up to another.
The numbers may lie beyond the grid, be equal, or be in the wrong order. No call writes outside the list,
and after any calls a tile has the mode of the last one that covers it.
-/

namespace TileTrace.Modes

/-- A call with bounds, which do not count if all tiles are meant, or with a directive. -/
inductive Call
  | assign (mode : Mode) (start stop : Nat) (all : Bool)
  | apply (d : Directive)
  deriving DecidableEq

def Call.directive : Call → Directive
  | assign mode _ _ true => ⟨mode, .all⟩
  | assign mode start stop false => ⟨mode, .span start stop⟩
  | apply d => d

def Call.Covers (c : Call) (i : Nat) : Prop := c.directive.tiles.Covers i

instance (c : Call) (i : Nat) : Decidable (c.Covers i) :=
  inferInstanceAs (Decidable (c.directive.tiles.Covers i))

/-! ## Work in place -/

def fill? {α : Type} (as : List α) (start stop : Nat) (a : α) : Option (List α) :=
  if start ≤ stop ∧ stop ≤ as.length then
    some (as.take start ++ List.replicate (stop - start) a ++ as.drop stop)
  else .none

/-- Assigns in place, and tells what is logged. There is no outcome if the slice to be written is none of the
list. -/
def assign? (m : Modes) (mode : Mode) (start stop : Nat) (all : Bool) : Option (List Log.Entry × Modes) :=
  let size := m.assigned.length
  let first := if all then 0 else start
  let behind := if all then size else stop
  let warning := if size < behind then [.exceeds first behind size m.grid] else []
  let last := min behind size
  if last ≤ first then some (warning, m)
  else do
    let assigned ← fill? m.assigned first last (some mode)
    return (warning ++ [.rendering first last mode], { m with assigned })

def call? (m : Modes) : Call → Option (List Log.Entry × Modes)
  | .assign mode start stop all => m.assign? mode start stop all
  | .apply ⟨mode, .all⟩ => m.assign? mode 0 0 true
  | .apply ⟨mode, .span start stop⟩ => m.assign? mode start stop false

def callAll? (m : Modes) : List Call → Option (List (List Log.Entry) × Modes)
  | [] => some ([], m)
  | c :: cs => do
    let (log, m) ← m.call? c
    let (logs, m) ← m.callAll? cs
    return (log :: logs, m)

/-! ## One call -/

theorem fill?_eq {α : Type} {as : List α} {start stop : Nat} (hstart : start ≤ stop) (hstop : stop ≤ as.length)
    (a : α) : fill? as start stop a = some (as.mapIdx fun i x => if start ≤ i ∧ i < stop then a else x) := by
  rw [fill?, if_pos ⟨hstart, hstop⟩]
  congr 1
  apply List.ext_getElem?
  intro i
  have hfront : (as.take start).length = start := by
    rw [List.length_take]
    omega
  rw [List.append_assoc]
  -- A place is in front of the slice, in it, or behind it.
  by_cases hi : i < start
  · have hout : ¬ (start ≤ i ∧ i < stop) := by omega
    rw [List.getElem?_append_left (by omega), List.getElem?_take_of_lt hi]
    simp [hout]
  · rw [List.getElem?_append_right (by omega), hfront]
    by_cases hi' : i < stop
    · have hin : start ≤ i ∧ i < stop := by omega
      have hslice : i - start < stop - start := by omega
      have hlt : i < as.length := by omega
      rw [List.getElem?_append_left (by rwa [List.length_replicate])]
      simp [hin, hslice, hlt]
    · have hout : ¬ (start ≤ i ∧ i < stop) := by omega
      have hback : stop + (i - start - (stop - start)) = i := by omega
      rw [List.getElem?_append_right (by rw [List.length_replicate]; omega), List.length_replicate,
        List.getElem?_drop, hback]
      simp [hout]

section
variable {m : Modes} {d : Directive}

def covered (m : Modes) (d : Directive) : Modes :=
  { m with assigned := m.assigned.mapIdx fun i a => if d.tiles.Covers i then some d.mode else a }

theorem apply_eq (m : Modes) (d : Directive) : m.apply d = ⟨m.entries d, .ok (m.covered d)⟩ := rfl

theorem length_covered : (m.covered d).assigned.length = m.assigned.length := by
  simp [covered]

theorem covered_congr {mode : Mode} {r q : TileRange} (h : ∀ i < m.assigned.length, r.Covers i ↔ q.Covers i) :
    m.covered ⟨mode, r⟩ = m.covered ⟨mode, q⟩ := by
  unfold covered
  congr 1
  apply List.ext_getElem (by simp)
  intro i hi hi'
  have hlt : i < m.assigned.length := by simpa using hi
  simp [h i hlt]

theorem covered_eq_self (h : ∀ i < m.assigned.length, ¬ d.tiles.Covers i) : m.covered d = m := by
  have hassigned : (m.assigned.mapIdx fun i a => if d.tiles.Covers i then some d.mode else a) = m.assigned := by
    apply List.ext_getElem (by simp)
    intro i hi hi'
    simp [h i hi']
  rw [covered, hassigned]

/-- Whatever its bounds are, a span is assigned as the directive for it is applied. -/
theorem assign?_span (m : Modes) (mode : Mode) (start stop : Nat) : m.assign? mode start stop false =
    some (m.entries ⟨mode, .span start stop⟩, m.covered ⟨mode, .span start stop⟩) := by
  have hcut : m.covered ⟨mode, .span start (min stop m.assigned.length)⟩ =
      m.covered ⟨mode, .span start stop⟩ := by
    apply covered_congr
    intro i hi
    show start ≤ i ∧ i < min stop m.assigned.length ↔ start ≤ i ∧ i < stop
    omega
  rw [← hcut]
  -- Nothing is written if the range is empty, in the wrong order, or behind the last tile.
  by_cases hempty : min stop m.assigned.length ≤ start
  · have hself : m.covered ⟨mode, .span start (min stop m.assigned.length)⟩ = m := by
      apply covered_eq_self
      intro i _ h
      exact absurd (Nat.lt_of_le_of_lt h.1 h.2) (Nat.not_lt_of_le hempty)
    simp only [assign?, entries, Bool.false_eq_true, if_false, if_pos hempty, if_neg (Nat.not_lt_of_le hempty),
      List.append_nil, hself]
  · have hfill := fill?_eq (Nat.le_of_not_le hempty) (Nat.min_le_right stop m.assigned.length) (some mode)
    simp only [assign?, entries, Bool.false_eq_true, if_false, if_neg hempty,
      if_pos (Nat.lt_of_not_le hempty), hfill]
    rfl

theorem assign?_all (m : Modes) (mode : Mode) (start stop : Nat) :
    m.assign? mode start stop true = some (m.entries ⟨mode, .all⟩, m.covered ⟨mode, .all⟩) := by
  have hall : m.covered ⟨mode, .span 0 m.assigned.length⟩ = m.covered ⟨mode, .all⟩ := by
    apply covered_congr
    intro i hi
    exact ⟨fun _ => trivial, fun _ => ⟨Nat.zero_le i, hi⟩⟩
  rw [← hall]
  exact assign?_span m mode 0 m.assigned.length

/-- No call fails, and each does what its directive does. -/
theorem call?_eq (m : Modes) (c : Call) : m.call? c = some (m.entries c.directive, m.covered c.directive) := by
  cases c with
  | assign mode start stop all =>
    cases all with
    | false => exact assign?_span m mode start stop
    | true => exact assign?_all m mode start stop
  | apply d =>
    obtain ⟨mode, tiles⟩ := d
    cases tiles with
    | all => exact assign?_all m mode 0 0
    | span start stop => exact assign?_span m mode start stop

end

/-! ## Any calls -/

section
variable {m : Modes}

theorem entries_covered (m : Modes) (d e : Directive) : (m.covered d).entries e = m.entries e := by
  simp only [entries, length_covered]
  rfl

theorem callAll?_eq (cs : List Call) : ∀ m : Modes, m.callAll? cs = some (cs.map fun c => m.entries c.directive,
    ⟨m.grid, m.assigned.mapIdx fun i a => decided a i (cs.map Call.directive)⟩) := by
  induction cs with
  | nil =>
    intro m
    have hid : m.assigned.mapIdx (fun _ a => a) = m.assigned := List.ext_getElem (by simp) (by simp)
    simp [callAll?, decided, hid]
  | cons c cs ih =>
    intro m
    -- What a call logs depends on the number of places, which no call changes.
    simp only [callAll?, call?_eq, ih, Option.bind_eq_bind, Option.bind_some, entries_covered]
    rw [covered, List.mapIdx_mapIdx]
    rfl

theorem log_applyAll (ds : List Directive) : ∀ m : Modes, (m.applyAll ds).log = ds.flatMap m.entries := by
  induction ds with
  | nil =>
    intro m
    rfl
  | cons d ds ih =>
    intro m
    have hentries : (m.covered d).entries = m.entries := funext (entries_covered m d)
    simp only [applyAll, apply_eq, Report.bind, ih, hentries, List.flatMap_cons]

theorem exceeds_mem_entries {d : Directive} {start stop n : Nat} {g : Grid} :
    .exceeds start stop n g ∈ m.entries d ↔
      d.tiles = .span start stop ∧ m.assigned.length < stop ∧ n = m.assigned.length ∧ g = m.grid := by
  obtain ⟨mode, tiles⟩ := d
  cases tiles with
  | all => simp [entries]
  | span first behind =>
    by_cases hbeyond : m.assigned.length < behind
    · simp [entries, hbeyond]
      grind
    · simp [entries, hbeyond]
      omega

end

/-- Calls never fail, whatever their bounds are, and keep a place for every tile of the grid. A tile inside of
it has the mode of the last call that covers it. -/
theorem last_call_decides (g : Grid) (cs : List Call) :
    ∃ logs m, (none g).callAll? cs = some (logs, m) ∧
      (none g).applyAll (cs.map Call.directive) = ⟨logs.flatten, .ok m⟩ ∧
      m.grid = g ∧ m.assigned.length = g.numTiles ∧
      (∀ t, m.get? t = (g.index? t).bind fun i =>
        (cs.reverse.find? fun c => c.Covers i).map fun c => c.directive.mode) ∧
      (m.needsDisassembly = true ↔ ∃ t ∈ g.tiles, m.get? t = some .full) ∧
      List.Forall₂ (fun c log => ∀ start stop n h, .exceeds start stop n h ∈ log ↔
        c.directive.tiles = .span start stop ∧ g.numTiles < stop ∧ n = g.numTiles ∧ h = g) cs logs := by
  have hsize : (none g).assigned.length = g.numTiles := List.length_replicate
  -- What the calls come to, as the directives they stand for decide it place by place.
  let m : Modes := ⟨g, (none g).assigned.mapIdx fun i a => decided a i (cs.map Call.directive)⟩
  have hplaces : m.assigned.length = g.numTiles := by simp [m, hsize]
  refine ⟨_, m, callAll?_eq cs (none g), ?_, rfl, hplaces, ?_, needsDisassembly_iff_get? hplaces, ?_⟩
  · have hlog := log_applyAll (cs.map Call.directive) (none g)
    have hresult := result_applyAll (cs.map Call.directive) (none g)
    rw [List.flatMap_def, List.map_map] at hlog
    exact congrArg₂ Report.mk hlog hresult
  · intro t
    cases ht : g.index? t with
    | none => simp [get?, m, ht]
    | some i =>
      have hi : i < g.numTiles := Grid.index?_lt ht
      have hget : m.get? t = decided .none i (cs.map Call.directive) := by
        simp [get?, m, ht, none, hi]
      rw [hget, decided_eq_find?, ← List.map_reverse, List.find?_map, Option.map_map, Option.or_none]
      rfl
  · rw [List.forall₂_map_right_iff, List.forall₂_same]
    intro c _ start stop n h
    rw [exceeds_mem_entries, hsize]
    rfl

/-- A range that is cut at the end of the grid, and one in the wrong order. -/
example : ((none .reduced).callAll? [.assign .full 14 40 false, .assign .lo 9 3 false]).map (·.1) =
    some [[.exceeds 14 40 16 .reduced, .rendering 14 16 .full], []] := by decide

end TileTrace.Modes
