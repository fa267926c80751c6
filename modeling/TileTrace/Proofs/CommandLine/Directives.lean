import Mathlib.Data.List.Induction
import Mathlib.Data.List.Perm.Basic
import TileTrace.Proofs.CommandLine.Typed
import TileTrace.Proofs.Mode.Assignment

/-!
# The modes that are asked for

What ranges of tiles and a mode for all of them come to, however they are put on the command line: the range of
the highest resolution decides about a tile, and the mode for all tiles about those that are in no range.
-/

namespace TileTrace

def Mode.rank : Mode → Nat
  | lo => 0
  | mid => 1
  | hi => 2
  | pc => 3
  | full => 4

theorem Mode.rank_injective {m m' : Mode} (h : m.rank = m'.rank) : m = m' := by
  cases m <;> cases m' <;> first | rfl | cases h

namespace CommandLine

/-! ## From options to directives -/

namespace PrintOption

def mode? : PrintOption → Option Mode
  | mode m => some m
  | _ => none

def range? : PrintOption → Option (Mode × Nat × Nat)
  | range m start stop => some (m, start, stop)
  | _ => none

def directive? : PrintOption → Option Directive
  | mode m => some ⟨m, .all⟩
  | range m start stop => some ⟨m, .span start stop⟩
  | _ => none

end PrintOption

section
variable {os : List PrintOption}

def rangesIn (os : List PrintOption) (m : Mode) : List (Mode × Nat × Nat) :=
  (os.filterMap PrintOption.range?).filter (·.1 = m)

theorem pairs_flatMap (rs : List (Mode × Nat × Nat)) :
    pairs (rs.flatMap fun r => [r.2.1, r.2.2]) = rs.map (·.2) := by
  induction rs with
  | nil => rfl
  | cons r rs ih => exact congrArg (r.2 :: ·) ih

/-- The numbers of a mode are those of its ranges, in the order in which these were typed. -/
theorem bounds_putAll (m : Mode) : ∀ {s : PrintSettings}, (putAll os s).bounds.get m =
    s.bounds.get m ++ (rangesIn os m).flatMap fun r => [r.2.1, r.2.2] := by
  induction os with
  | nil => simp [putAll, rangesIn]
  | cons o os ih =>
    intro s
    show (putAll os (o.put s)).bounds.get m = _
    rw [ih]
    cases o with
    | range m' start stop =>
      by_cases h : m' = m <;>
        simp [PrintOption.put, PrintOption.range?, rangesIn, Bounds.get_push, h]
    | _ => rfl

/-- Taken two by two, the numbers are the ranges again: there are two of them for each. -/
theorem pairs_putAll (m : Mode) : pairs ((putAll os {}).bounds.get m) = (rangesIn os m).map (·.2) := by
  have hblank : ({} : PrintSettings).bounds.get m = [] := by cases m <;> rfl
  rw [bounds_putAll, hblank, List.nil_append, pairs_flatMap]

theorem rangesOf_putAll (m : Mode) : (putAll os {}).options.rangesOf m =
    (rangesIn os m).map fun r => ⟨r.1, .span r.2.1 r.2.2⟩ := by
  show (pairs ((putAll os {}).bounds.get m)).map _ = _
  rw [pairs_putAll, List.map_map]
  apply List.map_congr_left
  intro r hr
  have hmode : r.1 = m := by simpa using (List.mem_filter.mp hr).2
  rw [hmode]
  rfl

theorem mem_rangesIn {m : Mode} {start stop : Nat} :
    (start, stop) ∈ (rangesIn os m).map (·.2) ↔ .range m start stop ∈ os := by
  rw [List.mem_map]
  constructor
  · intro ⟨⟨m', r⟩, hr, hsame⟩
    obtain rfl : r = (start, stop) := hsame
    obtain ⟨hmem, hmode⟩ := List.mem_filter.mp hr
    obtain rfl : m' = m := by simpa using hmode
    obtain ⟨o, ho, hrange⟩ := List.mem_filterMap.mp hmem
    cases o <;> cases hrange
    exact ho
  · intro ho
    exact ⟨(m, start, stop), List.mem_filter.mpr ⟨List.mem_filterMap.mpr ⟨_, ho, rfl⟩, by simp⟩, rfl⟩

theorem mode_putAll : ∀ {s : PrintSettings}, Addable os s →
    (putAll os s).mode.toList = s.mode.toList ++ os.filterMap PrintOption.mode? := by
  induction os with
  | nil => simp [putAll]
  | cons o os ih =>
    intro s h
    show (putAll os (o.put s)).mode.toList = _
    rw [ih h.2]
    cases o with
    | mode m =>
      have hfresh : s.mode = none := h.1
      simp [PrintOption.put, PrintOption.mode?, hfresh]
    | _ => simp [PrintOption.put, PrintOption.mode?, List.filterMap_cons]

/-- Sorting ranges by their modes neither loses nor doubles any. -/
theorem perm_flatMap_filter (rs : List (Mode × Nat × Nat)) :
    (Mode.all.flatMap fun m => rs.filter (·.1 = m)).Perm rs := by
  rw [List.perm_iff_count]
  intro r
  have hcount : ∀ m, (rs.filter (·.1 = m)).count r = if r.1 = m then rs.count r else 0 := by
    intro m
    by_cases h : r.1 = m
    · rw [if_pos h, List.count_filter (by simpa using h)]
    · rw [if_neg h, List.count_eq_zero]
      simp [h]
  simp only [Mode.all, List.flatMap_cons, List.flatMap_nil, List.append_nil, List.count_append, hcount]
  cases r.1 <;> simp

/-- The modes for all tiles may be taken out to the front. -/
theorem perm_filterMap (os : List PrintOption) :
    ((os.filterMap PrintOption.mode?).map (fun m => (⟨m, .all⟩ : Directive)) ++
      (os.filterMap PrintOption.range?).map fun r => (⟨r.1, .span r.2.1 r.2.2⟩ : Directive)).Perm
        (os.filterMap PrintOption.directive?) := by
  induction os with
  | nil => exact .nil
  | cons o os ih =>
    cases o with
    | trace path => exact ih
    | disassembly path => exact ih
    | mode m => exact ih.cons _
    | range m start stop => exact List.perm_middle.trans (ih.cons _)

/-- Every mode and every range that was typed is a directive, once for each time. -/
theorem directives_perm (h : Once os) :
    (putAll os {}).options.directives.Perm (os.filterMap PrintOption.directive?) := by
  refine List.Perm.trans ?_ (perm_filterMap os)
  have hmode : (putAll os {}).options.mode.toList = os.filterMap PrintOption.mode? :=
    mode_putAll (addable_blank.mpr h)
  rw [PrintOptions.directives, hmode, funext rangesOf_putAll, ← List.map_flatMap]
  exact ((perm_flatMap_filter _).map _).append_left _

theorem directives_eq_nil (h : Once os) :
    (putAll os {}).options.directives = [] ↔ ∀ p ∈ os, p.directive? = none := by
  rw [← List.filterMap_eq_nil_iff]
  exact ⟨fun hnil => (hnil ▸ directives_perm h).symm.eq_nil, fun hnil => (hnil ▸ directives_perm h).eq_nil⟩

end

/-! ## From directives to modes -/

section
variable {o : PrintOptions} {i : Nat}

/-- The tile with the number is in a range that is to be shown in the mode. -/
def PrintOptions.Shows (o : PrintOptions) (i : Nat) (m : Mode) : Prop :=
  ∃ start stop, (start, stop) ∈ pairs (o.bounds.get m) ∧ start ≤ i ∧ i < stop

/-- The highest of the modes that a tile is to be shown in, or the one for all tiles. -/
def Highest (Shows : Mode → Prop) (whole : Option Mode) (a : Option Mode) : Prop :=
  (∃ m, Shows m ∧ a = some m ∧ ∀ m', Shows m' → m'.rank ≤ m.rank) ∨ (∀ m, ¬ Shows m) ∧ a = whole

theorem Highest.unique {Shows : Mode → Prop} {whole a b : Option Mode} (ha : Highest Shows whole a)
    (hb : Highest Shows whole b) : a = b := by
  rcases ha with ⟨m, hm, rfl, hmax⟩ | ⟨hnone, rfl⟩
  · rcases hb with ⟨m', hm', rfl, hmax'⟩ | ⟨hnone, -⟩
    · rw [Mode.rank_injective (Nat.le_antisymm (hmax' m hm) (hmax m' hm'))]
    · exact absurd hm (hnone m)
  · rcases hb with ⟨m', hm', -, -⟩ | ⟨-, rfl⟩
    · exact absurd hm' (hnone m')
    · rfl

theorem mem_rangesOf {m : Mode} {d : Directive} (h : d ∈ o.rangesOf m) : d.mode = m := by
  obtain ⟨r, -, rfl⟩ := List.mem_map.mp h
  rfl

theorem exists_rangesOf {m : Mode} : (∃ d ∈ o.rangesOf m, d.tiles.Covers i) ↔ o.Shows i m := by
  constructor
  · intro ⟨d, hd, hcovers⟩
    obtain ⟨⟨start, stop⟩, hr, rfl⟩ := List.mem_map.mp hd
    exact ⟨start, stop, hr, hcovers⟩
  · intro ⟨start, stop, hr, hcovers⟩
    exact ⟨_, List.mem_map.mpr ⟨(start, stop), hr, rfl⟩, hcovers⟩

/-- The ranges of some modes after another, from lower to higher ones. -/
theorem highest_rangesOf {whole : Option Mode} {ms : List Mode} :
    ms.Pairwise (fun m m' => m.rank < m'.rank) →
    Highest (fun m => m ∈ ms ∧ o.Shows i m) whole (Modes.decided whole i (ms.flatMap o.rangesOf)) := by
  induction ms using List.reverseRecOn with
  | nil =>
    intro _
    exact .inr ⟨by simp, rfl⟩
  | append_singleton ms m ih =>
    intro h
    obtain ⟨hms, -, hlt⟩ := List.pairwise_append.mp h
    rw [List.flatMap_append, List.flatMap_singleton, Modes.decided_append,
      Modes.decided_of_mode fun d hd => mem_rangesOf hd]
    -- The ranges of the last mode are applied last, and it is the highest of the list.
    by_cases hm : o.Shows i m
    · rw [if_pos (exists_rangesOf.mpr hm)]
      refine .inl ⟨m, ⟨by simp, hm⟩, rfl, fun m' hm' => ?_⟩
      rcases List.mem_append.mp hm'.1 with hmem | hmem
      · exact Nat.le_of_lt (hlt m' hmem m (by simp))
      · rw [List.mem_singleton.mp hmem]
    · rw [if_neg fun hcovers => hm (exists_rangesOf.mp hcovers)]
      have hsame : (fun m' => m' ∈ ms ++ [m] ∧ o.Shows i m') = fun m' => m' ∈ ms ∧ o.Shows i m' := by
        funext m'
        by_cases hm' : m' = m
        · simp [hm', hm]
        · simp [hm']
      rw [hsame]
      exact ih hms

/-- The range of the highest resolution decides, and else the mode for all tiles. -/
theorem highest_directives (o : PrintOptions) (i : Nat) :
    Highest (o.Shows i) o.mode (Modes.decided none i o.directives) := by
  have hall : (fun m => m ∈ Mode.all ∧ o.Shows i m) = o.Shows i := by
    funext m
    cases m <;> simp [Mode.all]
  have hwhole : Modes.decided none i (o.mode.toList.map fun m => ⟨m, .all⟩) = o.mode := by
    cases o.mode <;> rfl
  have hranges := @highest_rangesOf o i o.mode Mode.all (by decide)
  rw [hall] at hranges
  rw [PrintOptions.directives, Modes.decided_append, hwhole]
  exact hranges

/-- The modes come from what is asked for, whatever the order is. -/
theorem result_ofDirectives_congr {o' : PrintOptions} (hmode : o'.mode = o.mode)
    (hranges : ∀ m, (pairs (o'.bounds.get m)).Perm (pairs (o.bounds.get m)))
    (hdirectives : o'.directives.Perm o.directives) (g : Grid) :
    (Modes.ofDirectives g o'.directives).result = (Modes.ofDirectives g o.directives).result := by
  have hshows : ∀ i, o'.Shows i = o.Shows i := by
    intro i
    funext m
    simp only [PrintOptions.Shows, (hranges m).mem_iff]
  -- The highest mode of a tile is unique, whatever the order of the directives.
  have hdecided : ∀ i, Modes.decided none i o'.directives = Modes.decided none i o.directives := by
    intro i
    have h := highest_directives o' i
    rw [hshows, hmode] at h
    exact h.unique (highest_directives o i)
  by_cases hnil : o.directives = []
  · rw [hnil] at hdirectives ⊢
    rw [hdirectives.eq_nil]
  · have hnil' : o'.directives ≠ [] := fun h => hnil (by rw [h] at hdirectives; exact hdirectives.symm.eq_nil)
    rw [Modes.result_ofDirectives hnil, Modes.result_ofDirectives hnil']
    congr 2
    apply List.ext_getElem (by simp)
    intro i _ _
    simpa using hdecided i

end

section
variable {os os' : List PrintOption}

theorem clashes_symm {o o' : PrintOption} (h : o.Clashes o') : o'.Clashes o := by
  cases o <;> cases o' <;> exact h

theorem Once.perm (h : Once os) (hperm : os'.Perm os) : Once os' :=
  hperm.symm.pairwise h fun hne hc => hne (clashes_symm hc)

theorem mode_typed (h : Once os) {m : Mode} : (putAll os {}).mode = some m ↔ .mode m ∈ os := by
  have hmode : (putAll os {}).mode.toList = os.filterMap PrintOption.mode? := mode_putAll (addable_blank.mpr h)
  have hmem : m ∈ (putAll os {}).mode.toList ↔ .mode m ∈ os := by
    rw [hmode, List.mem_filterMap]
    constructor
    · intro ⟨o, ho, hm⟩
      cases o <;> cases hm
      exact ho
    · exact fun ho => ⟨_, ho, rfl⟩
  rw [← hmem, Option.mem_toList]

theorem shows_typed {i : Nat} {m : Mode} : (putAll os {}).options.Shows i m ↔
    ∃ start stop, .range m start stop ∈ os ∧ start ≤ i ∧ i < stop := by
  simp only [PrintOptions.Shows, PrintSettings.options, pairs_putAll, mem_rangesIn]

/-- Options in another order ask for the same modes. -/
theorem result_ofDirectives_perm (h : Once os) (hperm : os'.Perm os) (g : Grid) :
    (Modes.ofDirectives g (putAll os' {}).options.directives).result =
      (Modes.ofDirectives g (putAll os {}).options.directives).result := by
  have h' := h.perm hperm
  apply result_ofDirectives_congr
  · apply Option.ext
    intro m
    show (putAll os' {}).mode = some m ↔ (putAll os {}).mode = some m
    rw [mode_typed h', mode_typed h, hperm.mem_iff]
  · intro m
    show (pairs ((putAll os' {}).bounds.get m)).Perm (pairs ((putAll os {}).bounds.get m))
    rw [pairs_putAll, pairs_putAll]
    exact ((hperm.filterMap _).filter _).map _
  · exact (directives_perm h').trans ((hperm.filterMap _).trans (directives_perm h).symm)

end

/-- Whatever line trace is asked for on a command line that is accepted: every mode and range that was typed is
a directive. The directives make modes unless there are none. A tile then has the highest of the modes whose
ranges it is in, or else the one for all tiles. And the same options are accepted in every other order and in
every other spelling, and make the same modes. -/
theorem modes_as_typed {ws : List String} {o : PrintOptions} (h : parse ws = .ok (.print o)) :
    ∃ ws', ws = "print" :: ws' ∧ (∃ os, Typed os ws') ∧ ∀ os, Typed os ws' →
      o.directives.Perm (os.filterMap PrintOption.directive?) ∧
      (∀ g f, (Modes.ofDirectives g o.directives).result = .error f ↔
        f = .noDirectives ∧ ∀ p ∈ os, p.directive? = none) ∧
      (∀ g m, (Modes.ofDirectives g o.directives).result = .ok m → ∀ t i, g.index? t = some i →
        ∃ whole, (∀ mode, whole = some mode ↔ .mode mode ∈ os) ∧
          Highest (fun mode => ∃ start stop, .range mode start stop ∈ os ∧ start ≤ i ∧ i < stop) whole
            (m.get? t)) ∧
      ∀ os' ws'', os'.Perm os → Typed os' ws'' → ∃ o', parse ("print" :: ws'') = .ok (.print o') ∧
        ∀ g, (Modes.ofDirectives g o'.directives).result = (Modes.ofDirectives g o.directives).result := by
  obtain ⟨ws', rfl, hexists, hall⟩ := typed_of_parse h
  refine ⟨ws', rfl, hexists, fun os htyped => ?_⟩
  obtain ⟨honce, rfl⟩ := hall os htyped
  have hperm := directives_perm honce
  refine ⟨hperm, ?_, ?_, ?_⟩
  · intro g f
    rw [Modes.ofDirectives_eq_error, directives_eq_nil honce]
  · intro g m hm t i ht
    refine ⟨(putAll os {}).mode, fun mode => mode_typed honce, ?_⟩
    have hshows : (putAll os {}).options.Shows i =
        fun mode => ∃ start stop, .range mode start stop ∈ os ∧ start ≤ i ∧ i < stop :=
      funext fun mode => propext shows_typed
    rw [Modes.get?_of_ofDirectives hm ht, ← hshows]
    exact highest_directives _ i
  · intro os' ws'' hos htyped'
    exact ⟨_, parse_typed htyped' (honce.perm hos), result_ofDirectives_perm honce hos⟩

/-- Tile 2 of a reduced grid is in a range for lo mode and in a later one for full mode. -/
theorem modes_as_typed_overlap :
    let ws := ["--lo", "0", "3", "--mode=mid", "--full", "2", "10"]
    let os : List PrintOption := [.range .lo 0 3, .mode .mid, .range .full 2 10]
    let o : PrintOptions := ⟨"trace.snap", "kernel.dic", some .mid, { lo := [0, 3], full := [2, 10] }⟩
    let ds : List Directive := [⟨.lo, .span 0 3⟩, ⟨.mid, .all⟩, ⟨.full, .span 2 10⟩]
    (parse ("print" :: ws) = .ok (.print o) ∧ Typed os ws) ∧ o.directives.Perm ds ∧
      ∃ m, (Modes.ofDirectives .reduced o.directives).result = .ok m ∧ m.get? ⟨2, 0⟩ = some .full := by
  intro ws os o ds
  have htyped : Typed os ws := by
    have hlo : PrintOption.words (.range .lo 0 3) = ["--lo", "0", "3"] := by decide +kernel
    have hfull : PrintOption.words (.range .full 2 10) = ["--full", "2", "10"] := by decide +kernel
    have hmid : PrintOption.Says (.mode .mid) ["mid"] := .mode rfl
    have hmode : PrintOption.Spells (.mode .mid) ["--mode=mid"] := .attached hmid
    show Typed os (["--lo", "0", "3"] ++ (["--mode=mid"] ++ (["--full", "2", "10"] ++ [])))
    rw [← hlo, ← hfull]
    exact .cons (PrintOption.IsPlain.spells (by decide))
      (.cons hmode (.cons (PrintOption.IsPlain.spells (by decide)) .nil))
  have hparse : parse ("print" :: ws) = .ok (.print o) :=
    parse_typed htyped (by simp [Once, os, PrintOption.Clashes])
  obtain ⟨ws', hws, -, hall⟩ := modes_as_typed hparse
  cases hws
  obtain ⟨hperm, -, hmodes, -⟩ := hall os htyped
  refine ⟨⟨hparse, htyped⟩, hperm, ?_⟩
  obtain ⟨m, hm⟩ : ∃ m, (Modes.ofDirectives .reduced o.directives).result = .ok m :=
    ⟨_, Modes.result_ofDirectives (by simp [PrintOptions.directives, o])⟩
  obtain ⟨whole, -, hhighest⟩ := hmodes .reduced m hm ⟨2, 0⟩ 2 rfl
  refine ⟨m, hm, hhighest.unique (.inl ⟨.full, ⟨2, 10, by simp [os], by omega, by omega⟩, rfl, ?_⟩)⟩
  intro m' _
  cases m' <;> decide

end CommandLine

end TileTrace
