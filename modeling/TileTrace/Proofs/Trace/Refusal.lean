import TileTrace.Proofs.Trace.Run

/-!
# Refused records

A builder may go on behind a record that it refuses. Here a push works in place, one change after the other,
so that a refusal could leave some of them behind. It leaves none: a run over any records ends like the run
over those inside the grid.
-/

namespace TileTrace

structure Site where
  builder : Builder
  log : List Log.Entry

/-- Work in place. A failure keeps the changes that were made in front of it, and there is no outcome at all
once a tile is looked up beyond the last one. -/
abbrev Work := ExceptT Failure (StateT Site Option)

namespace Work

def note (e : Log.Entry) : Work Unit :=
  modify fun x => { x with log := x.log ++ [e] }

def tile (i : Nat) : Work History :=
  fun x => x.builder.trace.tiles[i]?.map fun h => (.ok h, x)

def changeTile (i : Nat) (f : History → History) : Work Unit :=
  modify fun x => { x with builder.trace.tiles := x.builder.trace.tiles.modify i f }

def changeWindow (f : Window → Window) : Work Unit :=
  modify fun x => { x with builder.trace.window := f x.builder.trace.window }

def count : Work Unit :=
  modify fun x => { x with builder.records := x.builder.records + 1 }

def enter (s : Selection) (i : Nat) (r : Record) : Work Unit := do
  if s.start.Matches r.pc then
    let h ← tile i
    if h.inRange = false then
      note (.enters r.tile r.cycle r.pc)
    changeTile i fun h => { h with inRange := true }
    changeWindow fun w => { w with start := some (w.start.getD r.cycle) }

def keep (i : Nat) (r : Record) : Work Unit := do
  let h ← tile i
  if h.inRange = true then
    changeTile i fun h => { h with events := h.events.insert r.cycle r.event }

def leave (s : Selection) (i : Nat) (r : Record) : Work Unit := do
  match s.stop with
  | .any => changeWindow fun w => { w with stop := some r.cycle }
  | .pc p =>
    if p = r.pc then
      note (.leaves r.tile r.cycle)
      changeTile i fun h => { h with inRange := false }
      changeWindow fun w => { w with stop := some r.cycle }

def push (r : Record) : Work Unit := do
  let s := (← get).builder.selection
  match s.grid.index? r.tile with
  | none => throw (.tileOutOfRange r.tile r.cycle s.grid)
  | some i =>
    let _ ← tile i
    count
    enter s i r
    keep i r
    leave s i r

end Work

namespace Site

def put (x : Site) (i : Nat) (h : History) (w : Window) (l : List Log.Entry) : Site :=
  { builder := { x.builder with
      trace := { x.builder.trace with window := w, tiles := x.builder.trace.tiles.set i h } }
    log := x.log ++ l }

end Site

namespace Work

variable {α β : Type} {x : Site} {i : Nat} {h : History} {w : Window} {l : List Log.Entry}

theorem bind_run (m : Work α) (f : α → Work β) (x : Site) : (m >>= f) x = (m x).bind fun
    | (.ok a, y) => f a y
    | (.error e, y) => some (.error e, y) := by
  show (m x).bind _ = _
  congr 1
  funext ⟨result, y⟩
  cases result <;> rfl

theorem get_run (x : Site) : (get : Work Site) x = some (.ok x, x) := rfl

theorem pure_run (a : α) (x : Site) : (pure a : Work α) x = some (.ok a, x) := rfl

theorem note_put (e : Log.Entry) : note e (x.put i h w l) = some (.ok (), x.put i h w (l ++ [e])) := by
  show some (_, _) = _
  simp [Site.put]

theorem changeTile_put (f : History → History) :
    changeTile i f (x.put i h w l) = some (.ok (), x.put i (f h) w l) := by
  have hset : (x.builder.trace.tiles.set i h).modify i f = x.builder.trace.tiles.set i (f h) := by
    apply List.ext_getElem?
    intro j
    by_cases hij : i = j <;> simp [List.getElem?_set, hij]
  show some (_, _) = _
  simp [Site.put, hset]

theorem changeWindow_put (f : Window → Window) :
    changeWindow f (x.put i h w l) = some (.ok (), x.put i h (f w) l) := by
  rfl

theorem tile_put (hi : i < x.builder.trace.tiles.length) :
    tile i (x.put i h w l) = some (.ok h, x.put i h w l) := by
  simp [tile, Site.put, hi]

theorem enter_put (hi : i < x.builder.trace.tiles.length) (s : Selection) (r : Record) :
    enter s i r (x.put i h w l) = some (.ok (), x.put i
      { h with inRange := h.inRange || decide (s.start.Matches r.pc) }
      { w with start := if s.start.Matches r.pc then some (w.start.getD r.cycle) else w.start }
      (l ++ if s.start.Matches r.pc ∧ h.inRange = false then [.enters r.tile r.cycle r.pc] else [])) := by
  by_cases hstart : s.start.Matches r.pc
  · by_cases hin : h.inRange = true
    · simp [enter, hstart, hin, bind_run, tile_put hi, changeTile_put, changeWindow_put]
    · simp [enter, hstart, hin, bind_run, tile_put hi, note_put, changeTile_put, changeWindow_put]
  · simp [enter, hstart, pure_run]

theorem keep_put (hi : i < x.builder.trace.tiles.length) (r : Record) :
    keep i r (x.put i h w l) = some (.ok (), x.put i
      { h with events := if h.inRange then h.events.insert r.cycle r.event else h.events } w l) := by
  obtain ⟨inRange, events⟩ := h
  cases inRange with
  | false => simp [keep, bind_run, tile_put hi, pure_run]
  | true => simp [keep, bind_run, tile_put hi, changeTile_put]

theorem leave_put (s : Selection) (r : Record) :
    leave s i r (x.put i h w l) = some (.ok (), x.put i
      { h with inRange := h.inRange && !decide (s.Closes r.pc) }
      { w with stop := if s.stop.Matches r.pc then some r.cycle else w.stop }
      (l ++ if s.Closes r.pc then [.leaves r.tile r.cycle] else [])) := by
  cases hstop : s.stop with
  | any => simp [leave, hstop, Selection.Closes, Marker.Matches, changeWindow_put]
  | pc p =>
    by_cases hp : p = r.pc
    · simp [leave, hstop, hp, Selection.Closes, Marker.Matches, bind_run, note_put, changeTile_put,
        changeWindow_put]
    · simp [leave, hstop, hp, Selection.Closes, Marker.Matches, pure_run]

end Work

def Builder.Complete (b : Builder) : Prop :=
  b.trace.tiles.length = b.selection.grid.numTiles

theorem Builder.complete_new (s : Selection) : (Builder.new s).Complete := by
  simp [Builder.Complete, Builder.new, Trace.blank]

def Builder.taken (b : Builder) (i : Nat) (h : History) (r : Record) : Builder :=
  { b with
    trace := { b.trace with
      window := b.trace.window.take b.selection r
      tiles := b.trace.tiles.set i (h.take b.selection r) }
    records := b.records + 1 }

theorem Builder.push_eq {b : Builder} {r : Record} {i : Nat} {h : History}
    (hi : b.selection.grid.index? r.tile = some i) (hh : b.trace.tiles[i]? = some h) :
    b.push r = ⟨entries b.selection h r, .ok (b.taken i h r)⟩ := by
  simp only [push, hi, hh]
  rfl

def Record.refusal (r : Record) (g : Grid) : Failure :=
  .tileOutOfRange r.tile r.cycle g

namespace Work

/-- A record inside the grid is taken, whatever tile it is of, as the builder takes it. -/
theorem push_inside {x : Site} (hx : x.builder.Complete) {r : Record}
    (hr : x.builder.selection.grid.Contains r.tile) : ∃ b l, x.builder.push r = ⟨l, .ok b⟩ ∧
      push r x = some (.ok (), ⟨b, x.log ++ l⟩) ∧ b.Complete ∧ b.selection = x.builder.selection := by
  obtain ⟨i, hi⟩ := hr.index?
  have hlt : i < x.builder.trace.tiles.length := hx ▸ Grid.index?_lt hi
  let h := x.builder.trace.tiles[i]
  let y : Site := { x with builder.records := x.builder.records + 1 }
  have hh : x.builder.trace.tiles[i]? = some h := List.getElem?_eq_getElem hlt
  have hcounted : count x = some (.ok (), y.put i h y.builder.trace.window []) := by
    show some (_, _) = _
    simp [Site.put, y, h]
  have hlt' : i < y.builder.trace.tiles.length := hlt
  refine ⟨x.builder.taken i h r, _, Builder.push_eq hi hh, ?_, ?_, rfl⟩
  · simp only [push, bind_run, get_run, Option.bind_some, hi, hh, tile, Option.map_some, hcounted,
      enter_put hlt', keep_put hlt', leave_put]
    simp [Site.put, y, Builder.taken, Window.take, History.take, Builder.entries]
  · simpa [Builder.Complete, Builder.taken] using hx

theorem push_outside (x : Site) {r : Record} (hr : ¬ x.builder.selection.grid.Contains r.tile) :
    x.builder.push r = .fail (r.refusal x.builder.selection.grid) ∧
      push r x = some (.error (r.refusal x.builder.selection.grid), x) := by
  have hi : x.builder.selection.grid.index? r.tile = none := if_neg hr
  simp only [Builder.push, push, bind_run, get_run, Option.bind_some, hi]
  exact ⟨rfl, rfl⟩

/-- Pushes records one after the other, whether the earlier ones were taken or not. -/
def pushEach : List Record → Site → Option (List (Except Failure Unit) × Site)
  | [], x => some ([], x)
  | r :: rs, x => do
    let (answer, y) ← push r x
    let (answers, z) ← pushEach rs y
    return (answer :: answers, z)

def answer (g : Grid) (r : Record) : Except Failure Unit :=
  if g.Contains r.tile then .ok () else .error (r.refusal g)

theorem answer_eq_ite (g : Grid) (r : Record) :
    answer g r = if g.width ≤ r.tile.x ∨ g.height ≤ r.tile.y then
      .error (.tileOutOfRange r.tile r.cycle g) else .ok () := by
  by_cases hr : g.Contains r.tile
  · rw [answer, if_pos hr, if_neg]
    exact not_or.mpr ⟨Nat.not_le_of_lt hr.1, Nat.not_le_of_lt hr.2⟩
  · rw [answer, if_neg hr, if_pos]
    · rfl
    · unfold Grid.Contains at hr
      omega

theorem pushEach_eq (s : Selection) (rs : List Record) {x : Site} (hx : x.builder.Complete)
    (hs : x.builder.selection = s) :
    ∃ b l, x.builder.pushAll ((rs.filter (s.grid.Contains ·.tile)).map .ok) = ⟨l, .ok b⟩ ∧
      pushEach rs x = some (rs.map (answer s.grid), ⟨b, x.log ++ l⟩) ∧ b.Complete ∧ b.selection = s := by
  induction rs generalizing x with
  | nil => exact ⟨x.builder, [], rfl, by simp [pushEach], hx, hs⟩
  | cons r rs ih =>
    by_cases hr : s.grid.Contains r.tile
    · obtain ⟨b, l, hpush, hwork, hb, hselection⟩ := push_inside hx (hs ▸ hr)
      obtain ⟨c, m, hpushAll, heach, hc⟩ := ih (x := ⟨b, x.log ++ l⟩) hb (hselection.trans hs)
      refine ⟨c, l ++ m, ?_, ?_, hc⟩
      · simp [hr, Builder.pushAll, Report.bind, hpush, hpushAll]
      · simp [pushEach, hwork, heach, answer, hr]
    · obtain ⟨b, l, hpushAll, heach, hb⟩ := ih hx hs
      obtain ⟨-, hwork⟩ := push_outside x (hs ▸ hr)
      refine ⟨b, l, ?_, ?_, hb⟩
      · simpa [hr] using hpushAll
      · simp [pushEach, hwork, heach, answer, hr, hs]

end Work

/-- A run that stops at a refusal stops at the first record outside the grid. -/
theorem Builder.pushAll_refused (rs : List Record) {b : Builder} (hb : b.Complete) {r : Record}
    (hr : rs.find? (fun r => ¬ b.selection.grid.Contains r.tile) = some r) :
    (b.pushAll (rs.map .ok)).result = .error (r.refusal b.selection.grid) := by
  induction rs generalizing b with
  | nil => cases hr
  | cons q rs ih =>
    by_cases hq : b.selection.grid.Contains q.tile
    · obtain ⟨c, l, hpush, -, hc, hselection⟩ := Work.push_inside (x := ⟨b, []⟩) hb hq
      have hrest := ih hc (by simpa [hq, hselection] using hr)
      simp [Builder.pushAll, Report.bind, hpush, hrest, hselection]
    · obtain ⟨hpush, -⟩ := Work.push_outside ⟨b, []⟩ hq
      obtain rfl : q = r := by simpa [hq] using hr
      simp [Builder.pushAll, Report.bind, hpush, Report.fail]

namespace Trace

open Work

/-- The site behind a run is the one behind the records inside the grid, and another record outside of it
does not change it. -/
theorem refused_without_trace (s : Selection) (rs : List Record) :
    ∃ x : Site,
      pushEach rs ⟨.new s, []⟩ = some (rs.map fun r =>
        if s.grid.width ≤ r.tile.x ∨ s.grid.height ≤ r.tile.y then
          .error (.tileOutOfRange r.tile r.cycle s.grid)
        else .ok (), x) ∧
      (∀ r, ¬ s.grid.Contains r.tile → x.builder.push r = .fail (.tileOutOfRange r.tile r.cycle s.grid) ∧
        push r x = some (.error (.tileOutOfRange r.tile r.cycle s.grid), x)) ∧
      (∀ r, s.grid.Contains r.tile → ∃ b l, x.builder.push r = ⟨l, .ok b⟩ ∧
        push r x = some (.ok (), ⟨b, x.log ++ l⟩)) ∧
      (∃ answers, pushEach (rs.filter (s.grid.Contains ·.tile)) ⟨.new s, []⟩ = some (answers, x)) ∧
      (Builder.new s).pushAll ((rs.filter (s.grid.Contains ·.tile)).map .ok) = ⟨x.log, .ok x.builder⟩ ∧
      (∀ r, rs.find? (fun r => ¬ s.grid.Contains r.tile) = some r →
        (build s (rs.map .ok)).result = .error (.tileOutOfRange r.tile r.cycle s.grid)) ∧
      (rs.find? (fun r => ¬ s.grid.Contains r.tile) = none →
        (build s (rs.map .ok)).result = x.builder.finish.result) := by
  have hnew := Builder.complete_new s
  obtain ⟨b, l, hpushAll, heach, hb, hselection⟩ := pushEach_eq s rs (x := ⟨.new s, []⟩) hnew rfl
  obtain ⟨c, m, hpushAll', hinside, -⟩ :=
    pushEach_eq s (rs.filter (s.grid.Contains ·.tile)) (x := ⟨.new s, []⟩) hnew rfl
  rw [List.filter_filter] at hpushAll'
  simp only [Bool.and_self] at hpushAll'
  rw [hpushAll] at hpushAll'
  cases hpushAll'
  refine ⟨⟨b, l⟩, ?_, ?_, ?_, ⟨_, hinside⟩, hpushAll, ?_, ?_⟩
  · rw [List.map_congr_left fun r _ => (answer_eq_ite s.grid r).symm]
    exact heach
  · intro r hr
    have hwork := push_outside ⟨b, l⟩ (hselection ▸ hr)
    rwa [hselection] at hwork
  · intro r hr
    obtain ⟨c, m, hpush, hwork, -⟩ := push_inside (x := ⟨b, l⟩) hb (hselection ▸ hr)
    exact ⟨c, m, hpush, hwork⟩
  · intro r hr
    have hresult := Builder.pushAll_refused rs hnew hr
    simp [build, Report.bind, hresult]
    rfl
  · intro hnone
    have hall : rs.filter (s.grid.Contains ·.tile) = rs := by
      simpa [List.filter_eq_self] using hnone
    rw [hall] at hpushAll
    simp [build, Report.bind, hpushAll]

/-- The record that is refused has the number of the other tile. -/
theorem refused_without_trace_same_number :
    let s : Selection := ⟨.any, .any, .reduced⟩
    let a : Record := ⟨⟨0, 1⟩, 1, ⟨0x1000⟩, "add"⟩
    let b : Record := ⟨⟨4, 0⟩, 2, ⟨0x1004⟩, "jalr"⟩
    let rs := [a, b, a]
    ¬ s.grid.Contains b.tile ∧ rs.find? (fun r => ¬ s.grid.Contains r.tile) = some b ∧
      [a, a].find? (fun r => ¬ s.grid.Contains r.tile) = none ∧
      (∃ x, pushEach rs ⟨.new s, []⟩ = some ([.ok (), .error (.tileOutOfRange ⟨4, 0⟩ 2 .reduced), .ok ()], x) ∧
        push b x = some (.error (.tileOutOfRange ⟨4, 0⟩ 2 .reduced), x)) ∧
      (build s (rs.map .ok)).result = .error (.tileOutOfRange ⟨4, 0⟩ 2 .reduced) ∧
      ∃ t, (build s ([a, a].map .ok)).result = .ok t := by
  intro s a b rs
  have hb : ¬ s.grid.Contains b.tile := by decide
  have hfind : rs.find? (fun r => ¬ s.grid.Contains r.tile) = some b := by decide
  have hnone : [a, a].find? (fun r => ¬ s.grid.Contains r.tile) = none := by decide
  obtain ⟨x, heach, houtside, -, -, -, hrefused, -⟩ := refused_without_trace s rs
  obtain ⟨y, -, -, -, -, -, -, hbuilt⟩ := refused_without_trace s [a, a]
  exact ⟨hb, hfind, hnone, ⟨x, heach, (houtside b hb).2⟩, hrefused b hfind, y.builder.trace, hbuilt hnone⟩

end Trace

end TileTrace
