import TileTrace.Proofs.CommandLine.Stages
import TileTrace.Proofs.Files.Way
import TileTrace.Proofs.Mode.Assignment
import TileTrace.Proofs.Render.Writing

/-!
# Printing all or nothing

Whatever can go wrong with printing goes wrong before the first piece of the line trace is shown, so that
showing the pieces one by one comes to the same as showing the whole text. The dictionary is looked at only
if a tile of the trace ends up in full mode.
-/

namespace TileTrace

namespace CommandLine

open Reporting hiding bind
open Snapshot

variable {fs fs' : FileSystem} {ws : List String} {path : String} {o : PrintOptions}

/-! ## Reading files alike -/

theorem readsAlike_load {k : Kind} (h : fs'.find path = fs.find path) :
    ReadsAlike (load k path) fs fs' := by
  refine (readsAlike_open _ h).bind fun opened _ => ?_
  refine (readsAlike_ofReport _).bind fun content _ => ?_
  refine (readsAlike_ofReport _).bind fun p _ => ?_
  exact (readsAlike_ofReport _).bind fun _ _ => readsAlike_ofReport (.pure p)

/-- That there is no dictionary is told by the failure to open it, which both file systems share. -/
theorem readsAlike_loadDisassembly (h : fs'.find path = fs.find path) :
    ReadsAlike (loadDisassembly path) fs fs' := by
  refine (readsAlike_load h).changed ?_
  rintro ⟨log, result⟩
  cases result with
  | ok d => exact ⟨_, rfl⟩
  | error f =>
    cases f with
    | openFile path fault => cases fault <;> exact ⟨_, rfl⟩
    | _ => exact ⟨_, rfl⟩

theorem readsAlike_loadNeeded {m : Modes} (h : m.needsDisassembly = true → fs'.find path = fs.find path) :
    ReadsAlike (loadNeeded m path) fs fs' := by
  unfold loadNeeded
  by_cases hneeds : m.needsDisassembly = true
  · rw [if_pos hneeds]
    exact ((readsAlike_loadDisassembly (h hneeds)).during _).bind fun d _ =>
      readsAlike_ofReport (.pure (some d))
  · rw [if_neg hneeds]
    exact readsAlike_ofReport (.pure none)

/-! ## Before the first piece -/

/-- Everything that printing does before the first piece of the line trace is shown. -/
def prepare {m : Type → Type} [Monad m] [Files m] (o : PrintOptions) : Reporting m Rendering := do
  let trace ← loadTrace o.trace
  let modes ← Reporting.ofReport (Modes.ofDirectives trace.grid o.directives)
  let disassembly ← loadNeeded modes o.disassembly
  let rendering ← Reporting.ofReport (.ofResult (Rendering.new trace modes disassembly))
  Reporting.ofReport (.note (.window trace.window))
  return rendering

theorem print_eq_prepare (o : PrintOptions) :
    (print o : Reporting (StateM FileSystem) String) =
      prepare o >>= fun r => Reporting.ofReport (.ofResult r.text) := by
  unfold print prepare
  simp only [bind_bind_eq, pure_bind_eq]

/-- The dictionary has to be the same only if the modes of the trace need it. -/
theorem readsAlike_prepare (htrace : fs'.find o.trace = fs.find o.trace)
    (hdisassembly : ∀ t m, ((loadTrace o.trace).on fs).1.result = .ok t →
      (Modes.ofDirectives t.grid o.directives).result = .ok m → m.needsDisassembly = true →
        fs'.find o.disassembly = fs.find o.disassembly) :
    ReadsAlike (prepare o) fs fs' := by
  refine ((readsAlike_load htrace).during _).bind fun t ht => ?_
  refine (readsAlike_ofReport _).bind fun m hm => ?_
  refine (readsAlike_loadNeeded (hdisassembly t m ht hm)).bind fun d _ => ?_
  refine (readsAlike_ofReport _).bind fun r _ => ?_
  exact (readsAlike_ofReport _).bind fun _ _ => readsAlike_ofReport (.pure r)

theorem new_of_prepare {r : Rendering} (h : ((prepare o).on fs).1.result = .ok r) :
    ∃ t m d, Rendering.new t m d = .ok r := by
  obtain ⟨t, -, h⟩ := result_bind_eq_ok h
  obtain ⟨m, -, h⟩ := result_bind_eq_ok h
  obtain ⟨d, -, h⟩ := result_bind_eq_ok h
  obtain ⟨r', hr', h⟩ := result_bind_eq_ok h
  obtain ⟨-, -, h⟩ := result_bind_eq_ok h
  obtain rfl : r' = r := Except.ok.inj h
  exact ⟨t, m, d, hr'⟩

/-! ## Piece by piece -/

/-- How a run ended that shows pieces one by one. What was shown before a failure stays. -/
def Outcome.ofPrepared (prepared : Report Rendering) : Outcome :=
  let log := prepared.log.filter (·.level.isNotice)
  match prepared.result with
  | .error f => { exit := 1, errors := f.chain, log }
  | .ok r =>
    let stdout := String.ofList r.written.text
    match r.written.failure with
    | none => { exit := 0, stdout, log }
    | some f => { exit := 1, stdout, errors := f.chain, log }

/-- Printing with every piece of the line trace shown as soon as it is there. -/
def showPieces {m : Type → Type} [Monad m] [Files m] (o : PrintOptions) : m Outcome := do
  return .ofPrepared (← (prepare o).run)

theorem ofPrepared_eq_ofReport {prepared : Report Rendering}
    (h : ∀ r, prepared.result = .ok r → ∃ text, r.text = .ok text) :
    Outcome.ofPrepared prepared = .ofReport (prepared.bind fun r => .ofResult r.text) := by
  unfold Outcome.ofPrepared Outcome.ofReport Report.bind
  cases hr : prepared.result with
  | error f => rfl
  | ok r =>
    obtain ⟨text, htext⟩ := h r hr
    obtain ⟨hfailure, hwritten⟩ := Rendering.written_of_text htext
    simp only [hfailure, hwritten, htext, Report.ofResult, List.append_nil]

theorem showPieces_eq (h : parse ws = .ok (.print o)) (fs : FileSystem) :
    (showPieces o : StateM FileSystem Outcome) fs = runOn ws fs := by
  -- What is prepared was accepted, so that every field of it can be written.
  have htext : ∀ r, ((prepare o).on fs).1.result = .ok r → ∃ text, r.text = .ok text := by
    intro r hr
    obtain ⟨t, m, d, hnew⟩ := new_of_prepare hr
    exact Rendering.exists_text hnew
  rw [runOn_eq h]
  show (Outcome.ofPrepared ((prepare o).on fs).1, ((prepare o).on fs).2) =
    (.ofReport ((print o).on fs).1, ((print o).on fs).2)
  rw [print_eq_prepare, on_bind_ofReport, ofPrepared_eq_ofReport htext]

theorem stdout_of_exit (h : parse ws = .ok (.print o)) (hexit : (runOn ws fs).1.exit ≠ 0) :
    (runOn ws fs).1.stdout = "" := by
  rw [runOn_eq h] at hexit ⊢
  unfold Outcome.ofReport at hexit ⊢
  split at hexit
  · exact absurd rfl hexit
  · rfl

theorem runOn_of_readsAlike (h : parse ws = .ok (.print o)) (hprepare : ReadsAlike (prepare o) fs fs') :
    (runOn ws fs').1 = (runOn ws fs).1 ∧ (runOn ws fs).2 = fs := by
  rw [← showPieces_eq h, ← showPieces_eq h]
  exact ⟨congrArg Outcome.ofPrepared hprepare.same, hprepare.keeps⟩

def NoneInFull (o : PrintOptions) (fs : FileSystem) : Prop :=
  ∀ t m, ((loadTrace o.trace).on fs).1.result = .ok t →
    (Modes.ofDirectives t.grid o.directives).result = .ok m → ∀ tile ∈ t.grid.tiles, m.get? tile ≠ some .full

theorem runOn_of_noneInFull (h : parse ws = .ok (.print o)) (hnone : NoneInFull o fs)
    (htrace : fs'.find o.trace = fs.find o.trace) : (runOn ws fs').1 = (runOn ws fs).1 := by
  refine (runOn_of_readsAlike h (readsAlike_prepare htrace ?_)).1
  -- The dictionary would be asked for only on account of a tile in full mode.
  intro t m ht hm hneeds
  obtain ⟨-, hdecided⟩ := Modes.ofDirectives_eq_ok.mp hm
  have hplaces : m.assigned.length = m.grid.numTiles := by simp [hdecided]
  obtain ⟨tile, htile, hfull⟩ := (Modes.needsDisassembly_iff_get? hplaces).mp hneeds
  rw [hdecided] at htile
  exact absurd hfull (hnone t m ht hm tile htile)

/-- Printing changes no file. Shown piece by piece, the line trace is shown as a whole or not at all. If no
tile of the trace is in full mode, the outcome is that of any other file system with the same trace. Such
are those that differ only at the dictionary, if the path of the trace does not lead there. -/
theorem print_all_or_nothing (h : parse ws = .ok (.print o)) (fs : FileSystem) :
    let shown := (showPieces o : StateM FileSystem Outcome) fs
    shown = runOn ws fs ∧ shown.2 = fs ∧ (shown.1.exit ≠ 0 → shown.1.stdout = "") ∧
      (NoneInFull o fs →
        (∀ fs', fs'.find o.trace = fs.find o.trace → (runOn ws fs').1 = shown.1) ∧
        ∀ place slashes fs', fs.locate o.disassembly = .ok (.name place slashes) →
          fs.Avoids o.trace place → FileSystem.DifferAt place fs fs' →
            (runOn ws fs').1 = shown.1) := by
  intro shown
  have hshown : shown = runOn ws fs := showPieces_eq h fs
  have hprepare : ReadsAlike (prepare o) fs fs := readsAlike_prepare rfl fun _ _ _ _ _ => rfl
  have hkeeps := (runOn_of_readsAlike h hprepare).2
  rw [hshown]
  refine ⟨rfl, hkeeps, stdout_of_exit h, ?_⟩
  intro hnone
  refine ⟨fun fs' htrace => runOn_of_noneInFull h hnone htrace, ?_⟩
  intro place slashes fs' _ havoids hdiffer
  exact runOn_of_noneInFull h hnone (FileSystem.find_of_avoids hdiffer havoids)

/-- Full mode is overwritten on the grid and goes on beyond it. Where the dictionary is missing, which is in the
directory above, there may as well be a directory. -/
theorem print_all_or_nothing_overwritten :
    let os : List PrintOption :=
      [.trace "t.json", .disassembly "../d.json", .mode .full, .range .full 16 20, .range .lo 0 100]
    let o : PrintOptions := ⟨"t.json", "../d.json", some .full, { lo := [0, 100], full := [16, 20] }⟩
    let t : Trace := ⟨.reduced, ⟨some 5, some 5⟩, [⟨true, .ofList [(5, ⟨⟨0x1000⟩, "add"⟩)]⟩]⟩
    let fs : FileSystem := {
      entries := [(["work".toList], .directory),
        (["work".toList, "t.json".toList], .file (write .json (k := .trace) t))]
      working := ["work".toList] }
    let fs' := fs.set ["d.json".toList] .directory
    let ws := "print" :: os.flatMap PrintOption.words
    parse ws = .ok (.print o) ∧ NoneInFull o fs ∧
      fs.locate o.disassembly = .ok (.name ["d.json".toList] false) ∧
      fs.Avoids o.trace ["d.json".toList] ∧ FileSystem.DifferAt ["d.json".toList] fs fs' ∧
      (runOn ws fs').1 = (runOn ws fs).1 ∧ (runOn ws fs').1.stdout = "Tiles\t0\nCycles\t0\n5\t@\n" := by
  intro os o t fs fs' ws
  have hparse : parse ws = .ok (.print o) :=
    parse_typed (typed_words (by decide)) (by simp [Once, os, PrintOption.Clashes])
  have hfind : fs.find o.trace = .ok (.file (write .json (k := .trace) t)) := by decide +kernel
  have hread : read (Format.ofPath o.trace) .trace (write .json (k := .trace) t) = .ok t := by
    have hformat : Format.ofPath o.trace = .json := by decide +kernel
    rw [hformat]
    exact read_write fun h => absurd h (by decide)
  have hload : Ends (loadTrace o.trace) fs (.ok t) fs := (ends_load hfind hread).during _
  have hnone : NoneInFull o fs := by
    intro t' m ht hm
    obtain rfl := Except.ok.inj (hload.1.symm.trans ht)
    have hmodes : (Modes.ofDirectives t.grid o.directives).result =
        .ok ⟨.reduced, List.replicate 16 (some .lo)⟩ := by decide
    obtain rfl := Except.ok.inj (hmodes.symm.trans hm)
    decide
  have hlocate : fs.locate o.trace = .ok (.name ["work".toList, "t.json".toList] false) := by decide +kernel
  have hlocate' : fs.locate o.disassembly = .ok (.name ["d.json".toList] false) := by decide +kernel
  have havoids : fs.Avoids o.trace ["d.json".toList] :=
    FileSystem.avoids_of_locate hlocate (by decide) (by decide)
  have hdiffer : FileSystem.DifferAt ["d.json".toList] fs fs' := FileSystem.differAt_set (by decide) _
  obtain ⟨hshown, -, -, hsame⟩ := print_all_or_nothing hparse fs
  have heq : (runOn ws fs').1 = (runOn ws fs).1 :=
    ((hsame hnone).2 _ _ fs' hlocate' havoids hdiffer).trans (congrArg (·.1) hshown)
  have hstdout : (runOn ws fs).1.stdout = "Tiles\t0\nCycles\t0\n5\t@\n" := by decide +kernel
  exact ⟨hparse, hnone, hlocate', havoids, hdiffer, heq, heq ▸ hstdout⟩

end CommandLine

end TileTrace
