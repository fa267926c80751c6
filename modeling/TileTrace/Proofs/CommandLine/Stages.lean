import TileTrace.CommandLine.Program
import TileTrace.Proofs.CommandLine.Typed
import TileTrace.Proofs.Render.Acceptance
import TileTrace.Proofs.Snapshot.Storage

/-!
# Working in stages

What one run leaves in a file the next run takes from there. A trace and a disassembly that were
compressed are printed as they would be without any snapshot, in whatever formats they were written.
-/

namespace TileTrace

namespace Snapshot

variable {fs : FileSystem} {name : String}

theorem toList_partialPath (h : Path.IsPlain name) :
    (partialPath name).toList = name.toList ++ ".partial".toList := by
  obtain ⟨directory, hsplit⟩ := Path.splitName?_of_steps (by rw [h.steps]; rfl) h.dot h.dots
  have hname : Path.name? name = some name.toList := by rw [Path.name?, hsplit]; rfl
  rw [partialPath, hname, Option.getD_some, h.withName, String.toList_ofList]

theorem isPlain_partialPath (h : Path.IsPlain name) : Path.IsPlain (partialPath name) := by
  have htext := toList_partialPath h
  have hlength : 8 ≤ (partialPath name).toList.length := by simp [htext]
  have hsuffix : '/' ∉ ".partial".toList ∧ '\x00' ∉ ".partial".toList := by decide
  refine ⟨?_, ?_, ?_, ?_, ?_⟩
  · rw [htext, List.mem_append, not_or]
    exact ⟨h.slash, hsuffix.1⟩
  · rw [htext, List.mem_append, not_or]
    exact ⟨h.zero, hsuffix.2⟩
  · intro hempty
    simp [hempty] at hlength
  · intro hdot
    simp [hdot] at hlength
  · intro hdots
    simp [hdots] at hlength

/-- Where a file can be put at a name and beside it, a snapshot can be saved there. -/
theorem savable_plain (h : Path.IsPlain name) (hworking : fs.HasWorking)
    (ht : fs.Takes (fs.working ++ [name.toList]))
    (ht' : fs.Takes (fs.working ++ [(partialPath name).toList])) :
    Savable fs name (fs.working ++ [name.toList]) (fs.working ++ [(partialPath name).toList]) := by
  have hshort : ∀ n : List Char, fs.Takes (fs.working ++ [n]) → FileSystem.isTooLong n = false := by
    intro n hn
    simpa using hn.1
  exact ⟨FileSystem.locate_plain h hworking (hshort _ ht), ht,
    FileSystem.locate_plain (isPlain_partialPath h) hworking (hshort _ ht'), ht'⟩

end Snapshot

namespace CommandLine

open Reporting hiding bind
open Snapshot

variable {fs fs' : FileSystem} {ws : List String} {s : List UInt8}

/-! ## Runs -/

def runOn (ws : List String) (fs : FileSystem) : Outcome × FileSystem :=
  (run ws : StateM FileSystem Outcome) fs

theorem runOn_eq {c : Command} (h : parse ws = .ok c) (fs : FileSystem) :
    runOn ws fs = (.ofReport ((perform c).on fs).1, ((perform c).on fs).2) := by
  unfold runOn run
  rw [h]
  rfl

theorem runOn_of_ends {c : Command} {text : String} (h : parse ws = .ok c)
    (hends : Ends (perform c) fs (.ok text) fs') :
    (runOn ws fs).1.exit = 0 ∧ (runOn ws fs).1.stdout = text ∧ (runOn ws fs).2 = fs' := by
  obtain ⟨hresult, hfs⟩ := hends
  rw [runOn_eq h]
  simp only [Outcome.ofReport, hresult, hfs, and_self]

theorem runOn_of_ends_error {c : Command} {f : Failure} (h : parse ws = .ok c)
    (hends : Ends (perform c) fs (.error f) fs') : (runOn ws fs).1.exit = 1 ∧ (runOn ws fs).2 = fs' := by
  obtain ⟨hresult, hfs⟩ := hends
  rw [runOn_eq h]
  simp only [Outcome.ofReport, hresult, hfs, and_self]

/-! ## Compressing -/

theorem ends_openInput {path : String} (h : fs.find path = .ok (.file s)) :
    Ends (openInput path) fs (.ok (.ok s)) fs := by
  have hopen := ends_open fs path (.openFile path)
  rwa [h] at hopen

theorem ends_ofReport_during (fs : FileSystem) {α : Type} {r : Report α} {a : α} (activity : Activity)
    (h : r.result = .ok a) :
    Ends (ofReport (r.during activity)) fs (.ok a) fs := by
  have hends : Ends (ofReport (r.during activity)) fs (r.result.mapError (.during activity)) fs :=
    ends_ofReport _
  rwa [h] at hends

theorem ends_ofReport_during_error (fs : FileSystem) {α : Type} {r : Report α} {f : Failure}
    (activity : Activity) (h : r.result = .error f) :
    Ends (ofReport (r.during activity)) fs (.error (.during activity f)) fs := by
  have hends : Ends (ofReport (r.during activity)) fs (r.result.mapError (.during activity)) fs :=
    ends_ofReport _
  rwa [h] at hends

section
variable {o : CompressOptions} {place beside : Place}

theorem ends_compress {t : Trace} (hfind : fs.find o.trace = .ok (.file s))
    (hbuilt : (Trace.ofCsv o.selection s).result = .ok t) (hsave : Savable fs o.output place beside) :
    Ends (compress o) fs (.ok "")
      (moved fs place beside (write (Format.ofPath o.output) (k := .trace) t)) := by
  have hnote : Ends (ofReport (.note (.compressing o.trace o.selection.start o.selection.stop
      o.selection.grid))) fs (.ok ()) fs := ends_ofReport _
  have hbuild := ends_ofReport_during fs (.compressing o.trace) hbuilt
  exact hnote.bind ((ends_openInput hfind).bind
    (hbuild.bind (hsave.ends_save.bind (ends_ofReport (.pure "")))))

theorem ends_compress_error {f : Failure} (hfind : fs.find o.trace = .ok (.file s))
    (hfailed : (Trace.ofCsv o.selection s).result = .error f) :
    Ends (compress o) fs (.error (.during (.compressing o.trace) f)) fs := by
  have hnote : Ends (ofReport (.note (.compressing o.trace o.selection.start o.selection.stop
      o.selection.grid))) fs (.ok ()) fs := ends_ofReport _
  have hbuild := ends_ofReport_during_error fs (.compressing o.trace) hfailed
  exact hnote.bind ((ends_openInput hfind).bind hbuild.bind_error)

theorem runOn_compress (h : parse ws = .ok (.compress o)) (hfind : fs.find o.trace = .ok (.file s))
    (hsave : Savable fs o.output place beside) :
    ((runOn ws fs).1.exit = 0 ↔ ∃ t, (Trace.ofCsv o.selection s).result = .ok t) ∧
      (∀ f, (Trace.ofCsv o.selection s).result = .error f → (runOn ws fs).2 = fs) ∧
      ∀ t, (Trace.ofCsv o.selection s).result = .ok t →
        (runOn ws fs).2 = moved fs place beside (write (Format.ofPath o.output) (k := .trace) t) := by
  cases hbuilt : (Trace.ofCsv o.selection s).result with
  | error f =>
    obtain ⟨hexit, hfs⟩ := runOn_of_ends_error h (ends_compress_error hfind hbuilt)
    exact ⟨by simp [hexit], fun _ _ => hfs, nofun⟩
  | ok t =>
    obtain ⟨hexit, -, hfs⟩ := runOn_of_ends h (ends_compress hfind hbuilt hsave)
    refine ⟨by simp [hexit], nofun, ?_⟩
    intro t' ht'
    obtain rfl := Except.ok.inj ht'
    exact hfs

end

section
variable {o : CompressAsmOptions} {place beside : Place}

theorem ends_compressAsm {d : Disassembly} (hfind : fs.find o.asm = .ok (.file s))
    (hparsed : (Disassembly.ofListing s).result = .ok d) (hsave : Savable fs o.output place beside) :
    Ends (compressAsm o) fs (.ok "")
      (moved fs place beside (write (Format.ofPath o.output) (k := .disassembly) d)) := by
  have hparse := ends_ofReport_during fs (.parsing o.asm) hparsed
  exact (ends_openInput hfind).bind (hparse.bind (hsave.ends_save.bind (ends_ofReport (.pure ""))))

theorem ends_compressAsm_error {f : Failure} (hfind : fs.find o.asm = .ok (.file s))
    (hfailed : (Disassembly.ofListing s).result = .error f) :
    Ends (compressAsm o) fs (.error (.during (.parsing o.asm) f)) fs := by
  have hparse := ends_ofReport_during_error fs (.parsing o.asm) hfailed
  exact (ends_openInput hfind).bind hparse.bind_error

theorem runOn_compressAsm (h : parse ws = .ok (.compressAsm o)) (hfind : fs.find o.asm = .ok (.file s))
    (hsave : Savable fs o.output place beside) :
    ((runOn ws fs).1.exit = 0 ↔ ∃ d, (Disassembly.ofListing s).result = .ok d) ∧
      ∀ d, (Disassembly.ofListing s).result = .ok d →
        (runOn ws fs).2 = moved fs place beside (write (Format.ofPath o.output) (k := .disassembly) d) := by
  cases hparsed : (Disassembly.ofListing s).result with
  | error f =>
    obtain ⟨hexit, -⟩ := runOn_of_ends_error h (ends_compressAsm_error hfind hparsed)
    exact ⟨by simp [hexit], nofun⟩
  | ok d =>
    obtain ⟨hexit, -, hfs⟩ := runOn_of_ends h (ends_compressAsm hfind hparsed hsave)
    refine ⟨by simp [hexit], ?_⟩
    intro d' hd'
    obtain rfl := Except.ok.inj hd'
    exact hfs

end

/-! ## Printing -/

/-- The line trace of a trace with a disassembly, which is of no account unless it is needed. -/
def lineTrace (t : Trace) (d : Disassembly) (ds : List Directive) : Except Failure String := do
  let m ← (Modes.ofDirectives t.grid ds).result
  let r ← Rendering.new t m (if m.needsDisassembly then some d else none)
  r.text

section
variable {t : Trace} {d : Disassembly} {ds : List Directive} {m : Modes}

theorem lineTrace_of_new {r : Rendering} (hm : (Modes.ofDirectives t.grid ds).result = .ok m)
    (hr : Rendering.new t m (if m.needsDisassembly then some d else none) = .ok r) :
    lineTrace t d ds = r.text := by
  unfold lineTrace
  simp only [hm, hr, bind, Except.bind]

theorem lineTrace_eq_error :
    (∃ f, lineTrace t d ds = .error f) ↔ (∃ f, (Modes.ofDirectives t.grid ds).result = .error f) ∨
      ∃ m f, (Modes.ofDirectives t.grid ds).result = .ok m ∧
        Rendering.new t m (if m.needsDisassembly then some d else none) = .error f := by
  cases hm : (Modes.ofDirectives t.grid ds).result with
  | error f => simp [lineTrace, hm, bind, Except.bind]
  | ok m =>
    cases hr : Rendering.new t m (if m.needsDisassembly then some d else none) with
    | error f => simp [lineTrace, hm, hr, bind, Except.bind]
    | ok r =>
      obtain ⟨text, htext⟩ := Rendering.exists_text hr
      simp [lineTrace_of_new hm hr, htext, hr]

theorem ends_loadNeeded {path : String} (hfind : fs.find path = .ok (.file s))
    (hread : read (Format.ofPath path) .disassembly s = .ok d) :
    Ends (loadNeeded m path) fs (.ok (if m.needsDisassembly then some d else none)) fs := by
  unfold loadNeeded
  by_cases hneeds : m.needsDisassembly = true
  · rw [if_pos hneeds, if_pos hneeds]
    exact ((ends_loadDisassembly hfind hread).during (.loadingDisassembly path)).bind
      (ends_ofReport (.pure (some d)))
  · rw [if_neg hneeds, if_neg hneeds]
    exact ends_ofReport (.pure none)

/-- What is printed from snapshots is what is printed of their payloads. -/
theorem ends_print {o : PrintOptions} {s' : List UInt8} (htrace : fs.find o.trace = .ok (.file s))
    (hreadTrace : read (Format.ofPath o.trace) .trace s = .ok t)
    (hdisassembly : fs.find o.disassembly = .ok (.file s'))
    (hread : read (Format.ofPath o.disassembly) .disassembly s' = .ok d) :
    Ends (print o) fs (lineTrace t d o.directives) fs := by
  have hload : Ends (loadTrace o.trace) fs (.ok t) fs := (ends_load htrace hreadTrace).during _
  cases hm : (Modes.ofDirectives t.grid o.directives).result with
  | error f =>
    have hline : lineTrace t d o.directives = .error f := by simp only [lineTrace, hm, bind, Except.bind]
    have hmodes : Ends (ofReport (Modes.ofDirectives t.grid o.directives)) fs (.error f) fs :=
      hm ▸ ends_ofReport _
    rw [hline]
    exact hload.bind hmodes.bind_error
  | ok m =>
    have hmodes : Ends (ofReport (Modes.ofDirectives t.grid o.directives)) fs (.ok m) fs :=
      hm ▸ ends_ofReport _
    have hneeded : Ends (loadNeeded m o.disassembly) fs _ fs := ends_loadNeeded hdisassembly hread
    -- From here on the two computations go through the same steps.
    refine hload.bind (hmodes.bind (hneeded.bind ?_))
    have hnew : Ends (ofReport (.ofResult (Rendering.new t m (if m.needsDisassembly then some d else none)))) fs
        (Rendering.new t m (if m.needsDisassembly then some d else none)) fs := ends_ofReport _
    cases hr : Rendering.new t m (if m.needsDisassembly then some d else none) with
    | error f =>
      have hline : lineTrace t d o.directives = .error f := by simp only [lineTrace, hm, hr, bind, Except.bind]
      rw [hr] at hnew
      rw [hline]
      exact hnew.bind_error
    | ok r =>
      rw [hr] at hnew
      rw [lineTrace_of_new hm hr]
      have hnote : Ends (ofReport (.note (.window t.window))) fs (.ok ()) fs := ends_ofReport _
      exact hnew.bind (hnote.bind (ends_ofReport _))

/-- Printing from snapshots fails only if there are no modes or no rendering of their payloads. -/
theorem runOn_print {o : PrintOptions} {s' : List UInt8} (h : parse ws = .ok (.print o))
    (htrace : fs.find o.trace = .ok (.file s)) (hreadTrace : read (Format.ofPath o.trace) .trace s = .ok t)
    (hdisassembly : fs.find o.disassembly = .ok (.file s'))
    (hread : read (Format.ofPath o.disassembly) .disassembly s' = .ok d) :
    (∀ m r, (Modes.ofDirectives t.grid o.directives).result = .ok m →
      Rendering.new t m (if m.needsDisassembly then some d else none) = .ok r →
      (runOn ws fs).1.exit = 0 ∧ r.text = .ok (runOn ws fs).1.stdout) ∧
    ((runOn ws fs).1.exit ≠ 0 ↔ (∃ f, (Modes.ofDirectives t.grid o.directives).result = .error f) ∨
      ∃ m f, (Modes.ofDirectives t.grid o.directives).result = .ok m ∧
        Rendering.new t m (if m.needsDisassembly then some d else none) = .error f) := by
  have hprint := ends_print htrace hreadTrace hdisassembly hread
  rw [← lineTrace_eq_error]
  constructor
  · intro m r hm hr
    obtain ⟨text, htext⟩ := Rendering.exists_text hr
    rw [lineTrace_of_new hm hr, htext] at hprint
    obtain ⟨hexit, hstdout, -⟩ := runOn_of_ends h hprint
    exact ⟨hexit, hstdout ▸ htext⟩
  · cases hline : lineTrace t d o.directives with
    | error f =>
      rw [hline] at hprint
      obtain ⟨hexit, -⟩ := runOn_of_ends_error h hprint
      simp [hexit]
    | ok text =>
      rw [hline] at hprint
      obtain ⟨hexit, -⟩ := runOn_of_ends h hprint
      simp [hexit]

end

/-! ## Stages -/

/-- Options of three runs of which the last reads the two files that the others write. These are files at
different names in the working directory, they can be written there, and the listing is no file that the
first run writes. -/
structure HandsOn (fs : FileSystem) (c : CompressOptions) (a : CompressAsmOptions) (p : PrintOptions) :
    Prop where
  trace : p.trace = c.output
  disassembly : p.disassembly = a.output
  plain_trace : Path.IsPlain c.output
  plain_asm : Path.IsPlain a.output
  working : fs.HasWorking
  takes_trace : fs.Takes (fs.working ++ [c.output.toList]) ∧
    fs.Takes (fs.working ++ [(partialPath c.output).toList])
  takes_asm : fs.Takes (fs.working ++ [a.output.toList]) ∧
    fs.Takes (fs.working ++ [(partialPath a.output).toList])
  distinct : c.output ≠ a.output ∧ c.output ≠ partialPath a.output
  listing : ∀ place slashes, fs.locate a.asm = .ok (.name place slashes) →
    place ≠ fs.working ++ [c.output.toList] ∧ place ≠ fs.working ++ [(partialPath c.output).toList]

section
variable {c : CompressOptions} {a : CompressAsmOptions} {p : PrintOptions} {s' : List UInt8}

theorem HandsOn.savable (h : HandsOn fs c a p) :
    Savable fs c.output (fs.working ++ [c.output.toList]) (fs.working ++ [(partialPath c.output).toList]) :=
  savable_plain h.plain_trace h.working h.takes_trace.1 h.takes_trace.2

theorem HandsOn.savable' (h : HandsOn fs c a p) (hkeeps : FileSystem.KeepsDirectories fs fs')
    (hback : FileSystem.KeepsDirectories fs' fs) :
    Savable fs' a.output (fs.working ++ [a.output.toList]) (fs.working ++ [(partialPath a.output).toList]) := by
  have htakes := h.takes_asm.1.of_keepsDirectories hback
  have htakes' := h.takes_asm.2.of_keepsDirectories hback
  rw [← hkeeps.working] at htakes htakes' ⊢
  exact savable_plain h.plain_asm (h.working.of_keepsDirectories hkeeps) htakes htakes'

/-- The second run finds the listing, and can write, whatever came of the first. -/
theorem HandsOn.after_compress (h : HandsOn fs c a p) (hparse : parse ws = .ok (.compress c))
    (hcsv : fs.find c.trace = .ok (.file s)) (hlisting : fs.find a.asm = .ok (.file s')) :
    FileSystem.KeepsDirectories fs (runOn ws fs).2 ∧ FileSystem.KeepsDirectories (runOn ws fs).2 fs ∧
      (runOn ws fs).2.find a.asm = .ok (.file s') := by
  obtain ⟨-, hfailed, hbuilt⟩ := runOn_compress hparse hcsv h.savable
  cases hresult : (Trace.ofCsv c.selection s).result with
  | error f =>
    rw [hfailed f hresult]
    exact ⟨.refl fs, .refl fs, hlisting⟩
  | ok t =>
    rw [hbuilt t hresult]
    exact ⟨h.savable.keepsDirectories, h.savable.keepsDirectories_back,
      h.savable.find_moved h.listing hlisting⟩

/-- The third run finds the trace that the first wrote. -/
theorem HandsOn.find_trace (h : HandsOn fs c a p) (hkeeps : FileSystem.KeepsDirectories fs fs')
    (hback : FileSystem.KeepsDirectories fs' fs) (hfind : fs'.find c.output = .ok (.file s)) :
    (moved fs' (fs.working ++ [a.output.toList]) (fs.working ++ [(partialPath a.output).toList]) s').find
      c.output = .ok (.file s) := by
  refine (h.savable' hkeeps hback).find_moved ?_ hfind
  intro q slashes hq
  rw [FileSystem.locate_of_keepsDirectories hkeeps h.savable.leads] at hq
  obtain ⟨rfl, -⟩ := FileSystem.Target.name.inj (Except.ok.inj hq)
  constructor
  · intro heq
    exact h.distinct.1 (String.toList_inj.mp (List.singleton_inj.mp (List.append_cancel_left heq)))
  · intro heq
    exact h.distinct.2 (String.toList_inj.mp (List.singleton_inj.mp (List.append_cancel_left heq)))

end

/-- Compressing a trace succeeds if the trace can be built, and compressing a listing if it can be read.
After both, printing shows the text of the rendering of what was built and read, and fails only if there
are no modes or no rendering. -/
theorem stages_print_directly {c : CompressOptions} {a : CompressAsmOptions} {p : PrintOptions}
    {wc wa wp : List String} {fs : FileSystem} {csv asm : List UInt8} (hands : HandsOn fs c a p)
    (hwc : parse wc = .ok (.compress c)) (hwa : parse wa = .ok (.compressAsm a))
    (hwp : parse wp = .ok (.print p)) (hcsv : fs.find c.trace = .ok (.file csv))
    (hasm : fs.find a.asm = .ok (.file asm))
    (htrace : ∀ t, (Trace.ofCsv c.selection csv).result = .ok t →
      Format.ofPath c.output = .messagePack → t.Sized)
    (hdisassembly : ∀ d, (Disassembly.ofListing asm).result = .ok d →
      Format.ofPath a.output = .messagePack → d.Sized) :
    let compressed := runOn wc fs
    let listed := runOn wa compressed.2
    let printed := runOn wp listed.2
    (compressed.1.exit = 0 ↔ ∃ t, (Trace.ofCsv c.selection csv).result = .ok t) ∧
      (listed.1.exit = 0 ↔ ∃ d, (Disassembly.ofListing asm).result = .ok d) ∧
      ∀ t d, (Trace.ofCsv c.selection csv).result = .ok t → (Disassembly.ofListing asm).result = .ok d →
        (∀ m r, (Modes.ofDirectives t.grid p.directives).result = .ok m →
          Rendering.new t m (if m.needsDisassembly then some d else none) = .ok r →
          printed.1.exit = 0 ∧ r.text = .ok printed.1.stdout) ∧
        (printed.1.exit ≠ 0 ↔ (∃ f, (Modes.ofDirectives t.grid p.directives).result = .error f) ∨
          ∃ m f, (Modes.ofDirectives t.grid p.directives).result = .ok m ∧
            Rendering.new t m (if m.needsDisassembly then some d else none) = .error f) := by
  intro compressed listed printed
  obtain ⟨hexit, -, hfs⟩ := runOn_compress hwc hcsv hands.savable
  obtain ⟨hkeeps, hback, hfound⟩ := hands.after_compress hwc hcsv hasm
  have hsavable := hands.savable' hkeeps hback
  obtain ⟨hexit', hfs'⟩ := runOn_compressAsm hwa hfound hsavable
  refine ⟨hexit, hexit', ?_⟩
  intro t d ht hd
  have hwritten := (hands.savable.replaces (s := write (Format.ofPath c.output) (k := .trace) t)).found
  rw [← hfs t ht] at hwritten
  have htraceFile : listed.2.find p.trace = .ok (.file (write (Format.ofPath c.output) (k := .trace) t)) := by
    rw [hands.trace, show listed.2 = _ from hfs' d hd]
    exact hands.find_trace hkeeps hback hwritten
  have hasmFile : listed.2.find p.disassembly =
      .ok (.file (write (Format.ofPath a.output) (k := .disassembly) d)) := by
    rw [hands.disassembly, show listed.2 = _ from hfs' d hd]
    exact hsavable.replaces.found
  have hreadTrace : read (Format.ofPath p.trace) .trace
      (write (Format.ofPath c.output) (k := .trace) t) = .ok t := by
    rw [hands.trace]
    exact read_write (htrace t ht)
  have hreadAsm : read (Format.ofPath p.disassembly) .disassembly
      (write (Format.ofPath a.output) (k := .disassembly) d) = .ok d := by
    rw [hands.disassembly]
    exact read_write (hdisassembly d hd)
  exact runOn_print hwp htraceFile hreadTrace hasmFile hreadAsm

/-- The second run writes a snapshot of the other format to the name beside that of the first. What it reads
has the name of the first snapshot, but is in the directory above. -/
theorem stages_print_directly_beside :
    let csv := Utf8.encode "x,y,cycle,pc,operation\n0,0,5,1000,add\n".toList
    let asm := Utf8.encode "1000:\t00b50533\tadd\ta0,a1\n".toList
    let c : CompressOptions := ⟨"t.csv", ⟨.pc ⟨0x1000⟩, .any, .reduced⟩, "t.json"⟩
    let a : CompressAsmOptions := ⟨"../t.json", "t.json.partial"⟩
    let os : List PrintOption := [.trace "t.json", .disassembly "t.json.partial", .mode .lo, .range .full 0 1]
    let p : PrintOptions := ⟨"t.json", "t.json.partial", some .lo, { full := [0, 1] }⟩
    let fs : FileSystem := {
      entries := [(["t.json".toList], .file asm), (["work".toList], .directory),
        (["work".toList, "t.csv".toList], .file csv), (["work".toList, "t.json".toList], .file [1])]
      working := ["work".toList] }
    HandsOn fs c a p ∧ fs.find c.trace = .ok (.file csv) ∧ fs.find a.asm = .ok (.file asm) ∧
      ∃ t d, (Trace.ofCsv c.selection csv).result = .ok t ∧ (Disassembly.ofListing asm).result = .ok d ∧
        d.Sized ∧
        let compressed := runOn ("compress" :: c.words) fs
        let listed := runOn ("compress-asm" :: a.words) compressed.2
        let printed := runOn ("print" :: os.flatMap PrintOption.words) listed.2
        compressed.1.exit = 0 ∧ listed.1.exit = 0 ∧ printed.1.exit = 0 ∧
          lineTrace t d p.directives = .ok printed.1.stdout := by
  intro csv asm c a os p fs
  let t : Trace := ⟨.reduced, ⟨some 5, some 5⟩,
    ⟨true, .ofList [(5, ⟨⟨0x1000⟩, "add"⟩)]⟩ :: List.replicate 15 {}⟩
  let d : Disassembly := ⟨.ofList [(⟨0x1000⟩, ["add", "a0,a1"])]⟩
  have hplain : Path.IsPlain c.output := ⟨by decide, by decide, by decide, by decide, by decide⟩
  have hplain' : Path.IsPlain a.output := ⟨by decide, by decide, by decide, by decide, by decide⟩
  have hlisting : fs.locate a.asm = .ok (.name ["t.json".toList] false) := by decide +kernel
  have hands : HandsOn fs c a p :=
    { trace := rfl
      disassembly := rfl
      plain_trace := hplain
      plain_asm := hplain'
      working := rfl
      takes_trace := by decide
      takes_asm := by decide
      distinct := by decide
      listing := by
        intro place slashes hplace
        obtain ⟨rfl, -⟩ := FileSystem.Target.name.inj (Except.ok.inj (hlisting.symm.trans hplace))
        decide }
  have ht : (Trace.ofCsv c.selection csv).result = .ok t := by decide +kernel
  have hd : (Disassembly.ofListing asm).result = .ok d := by decide +kernel
  have hsized : d.Sized := by decide
  have hcsv : fs.find c.trace = .ok (.file csv) := by decide +kernel
  have hasm : fs.find a.asm = .ok (.file asm) := by decide +kernel
  have hwc : parse ("compress" :: c.words) = .ok (.compress c) := parse_compressWords (by decide) (by decide)
  have hwa : parse ("compress-asm" :: a.words) = .ok (.compressAsm a) :=
    parse_compressAsmWords (by decide) (by decide)
  have hwp : parse ("print" :: os.flatMap PrintOption.words) = .ok (.print p) :=
    parse_typed (typed_words (by decide)) (by simp [Once, os, PrintOption.Clashes])
  let m : Modes := ⟨.reduced, some .full :: List.replicate 15 (some .lo)⟩
  have hm : (Modes.ofDirectives t.grid p.directives).result = .ok m := by decide
  have hr : Rendering.new t m (if m.needsDisassembly then some d else none) = .ok ⟨t, m, some d⟩ := by
    with_unfolding_all rfl
  have hsizedAll : ∀ d', (Disassembly.ofListing asm).result = .ok d' →
      Format.ofPath a.output = .messagePack → d'.Sized := by
    intro d' hd' _
    obtain rfl := Except.ok.inj (hd.symm.trans hd')
    exact hsized
  have hjson : ∀ t', (Trace.ofCsv c.selection csv).result = .ok t' →
      Format.ofPath c.output = .messagePack → t'.Sized := by
    intro t' _ hformat
    exact absurd hformat (by decide)
  obtain ⟨hcompress, hlist, hprint⟩ := stages_print_directly hands hwc hwa hwp hcsv hasm hjson hsizedAll
  obtain ⟨hexit, hstdout⟩ := (hprint t d ht hd).1 m _ hm hr
  exact ⟨hands, hcsv, hasm, t, d, ht, hd, hsized, hcompress.mpr ⟨t, ht⟩, hlist.mpr ⟨d, hd⟩, hexit,
    (lineTrace_of_new hm hr).trans hstdout⟩

end CommandLine

end TileTrace
