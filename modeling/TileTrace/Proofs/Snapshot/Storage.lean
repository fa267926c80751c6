import TileTrace.Proofs.Files.Access
import TileTrace.Proofs.Files.Operations
import TileTrace.Proofs.Snapshot.RoundTrip
import TileTrace.Snapshot.Storage

/-!
# Snapshots in files

Saving either replaces the file at a path as a whole or leaves it as it was. The snapshot goes beside the
path first, to a name that is never the one of the path, and only a complete snapshot is moved from there.
-/

namespace TileTrace.Snapshot

open Reporting

variable {fs fs' fs'' : FileSystem} {path : String} {place beside : Place} {s : List UInt8}

/-! ## The place beside a path -/

theorem getLast?_partialPath {n : List Char} (h : (Path.steps path).getLast? = some n) (hdot : n ≠ ['.'])
    (hdots : n ≠ ['.', '.']) :
    (Path.steps (partialPath path)).getLast? = some (n ++ ".partial".toList) := by
  obtain ⟨directory, hsplit⟩ := Path.splitName?_of_steps h hdot hdots
  have hslash : '/' ∉ n := by
    have hmem := List.mem_of_getLast? h
    exact Text.not_mem_of_mem_splitAt ((List.mem_filter.mp hmem).1)
  have hname : partialPath path = Path.ofPieces (directory ++ [n ++ ".partial".toList]) := by
    simp only [partialPath, Path.withName, Path.name?, hsplit, Option.map_some, Option.getD_some]
  rw [hname]
  apply Path.steps_ofPieces_snoc
  · simp [hslash]
  · simp

/-- Nothing is ever written at the place of a path before it is complete. -/
theorem place_ne_beside {slashes slashes' : Bool} (h : fs.locate path = .ok (.name place slashes))
    (h' : fs'.locate (partialPath path) = .ok (.name beside slashes')) : place ≠ beside := by
  obtain ⟨-, -, directory, n, hlast, hdot, hdots, -, rfl⟩ := FileSystem.locate_eq_name.mp h
  obtain ⟨-, -, directory', n', hlast', -, -, -, rfl⟩ := FileSystem.locate_eq_name.mp h'
  rw [getLast?_partialPath hlast hdot hdots] at hlast'
  obtain rfl := Option.some.inj hlast'
  intro heq
  have hn := congrArg (fun q => q.getLast?.map List.length) heq
  simp at hn

/-! ## Writing and moving -/

/-- A path that leads to a place at which a file can be put, as the path beside it does. -/
structure Savable (fs : FileSystem) (path : String) (place beside : Place) : Prop where
  leads : fs.locate path = .ok (.name place false)
  takes : fs.Takes place
  leads_beside : fs.locate (partialPath path) = .ok (.name beside false)
  takes_beside : fs.Takes beside

/-- The file at a path is another, none is beside it any longer, and all else is as it was. -/
structure Replaces (fs fs' : FileSystem) (path : String) (s : List UInt8) : Prop where
  found : fs'.find path = .ok (.file s)
  gone : fs'.find (partialPath path) = .error .notFound
  working : fs'.working = fs.working
  rest : ∃ place beside, fs.locate path = .ok (.name place false) ∧
    fs.locate (partialPath path) = .ok (.name beside false) ∧
      ∀ q, q ≠ place → q ≠ beside → fs'.get? q = fs.get? q

/-- A file was written beside a path but could not be moved there. All else is as it was, and so is what
is found at the path. -/
structure Strands (fs fs' : FileSystem) (path : String) (s : List UInt8) (f : FileFault) : Prop where
  created : fs.create (partialPath path) s = .ok fs'
  stuck : fs'.move (partialPath path) path = .error f
  found : fs'.find (partialPath path) = .ok (.file s)
  target : ∀ e, fs'.find path = .ok e ↔ fs.find path = .ok e
  working : fs'.working = fs.working
  rest : ∃ beside, fs.locate (partialPath path) = .ok (.name beside false) ∧
    (∀ place slashes, fs.locate path = .ok (.name place slashes) → place ≠ beside) ∧
      ∀ q, q ≠ beside → fs'.get? q = fs.get? q

def moved (fs : FileSystem) (place beside : Place) (s : List UInt8) : FileSystem :=
  ((fs.set beside (.file s)).erase beside).set place (.file s)

theorem Savable.ne (h : Savable fs path place beside) : place ≠ beside :=
  place_ne_beside h.leads h.leads_beside

theorem Savable.get?_moved (h : Savable fs path place beside) (q : Place) :
    (moved fs place beside s).get? q =
      if q = place then some (.file s) else if q = beside then none else fs.get? q := by
  have hbeside := FileSystem.ne_nil_of_locate h.leads_beside
  unfold moved
  rw [FileSystem.get?_set _ (FileSystem.ne_nil_of_locate h.leads), FileSystem.get?_erase _ hbeside,
    FileSystem.get?_set _ hbeside]
  by_cases hq : q = beside
  · simp [hq]
  · simp [hq]

theorem Savable.keepsDirectories (h : Savable fs path place beside) :
    FileSystem.KeepsDirectories fs (moved fs place beside s) := by
  refine ⟨rfl, fun q hq => ?_⟩
  have hplace : q ≠ place := fun heq => h.takes.2 (heq ▸ hq)
  have hbeside : q ≠ beside := fun heq => h.takes_beside.2 (heq ▸ hq)
  rw [h.get?_moved, if_neg hplace, if_neg hbeside, hq]

theorem Savable.keepsDirectories_back (h : Savable fs path place beside) :
    FileSystem.KeepsDirectories (moved fs place beside s) fs := by
  refine ⟨rfl, fun q hq => ?_⟩
  rw [h.get?_moved] at hq
  by_cases hplace : q = place
  · rw [if_pos hplace] at hq
    cases hq
  · by_cases hbeside : q = beside
    · rw [if_neg hplace, if_pos hbeside] at hq
      cases hq
    · rwa [if_neg hplace, if_neg hbeside] at hq

/-- What is found elsewhere is found there after saving too. -/
theorem Savable.find_moved {p : String} {e : Entry} (h : Savable fs path place beside)
    (hother : ∀ q slashes, fs.locate p = .ok (.name q slashes) → q ≠ place ∧ q ≠ beside)
    (he : fs.find p = .ok e) : (moved fs place beside s).find p = .ok e := by
  refine FileSystem.find_of_keepsDirectories h.keepsDirectories ?_ he
  intro q slashes hq
  rw [h.get?_moved, if_neg (hother q slashes hq).1, if_neg (hother q slashes hq).2]

theorem create_move_eq_ok :
    (∃ fs', fs.create (partialPath path) s = .ok fs' ∧ fs'.move (partialPath path) path = .ok fs'') ↔
      ∃ place beside, Savable fs path place beside ∧ moved fs place beside s = fs'' := by
  constructor
  · intro ⟨fs', hcreate, hmove⟩
    obtain ⟨beside, hbeside, htakes', rfl⟩ := FileSystem.create_eq_ok.mp hcreate
    have hnil := FileSystem.ne_nil_of_locate hbeside
    have hkeeps := FileSystem.KeepsDirectories.set_file hnil htakes'.2 s
    obtain ⟨origin, place, s', horigin, hplace, hthere, htakes, rfl⟩ := FileSystem.move_eq_ok.mp hmove
    -- Writing a file moves no directory, so that the path beside still leads to the same place.
    rw [FileSystem.locate_of_keepsDirectories hkeeps hbeside] at horigin
    obtain ⟨rfl, -⟩ := FileSystem.Target.name.inj (Except.ok.inj horigin)
    have hfile := (FileSystem.entry?_eq_ok.mp hthere).2
    rw [FileSystem.get?_set fs hnil, if_pos rfl] at hfile
    obtain rfl := Entry.file.inj (Option.some.inj hfile)
    have hback := FileSystem.locate_of_keepsDirectories (FileSystem.KeepsDirectories.of_set_file hnil s) hplace
    have hnot := htakes.2
    rw [FileSystem.get?_set fs hnil, if_neg (place_ne_beside hback hbeside)] at hnot
    exact ⟨place, beside, ⟨hback, ⟨htakes.1, hnot⟩, hbeside, htakes'⟩, rfl⟩
  · intro ⟨place, beside, h, hmoved⟩
    have hnil := FileSystem.ne_nil_of_locate h.leads_beside
    have hkeeps := FileSystem.KeepsDirectories.set_file hnil h.takes_beside.2 s
    -- What is moved away stood beside the place, where it was no obstacle.
    have hnot : (fs.set beside (.file s)).get? place ≠ some .directory := by
      rw [FileSystem.get?_set fs hnil, if_neg h.ne]
      exact h.takes.2
    have hthere : (fs.set beside (.file s)).get? beside = some (.file s) := by
      rw [FileSystem.get?_set fs hnil, if_pos rfl]
    refine ⟨_, FileSystem.create_eq_ok.mpr ⟨beside, h.leads_beside, h.takes_beside, rfl⟩,
      FileSystem.move_eq_ok.mpr ⟨beside, place, s, ?_, ?_, ?_, ?_, hmoved⟩⟩
    · exact FileSystem.locate_of_keepsDirectories hkeeps h.leads_beside
    · exact FileSystem.locate_of_keepsDirectories hkeeps h.leads
    · exact FileSystem.entry?_eq_ok.mpr ⟨h.takes_beside.1, hthere⟩
    · exact ⟨h.takes.1, hnot⟩

theorem Savable.replaces (h : Savable fs path place beside) :
    Replaces fs (moved fs place beside s) path s := by
  have hplace := FileSystem.locate_of_keepsDirectories (h.keepsDirectories (s := s)) h.leads
  have hbeside := FileSystem.locate_of_keepsDirectories (h.keepsDirectories (s := s)) h.leads_beside
  have hthere : (moved fs place beside s).get? place = some (.file s) := by
    rw [h.get?_moved, if_pos rfl]
  have hgone : (moved fs place beside s).get? beside = none := by
    rw [h.get?_moved, if_neg h.ne.symm, if_pos rfl]
  refine ⟨?_, ?_, rfl, place, beside, h.leads, h.leads_beside, ?_⟩
  · exact FileSystem.find_eq_file.mpr ⟨place, hplace, FileSystem.entry?_eq_ok.mpr ⟨h.takes.1, hthere⟩⟩
  · exact FileSystem.find_of_entry?_none hbeside (FileSystem.entry?_eq_ok.mpr ⟨h.takes_beside.1, hgone⟩)
  · intro q hq hq'
    rw [h.get?_moved, if_neg hq, if_neg hq']

theorem strands_of_move_error {f : FileFault} (hcreate : fs.create (partialPath path) s = .ok fs')
    (hmove : fs'.move (partialPath path) path = .error f) : Strands fs fs' path s f := by
  obtain ⟨beside, hbeside, htakes, hset⟩ := FileSystem.create_eq_ok.mp hcreate
  have hnil := FileSystem.ne_nil_of_locate hbeside
  have hkeeps : FileSystem.KeepsDirectories fs fs' :=
    hset ▸ FileSystem.KeepsDirectories.set_file hnil htakes.2 s
  have hback : FileSystem.KeepsDirectories fs' fs := hset ▸ FileSystem.KeepsDirectories.of_set_file hnil s
  have hbeside' := FileSystem.locate_of_keepsDirectories hkeeps hbeside
  have hthere : fs'.get? beside = some (.file s) := by
    rw [← hset, FileSystem.get?_set fs hnil, if_pos rfl]
  have hrest : ∀ q, q ≠ beside → fs'.get? q = fs.get? q := by
    intro q hq
    rw [← hset, FileSystem.get?_set fs hnil, if_neg hq]
  refine ⟨hcreate, hmove, ?_, ?_, hkeeps.working, beside, hbeside, ?_, hrest⟩
  · exact FileSystem.find_eq_file.mpr
      ⟨beside, hbeside', FileSystem.entry?_eq_ok.mpr ⟨htakes.1, hthere⟩⟩
  · -- The place of the path is another than the one beside, where alone something changed.
    intro e
    constructor
    · apply FileSystem.find_of_keepsDirectories hback
      intro place slashes hplace
      exact (hrest place (place_ne_beside hplace hbeside)).symm
    · apply FileSystem.find_of_keepsDirectories hkeeps
      intro place slashes hplace
      exact hrest place (place_ne_beside hplace hbeside)
  · intro place slashes hplace
    exact place_ne_beside hplace hbeside

/-! ## Saving and loading -/

theorem ends_writePartial (h : fs.create path s = .ok fs') : Ends (writePartial path s) fs (.ok ()) fs' := by
  have hrun : (writePartial path s).on fs = (.pure (), fs') :=
    bind_of_eq (keep_of_ok (·.create path s) h) _
  unfold Ends
  rw [hrun]
  exact ⟨rfl, rfl⟩

theorem ends_writePartial_error {f : FileFault} (h : fs.create path s = .error f) :
    Ends (writePartial path s) fs (.error (.openFile path f)) fs := by
  obtain ⟨g, hg⟩ := FileSystem.remove_of_create_error h
  have hrun : (writePartial path s).on fs = (.fail (.openFile path f), fs) :=
    (bind_of_eq (keep_of_error (·.create path s) h) _).trans
      (bind_of_eq (keep_of_error (·.remove path) hg) _)
  unfold Ends
  rw [hrun]
  exact ⟨rfl, rfl⟩

section
variable {k : Kind} {p : k.Payload}

theorem ends_save_of_create_error {f : FileFault}
    (h : fs.create (partialPath path) (write (Format.ofPath path) p) = .error f) :
    Ends (save p path) fs (.error (.openFile (partialPath path) f)) fs :=
  (ends_writePartial_error h).bind_error

theorem ends_save_of_move_error {f : FileFault}
    (hcreate : fs.create (partialPath path) (write (Format.ofPath path) p) = .ok fs')
    (hmove : fs'.move (partialPath path) path = .error f) : Ends (save p path) fs (.error (.file f)) fs' :=
  (ends_writePartial hcreate).bind (ends_move_error .file hmove).bind_error

theorem ends_save_of_move (hcreate : fs.create (partialPath path) (write (Format.ofPath path) p) = .ok fs')
    (hmove : fs'.move (partialPath path) path = .ok fs'') : Ends (save p path) fs (.ok ()) fs'' :=
  (ends_writePartial hcreate).bind ((ends_move .file hmove).bind (ends_ofReport _))

theorem Savable.ends_save (h : Savable fs path place beside) :
    Ends (save p path) fs (.ok ()) (moved fs place beside (write (Format.ofPath path) p)) := by
  obtain ⟨fs', hcreate, hmove⟩ := create_move_eq_ok.mpr ⟨place, beside, h, rfl⟩
  exact ends_save_of_move hcreate hmove

theorem ends_load (hfind : fs.find path = .ok (.file s)) (hread : read (Format.ofPath path) k s = .ok p) :
    Ends (load k path) fs (.ok p) fs := by
  have hopen : Ends (ofAction (.openFile path) (Files.openFile path)) fs (.ok (.ok s)) fs := by
    have h := ends_open fs path (.openFile path)
    rwa [hfind] at h
  have hcontent : Ends (ofReport (.ofResult ((Except.ok s).mapError .file))) fs (.ok s) fs :=
    ends_ofReport _
  have hresult : Ends (ofReport (.ofResult ((read (Format.ofPath path) k s).mapError .snapshot))) fs (.ok p)
      fs := by
    rw [hread]
    exact ends_ofReport _
  have hnote : Ends (ofReport (.note (.loaded k path))) fs (.ok ()) fs := ends_ofReport _
  have hpure : Ends (pure p) fs (.ok p) fs := ends_ofReport (.pure p)
  exact hopen.bind (hcontent.bind (hresult.bind (hnote.bind hpure)))

theorem ends_loadDisassembly {d : Disassembly} (hfind : fs.find path = .ok (.file s))
    (hread : read (Format.ofPath path) .disassembly s = .ok d) : Ends (loadDisassembly path) fs (.ok d) fs := by
  obtain ⟨hresult, hfs⟩ := ends_load hfind hread
  have hon : (loadDisassembly path).on fs = (load .disassembly path).on fs := by
    unfold loadDisassembly
    rw [on_run_bind]
    simp only [hresult]
    rfl
  unfold Ends
  rw [hon]
  exact ⟨hresult, hfs⟩

theorem read_write {fmt : Format} (h : fmt = .messagePack → p.Sized) : read fmt k (write fmt p) = .ok p :=
  read_of_decodeWith (decodeWith_encode fun hfmt => encodable_envelope (h hfmt) 1017)

end

/-- A snapshot is saved if a file can be put at its path and beside it. Then the file at the path is the
snapshot, and it can be loaded from there. Otherwise what is at the path stays, and so does everything else
but what is beside the path: if it could be put there and not be moved, the snapshot stays there. -/
theorem save_all_or_nothing {k : Kind} (p : k.Payload) (path : String) (fs : FileSystem)
    (hp : Format.ofPath path = .messagePack → p.Sized) :
    let s := write (Format.ofPath path) p
    ∃ r fs', Ends (save p path) fs r fs' ∧
      (r = .ok () ↔ ∃ place beside, Savable fs path place beside) ∧
      (r = .ok () → Replaces fs fs' path s ∧ Ends (load k path) fs' (.ok p) fs') ∧
      (∀ f, r = .error f → fs' = fs ∨ ∃ fault, f = .file fault ∧ Strands fs fs' path s fault) := by
  intro s
  cases hcreate : fs.create (partialPath path) s with
  | error f =>
    have hends := ends_save_of_create_error hcreate
    refine ⟨_, fs, hends, ?_, nofun, fun g _ => .inl rfl⟩
    exact ⟨nofun, fun ⟨_, _, h⟩ => hends.result_eq h.ends_save⟩
  | ok fs' =>
    cases hmove : fs'.move (partialPath path) path with
    | error f =>
      have hends := ends_save_of_move_error hcreate hmove
      refine ⟨_, fs', hends, ⟨nofun, fun ⟨_, _, h⟩ => hends.result_eq h.ends_save⟩, nofun, ?_⟩
      intro g hg
      obtain rfl := Except.error.inj hg
      exact .inr ⟨f, rfl, strands_of_move_error hcreate hmove⟩
    | ok fs'' =>
      obtain ⟨place, beside, h, rfl⟩ := create_move_eq_ok.mp ⟨fs', hcreate, hmove⟩
      have hreplaces := h.replaces (s := s)
      refine ⟨_, _, ends_save_of_move hcreate hmove, ⟨fun _ => ⟨place, beside, h⟩, fun _ => rfl⟩, ?_, nofun⟩
      intro _
      exact ⟨hreplaces, ends_load hreplaces.found (read_write hp)⟩

/-- What a save left beside its path is written over, and so is the snapshot at the path. -/
theorem save_all_or_nothing_stale :
    let fs : FileSystem := {
      entries := [(["work".toList], .directory), (["out".toList], .directory),
        (["out".toList, "t.snap".toList], .file [1]), (["out".toList, "t.snap.partial".toList], .file [2, 3])]
      working := ["work".toList] }
    let t : Trace := .blank .reduced
    (Format.ofPath "../out/t.snap" = .messagePack → t.Sized) ∧
      ∃ fs', Ends (save (k := .trace) t "../out/t.snap") fs (.ok ()) fs' ∧
        Replaces fs fs' "../out/t.snap" (write .messagePack (k := .trace) t) ∧
          Ends (load .trace "../out/t.snap") fs' (.ok t) fs' := by
  intro fs t
  have hsized : Format.ofPath "../out/t.snap" = .messagePack → t.Sized := fun _ => by decide
  have hsavable : Savable fs "../out/t.snap" ["out".toList, "t.snap".toList]
      ["out".toList, "t.snap.partial".toList] := ⟨rfl, by decide, rfl, by decide⟩
  have hformat : Format.ofPath "../out/t.snap" = .messagePack := rfl
  obtain ⟨r, fs', hends, hok, hreplaces, -⟩ := save_all_or_nothing (k := .trace) t "../out/t.snap" fs hsized
  obtain rfl := hok.mpr ⟨_, _, hsavable⟩
  rw [hformat] at hreplaces
  exact ⟨hsized, fs', hends, hreplaces rfl⟩

end TileTrace.Snapshot
