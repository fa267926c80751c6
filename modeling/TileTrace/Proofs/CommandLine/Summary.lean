import TileTrace.Proofs.CommandLine.Stages
import TileTrace.Proofs.Trace.Summary

/-!
# Summaries of snapshots

Whatever snapshot of a trace can be loaded, its summary is shown. The counts of the lines make up the total
unless the snapshot has histories with events behind the last tile of its grid.
-/

namespace TileTrace.CommandLine

open Reporting hiding bind
open Snapshot

def summaryText (t : Trace) (total : Nat) (ls : List Trace.TileLine) : String :=
  String.join ((Trace.headLine t total :: ls.map Trace.TileLine.text).map (· ++ "\n"))

theorem summary_eq_summaryText (t : Trace) : t.summary = summaryText t t.numEvents (Trace.tileLines t) := by
  rw [Trace.summary, Trace.summaryLines_eq, summaryText]

theorem length_le_count_join (ss : List String) :
    ss.length ≤ (String.join (ss.map (· ++ "\n"))).toList.count '\n' := by
  induction ss with
  | nil => exact Nat.zero_le _
  | cons s ss ih =>
    have hs : 1 ≤ (s ++ "\n").toList.count '\n' := by simp
    rw [List.map_cons, String.join_cons, String.toList_append, List.count_append, List.length_cons]
    omega

theorem length_lt_count_summaryText (t : Trace) (total : Nat) (ls : List Trace.TileLine) :
    ls.length < (summaryText t total ls).toList.count '\n' := by
  have h := length_le_count_join (Trace.headLine t total :: ls.map Trace.TileLine.text)
  rwa [List.length_cons, List.length_map] at h

variable {fs : FileSystem} {ws : List String} {path : String} {t : Trace}

theorem stdout_info (h : parse ws = .ok (.info path)) (hload : ((load .trace path).on fs).1.result = .ok t) :
    (runOn ws fs).1.exit = 0 ∧ (runOn ws fs).1.stdout = t.summary := by
  have hends : Ends (loadTrace path) fs (.ok t) ((load .trace path).on fs).2 :=
    Ends.during ⟨hload, rfl⟩ (.loadingTrace path)
  obtain ⟨hexit, hstdout, -⟩ := runOn_of_ends h (hends.bind (ends_ofReport (.pure t.summary)))
  exact ⟨hexit, hstdout⟩

theorem result_load_json (hformat : Format.ofPath path = .json)
    (hfind : fs.find path = .ok (.file (write .json (k := .trace) t))) :
    ((load .trace path).on fs).1.result = .ok t := by
  have hread : read (Format.ofPath path) .trace (write .json (k := .trace) t) = .ok t := by
    rw [hformat]
    exact read_write nofun
  exact (ends_load hfind hread).1

/-- The summary of a snapshot has a line for every tile of the grid that has an event, and no other line, in
the order of the tiles. Beyond the counts of these lines, the total has the events of the histories that no
tile of the grid belongs to. -/
theorem summary_adds_up (h : parse ws = .ok (.info path))
    (hload : ((load .trace path).on fs).1.result = .ok t) :
    ∃ total ls, (runOn ws fs).1.exit = 0 ∧ (runOn ws fs).1.stdout = summaryText t total ls ∧
      (ls.Pairwise fun l k =>
        ∃ i j, t.grid.index? l.tile = some i ∧ t.grid.index? k.tile = some j ∧ i < j) ∧
      (∀ tile n, (∃ l ∈ ls, l.tile = tile ∧ l.count = n) ↔
        ∃ h, t.history? tile = some h ∧ h.events.size = n ∧ 0 < n) ∧
      total = (ls.map (·.count)).sum + t.surplus ∧
      (total = (ls.map (·.count)).sum ↔
        ∀ i h, t.grid.numTiles ≤ i → t.tiles[i]? = some h → h.events.size = 0) := by
  obtain ⟨hexit, hstdout⟩ := stdout_info h hload
  rw [summary_eq_summaryText] at hstdout
  have htotal := t.numEvents_eq_add_surplus
  refine ⟨_, _, hexit, hstdout, t.tileLines_increase, fun _ _ => Trace.exists_mem_tileLines, htotal, ?_⟩
  rw [htotal, Nat.add_eq_left, Trace.surplus_eq_zero_iff]

/-- There are fewer histories than tiles, and one of them is empty. -/
theorem summary_adds_up_two_lines :
    let t : Trace := ⟨.reduced, ⟨some 5, some 6⟩,
      [⟨true, .ofList [(5, ⟨⟨0x1000⟩, "add"⟩), (9, ⟨⟨0x1004⟩, "lw"⟩)]⟩, {},
        ⟨false, .ofList [(6, ⟨⟨0x1008⟩, "jalr"⟩)]⟩]⟩
    let fs : FileSystem := { entries := [(["t.json".toList], .file (write .json (k := .trace) t))] }
    let ws := ["info", "--trace", "t.json"]
    parse ws = .ok (.info "t.json") ∧ ((load .trace "t.json").on fs).1.result = .ok t ∧
      ∃ total ls, (runOn ws fs).1.stdout = summaryText t total ls ∧
        (∃ l ∈ ls, l.tile = ⟨2, 0⟩ ∧ l.count = 1) ∧ (¬ ∃ l ∈ ls, l.tile = ⟨1, 0⟩ ∧ l.count = 0) ∧
        total = (ls.map (·.count)).sum := by
  intro t fs ws
  have hparse : parse ws = .ok (.info "t.json") := by decide +kernel
  have hload : ((load .trace "t.json").on fs).1.result = .ok t :=
    result_load_json (by decide +kernel) (by decide +kernel)
  obtain ⟨total, ls, -, hstdout, -, hline, -, htotal⟩ := summary_adds_up hparse hload
  refine ⟨hparse, hload, total, ls, hstdout, (hline _ _).mpr ⟨_, rfl, rfl, by decide⟩, ?_, htotal.mpr ?_⟩
  · intro hempty
    obtain ⟨h, -, -, hpos⟩ := (hline _ _).mp hempty
    exact absurd hpos (by decide)
  · intro i h hi hget
    have hlt : i < 3 := (List.getElem?_eq_some_iff.mp hget).1
    exact absurd (Nat.le_trans hi (Nat.le_of_lt hlt)) (by decide)

/-- A snapshot with a history behind the last tile of its grid can be loaded. The event there is counted in
the total, but no line is about it. -/
theorem summary_counts_hidden_event :
    let t : Trace := ⟨.reduced, {},
      List.replicate 16 ({} : History) ++ [⟨false, .ofList [(5, ⟨⟨0x1000⟩, "add"⟩)]⟩]⟩
    let fs : FileSystem := { entries := [(["t.json".toList], .file (write .json (k := .trace) t))] }
    let ws := ["info", "--trace", "t.json"]
    parse ws = .ok (.info "t.json") ∧ ((load .trace "t.json").on fs).1.result = .ok t ∧
      (runOn ws fs).1.stdout = "Start cycle: unset End cycle: unset (reduced grid, 1 events)\n" ∧
      ¬ ∃ total ls, (runOn ws fs).1.stdout = summaryText t total ls ∧ total = (ls.map (·.count)).sum := by
  intro t fs ws
  have hparse : parse ws = .ok (.info "t.json") := by decide +kernel
  have hload : ((load .trace "t.json").on fs).1.result = .ok t :=
    result_load_json (by decide +kernel) (by decide +kernel)
  have hstdout : (runOn ws fs).1.stdout = "Start cycle: unset End cycle: unset (reduced grid, 1 events)\n" := by
    rw [(stdout_info hparse hload).2]
    decide +kernel
  refine ⟨hparse, hload, hstdout, ?_⟩
  rw [hstdout]
  rintro ⟨total, ls, htext, htotal⟩
  -- A text of one line has no line of a tile, so that the counts add up to nothing.
  have hlt := length_lt_count_summaryText t total ls
  rw [← htext] at hlt
  obtain rfl : ls = [] := List.eq_nil_of_length_eq_zero (Nat.lt_one_iff.mp hlt)
  obtain rfl : total = 0 := htotal
  revert htext
  decide +kernel

end TileTrace.CommandLine
