import TileTrace.Files.FileSystem
import TileTrace.Proofs.Text.Split

/-!
# Where paths lead

A path that ends in a name leads to that name in some directory, and the path to a sibling leads to the
name of the sibling. What a path leads to hangs on the directories on its way and on nothing else.
-/

namespace TileTrace

namespace Path

def steps (p : String) : List (List Char) :=
  (pieces p).filter fun piece => !piece.isEmpty

theorem pieces_ofPieces_snoc (ds : List (List Char)) {n : List Char} (hn : '/' ∉ n) :
    ∃ before, pieces (ofPieces (ds ++ [n])) = before ++ [n] := by
  unfold pieces ofPieces
  rw [String.toList_ofList]
  cases ds with
  | nil => exact ⟨[], by simp [List.intercalate, Text.splitAt_of_not_mem hn]⟩
  | cons d ds =>
    refine ⟨Text.splitAt '/' (['/'].intercalate (d :: ds)), ?_⟩
    have hjoin : ['/'].intercalate (d :: ds ++ [n]) = ['/'].intercalate (d :: ds) ++ '/' :: n := by
      induction ds generalizing d with
      | nil => simp
      | cons e ds ih =>
        rw [List.cons_append, List.cons_append, List.intercalate_cons_cons, List.intercalate_cons_cons,
          ← List.cons_append, ih, List.append_assoc, List.append_assoc, List.append_assoc]
    rw [hjoin, Text.splitAt_append, Text.splitAt_of_not_mem hn]

theorem steps_ofPieces_snoc (ds : List (List Char)) {n : List Char} (hn : '/' ∉ n) (hne : n ≠ []) :
    (steps (ofPieces (ds ++ [n]))).getLast? = some n := by
  obtain ⟨before, h⟩ := pieces_ofPieces_snoc ds hn
  unfold steps
  rw [h, List.filter_append]
  simp [hne]

theorem trimEnd_append_of_leadsNowhere {before behind : List (List Char)} {n : List Char}
    (hn : leadsNowhere n = false) (h : ∀ piece ∈ behind, leadsNowhere piece = true) :
    trimEnd (before ++ n :: behind) = before ++ [n] := by
  have hdrop : (behind.reverse ++ (n :: before.reverse)).dropWhile leadsNowhere = n :: before.reverse := by
    rw [List.dropWhile_append_of_pos (by simpa using h), List.dropWhile_cons_of_neg (by simp [hn])]
  unfold trimEnd
  simp only [List.reverse_append, List.reverse_cons, List.append_assoc, List.singleton_append]
  rw [hdrop]
  simp

/-- The root takes no piece that is a name. -/
theorem splitRoot_append (before behind : List (List Char)) {n : List Char} (hn : leadsNowhere n = false) :
    ∃ root body, splitRoot (before ++ n :: behind) = (root, body ++ n :: behind) := by
  have hne : n ≠ [] ∧ n ≠ ['.'] := by simpa [leadsNowhere] using hn
  cases before with
  | nil =>
    refine ⟨[], [], ?_⟩
    unfold splitRoot
    split <;> simp_all
  | cons b before =>
    unfold splitRoot
    split
    · rename_i piece ps heq
      cases before with
      | nil => exact ⟨[[]], [], by simp_all⟩
      | cons c before => exact ⟨[[]], c :: before, by simp_all⟩
    · rename_i ps heq
      exact ⟨[['.']], before, by simp_all⟩
    · exact ⟨[], b :: before, rfl⟩

/-- A path whose last step is a name ends in that name. -/
theorem splitName?_of_steps {p : String} {n : List Char} (h : (steps p).getLast? = some n)
    (hdot : n ≠ ['.']) (hdots : n ≠ ['.', '.']) : ∃ directory, splitName? p = some (directory, n) := by
  obtain ⟨before, hsteps⟩ := List.getLast?_eq_some_iff.mp h
  obtain ⟨front, back, hpieces, -, hback⟩ := List.filter_eq_append_iff.mp hsteps
  obtain ⟨gap, behind, rfl, -, hne, hbehind⟩ := List.filter_eq_cons_iff.mp hback
  have hnowhere : leadsNowhere n = false := by simp_all [leadsNowhere]
  have hempty : ∀ piece ∈ behind, leadsNowhere piece = true := by
    intro piece hpiece
    have := List.filter_eq_nil_iff.mp hbehind piece hpiece
    simp_all [leadsNowhere]
  obtain ⟨root, body, hroot⟩ := splitRoot_append (front ++ gap) behind hnowhere
  rw [List.append_assoc, ← hpieces] at hroot
  refine ⟨root ++ trimEnd body, ?_⟩
  unfold splitName?
  rw [hroot]
  simp [trimEnd_append_of_leadsNowhere hnowhere hempty]

structure IsPlain (name : String) : Prop where
  slash : '/' ∉ name.toList
  zero : '\x00' ∉ name.toList
  named : name ≠ ""
  dot : name.toList ≠ ['.']
  dots : name.toList ≠ ['.', '.']

theorem IsPlain.pieces {name : String} (h : IsPlain name) : pieces name = [name.toList] :=
  Text.splitAt_of_not_mem h.slash

theorem IsPlain.toList_ne_nil {name : String} (h : IsPlain name) : name.toList ≠ [] := by
  intro hnil
  exact h.named (String.toList_eq_nil_iff.mp hnil)

theorem IsPlain.steps {name : String} (h : IsPlain name) : steps name = [name.toList] := by
  unfold Path.steps
  rw [h.pieces]
  simp [h.toList_ne_nil]

theorem IsPlain.withName {name : String} (h : IsPlain name) (other : List Char) :
    withName name other = String.ofList other := by
  have hnowhere : leadsNowhere name.toList = false := by simp [leadsNowhere, h.toList_ne_nil, h.dot]
  have htrim : trimEnd ([] ++ name.toList :: []) = [] ++ [name.toList] :=
    trimEnd_append_of_leadsNowhere hnowhere nofun
  have hroot : splitRoot [name.toList] = ([], [name.toList]) := by
    unfold splitRoot
    split <;> simp_all [h.dot]
  have hsplit : splitName? name = some ([], name.toList) := by
    unfold splitName?
    rw [h.pieces, hroot]
    simp only [List.nil_append] at htrim
    simp only [htrim, List.reverse_singleton]
    split
    · contradiction
    · simp_all [h.dots]
    · simp_all [trimEnd]
  unfold Path.withName
  rw [hsplit]
  simp [ofPieces]

end Path

namespace FileSystem

/-! ## Places -/

theorem entry?_eq_ok {fs : FileSystem} {place : Place} {e : Option Entry} :
    fs.entry? place = .ok e ↔ place.getLast?.any isTooLong = false ∧ fs.get? place = e := by
  unfold entry?
  by_cases h : place.getLast?.any isTooLong = true
  · simp [h]
  · simp [h]

theorem entry?_congr {fs fs' : FileSystem} {place : Place} (h : fs'.get? place = fs.get? place) :
    fs'.entry? place = fs.entry? place := by
  unfold entry?
  rw [h]

/-- Both file systems have the same working directory, and every directory of the first is one of the
second. -/
structure KeepsDirectories (fs fs' : FileSystem) : Prop where
  working : fs'.working = fs.working
  kept : ∀ q, fs.get? q = some .directory → fs'.get? q = some .directory

theorem KeepsDirectories.refl (fs : FileSystem) : KeepsDirectories fs fs :=
  ⟨rfl, fun _ hq => hq⟩

section
variable {fs fs' : FileSystem} {p : String} {place : Place}

theorem KeepsDirectories.set_file (hp : place ≠ []) (h : fs.get? place ≠ some .directory) (s : List UInt8) :
    KeepsDirectories fs (fs.set place (.file s)) := by
  refine ⟨rfl, fun q hq => ?_⟩
  have hne : q ≠ place := fun heq => h (heq ▸ hq)
  rw [get?_set fs hp, if_neg hne, hq]

theorem KeepsDirectories.of_set_file (hp : place ≠ []) (s : List UInt8) :
    KeepsDirectories (fs.set place (.file s)) fs := by
  refine ⟨rfl, fun q hq => ?_⟩
  by_cases heq : q = place
  · rw [get?_set fs hp, if_pos heq] at hq
    cases hq
  · rwa [get?_set fs hp, if_neg heq] at hq

/-! ## Walks -/

section
variable {piece : List Char} {ps : List (List Char)} {r : Place}

/-- A piece leads nowhere, up, or to a name. -/
theorem piece_cases (piece : List Char) :
    Path.leadsNowhere piece = true ∨ piece = ['.', '.'] ∨
      Path.leadsNowhere piece = false ∧ piece ≠ ['.', '.'] := by
  cases Path.leadsNowhere piece <;> simp [Classical.em]

theorem walk_nowhere (h : Path.leadsNowhere piece = true) : fs.walk place (piece :: ps) = fs.walk place ps := by
  rw [walk, if_pos h]

theorem walk_dots : fs.walk place (['.', '.'] :: ps) = fs.walk place.dropLast ps := by
  rw [walk, if_neg (by decide), if_pos rfl]

theorem walk_name_eq_ok (h : Path.leadsNowhere piece = false) (hdots : piece ≠ ['.', '.']) :
    fs.walk place (piece :: ps) = .ok r ↔
      fs.entry? (place ++ [piece]) = .ok (some .directory) ∧ fs.walk (place ++ [piece]) ps = .ok r := by
  rw [walk, if_neg (by simp [h]), if_neg hdots]
  cases fs.entry? (place ++ [piece]) with
  | error f => simp [bind, Except.bind]
  | ok e =>
    cases e with
    | none => simp [bind, Except.bind]
    | some e => cases e <;> simp [bind, Except.bind]

theorem walk_of_keepsDirectories (h : KeepsDirectories fs fs') (hw : fs.walk place ps = .ok r) :
    fs'.walk place ps = .ok r := by
  induction ps generalizing place with
  | nil => exact hw
  | cons piece ps ih =>
    obtain hnowhere | rfl | ⟨hname, hdots⟩ := piece_cases piece
    · rw [walk_nowhere hnowhere] at hw ⊢
      exact ih hw
    · rw [walk_dots] at hw ⊢
      exact ih hw
    · obtain ⟨he, hw⟩ := (walk_name_eq_ok hname hdots).mp hw
      obtain ⟨hshort, hget⟩ := entry?_eq_ok.mp he
      exact (walk_name_eq_ok hname hdots).mpr ⟨entry?_eq_ok.mpr ⟨hshort, h.kept _ hget⟩, ih hw⟩

end

/-! ## Paths to places -/

theorem base_congr (h : fs'.working = fs.working) : fs'.base p = fs.base p := by
  rw [base, base, h]

def IsTaken (p : String) : Prop :=
  '\x00' ∉ p.toList ∧ (Utf8.encodeString p).length < 4096 ∧ p ≠ ""

/-- A path leads to a name if directories lead to the name, which is no row of dots. -/
theorem locate_eq_name {slashes : Bool} :
    fs.locate p = .ok (.name place slashes) ↔
      IsTaken p ∧ slashes = decide (p.toList.getLast? = some '/') ∧ ∃ directory n,
        (Path.steps p).getLast? = some n ∧ n ≠ ['.'] ∧ n ≠ ['.', '.'] ∧
        fs.walk [] (fs.base p ++ (Path.steps p).dropLast) = .ok directory ∧ place = directory ++ [n] := by
  have hsteps : (Path.pieces p).filter (fun piece => !piece.isEmpty) = Path.steps p := rfl
  unfold locate IsTaken
  by_cases hzero : '\x00' ∈ p.toList
  · simp [hzero]
  by_cases hlong : 4096 ≤ (Utf8.encodeString p).length
  · have hnot : ¬ (Utf8.encodeString p).length < 4096 := Nat.not_lt.mpr hlong
    simp [hzero, hlong, hnot]
  by_cases hempty : p = ""
  · simp [hempty, Utf8.encodeString, Utf8.encode]
  simp only [List.contains_iff_mem, hzero, hlong, hempty, if_false, hsteps]
  cases hlast : (Path.steps p).getLast? with
  | none => simp
  | some n =>
    cases hwalk : fs.walk [] (fs.base p ++ (Path.steps p).dropLast) with
    | error f => simp [bind, Except.bind]
    | ok directory =>
      by_cases hdots : n = ['.'] ∨ n = ['.', '.']
      · simp only [bind, Except.bind, hdots, if_true, pure, Except.pure]
        simp
        intro _ _ _ hdot hdots'
        exact absurd hdots (by simp [hdot, hdots'])
      · have hnot := not_or.mp hdots
        have hshort := Nat.lt_of_not_le hlong
        simp [hnot, hshort, hempty, bind, Except.bind, pure, Except.pure, eq_comm, and_comm]

theorem locate_of_keepsDirectories (h : KeepsDirectories fs fs') {t : Target} (ht : fs.locate p = .ok t) :
    fs'.locate p = .ok t := by
  unfold locate at ht ⊢
  by_cases hzero : p.toList.contains '\x00' = true
  · rw [if_pos hzero] at ht
    cases ht
  by_cases hlong : 4096 ≤ (Utf8.encodeString p).length
  · rw [if_neg hzero, if_pos hlong] at ht
    cases ht
  by_cases hempty : p = ""
  · rw [if_neg hzero, if_neg hlong, if_pos hempty] at ht
    cases ht
  rw [if_neg hzero, if_neg hlong, if_neg hempty] at ht ⊢
  cases hlast : ((Path.pieces p).filter fun piece => !piece.isEmpty).getLast? with
  | none =>
    simp only [hlast] at ht ⊢
    exact ht
  | some n =>
    -- Only the way to the last piece goes through the file system.
    simp only [hlast, base_congr h.working] at ht ⊢
    cases hwalk : fs.walk [] (fs.base p ++ ((Path.pieces p).filter fun piece => !piece.isEmpty).dropLast) with
    | error f =>
      rw [hwalk] at ht
      cases ht
    | ok directory =>
      rw [hwalk] at ht
      rw [walk_of_keepsDirectories h hwalk]
      exact ht

def HasWorking (fs : FileSystem) : Prop :=
  fs.walk [] fs.working = .ok fs.working

instance (fs : FileSystem) : Decidable fs.HasWorking :=
  inferInstanceAs (Decidable (_ = _))

theorem HasWorking.of_keepsDirectories (h : KeepsDirectories fs fs') (hworking : fs.HasWorking) :
    fs'.HasWorking := by
  unfold HasWorking
  rw [h.working]
  exact walk_of_keepsDirectories h hworking

/-- A name alone leads to the name in the working directory. -/
theorem locate_plain {name : String} (h : Path.IsPlain name) (hworking : fs.HasWorking)
    (hshort : isTooLong name.toList = false) :
    fs.locate name = .ok (.name (fs.working ++ [name.toList]) false) := by
  have hbytes : (Utf8.encodeString name).length < 4096 := by
    have : (Utf8.encode name.toList).length ≤ 255 := by simpa [isTooLong] using hshort
    exact Nat.lt_of_le_of_lt this (by decide)
  have hslash : name.toList.getLast? ≠ some '/' := fun hlast => h.slash (List.mem_of_getLast? hlast)
  have hfirst : name.toList.head? ≠ some '/' := fun hhead => h.slash (List.mem_of_head? hhead)
  have hlast : (Path.steps name).getLast? = some name.toList := by rw [h.steps]; rfl
  have hbase : fs.base name ++ (Path.steps name).dropLast = fs.working := by
    rw [h.steps, base, if_neg hfirst]
    simp
  have hwalk : fs.walk [] (fs.base name ++ (Path.steps name).dropLast) = .ok fs.working := by
    rw [hbase]
    exact hworking
  exact locate_eq_name.mpr ⟨⟨h.zero, hbytes, h.named⟩, by simp [hslash], fs.working, name.toList, hlast, h.dot,
    h.dots, hwalk, rfl⟩

end

end FileSystem

end TileTrace
