import TileTrace.Proofs.Files.Operations

/-!
# Places on the way

The working directory and the pieces of a path tell the places that it leads over, whatever stands there.
What does stand at these places decides what is found at the path, and nothing else does.
-/

namespace TileTrace.FileSystem

variable {fs fs' : FileSystem} {p : String} {piece : List Char} {ps : List (List Char)} {place r : Place}

/-! ## Along pieces -/

def goal : Place → List (List Char) → Place
  | place, [] => place
  | place, piece :: ps =>
    if Path.leadsNowhere piece then goal place ps
    else if piece = ['.', '.'] then goal place.dropLast ps
    else goal (place ++ [piece]) ps

/-- The places that pieces lead over from a place, which itself is not one of them. -/
def way : Place → List (List Char) → List Place
  | _, [] => []
  | place, piece :: ps =>
    if Path.leadsNowhere piece then way place ps
    else if piece = ['.', '.'] then way place.dropLast ps
    else (place ++ [piece]) :: way (place ++ [piece]) ps

theorem way_name (h : Path.leadsNowhere piece = false) (hdots : piece ≠ ['.', '.']) :
    way place (piece :: ps) = (place ++ [piece]) :: way (place ++ [piece]) ps := by
  rw [way, if_neg (by simp [h]), if_neg hdots]

theorem goal_name (h : Path.leadsNowhere piece = false) (hdots : piece ≠ ['.', '.']) :
    goal place (piece :: ps) = goal (place ++ [piece]) ps := by
  rw [goal, if_neg (by simp [h]), if_neg hdots]

theorem goal_append (ps qs : List (List Char)) (place : Place) :
    goal place (ps ++ qs) = goal (goal place ps) qs := by
  induction ps generalizing place with
  | nil => rfl
  | cons piece ps ih =>
    rw [List.cons_append]
    obtain hnowhere | rfl | ⟨hname, hdots⟩ := piece_cases piece
    · simp only [goal, hnowhere, if_true, ih]
    · exact ih place.dropLast
    · rw [goal_name hname hdots, goal_name hname hdots, ih]

theorem way_append (ps qs : List (List Char)) (place : Place) :
    way place (ps ++ qs) = way place ps ++ way (goal place ps) qs := by
  induction ps generalizing place with
  | nil => rfl
  | cons piece ps ih =>
    rw [List.cons_append]
    obtain hnowhere | rfl | ⟨hname, hdots⟩ := piece_cases piece
    · simp only [way, goal, hnowhere, if_true, ih]
    · exact ih place.dropLast
    · rw [way_name hname hdots, way_name hname hdots, goal_name hname hdots, ih, List.cons_append]

theorem walk_congr (h : ∀ q ∈ way place ps, fs'.get? q = fs.get? q) : fs'.walk place ps = fs.walk place ps := by
  induction ps generalizing place with
  | nil => rfl
  | cons piece ps ih =>
    obtain hnowhere | rfl | ⟨hname, hdots⟩ := piece_cases piece
    · rw [walk_nowhere hnowhere, walk_nowhere hnowhere]
      simp only [way, hnowhere, if_true] at h
      exact ih h
    · rw [walk_dots, walk_dots]
      exact ih h
    · -- A name is the only piece for which the file system is asked, about the place it leads to.
      rw [way_name hname hdots] at h
      obtain ⟨hhere, hbehind⟩ := List.forall_mem_cons.mp h
      unfold walk
      simp only [hname, Bool.false_eq_true, if_false, hdots, entry?_congr hhere, ih hbehind]

theorem eq_goal_of_walk (h : fs.walk place ps = .ok r) : r = goal place ps := by
  induction ps generalizing place with
  | nil => exact (Except.ok.inj h).symm
  | cons piece ps ih =>
    obtain hnowhere | rfl | ⟨hname, hdots⟩ := piece_cases piece
    · rw [walk_nowhere hnowhere] at h
      simp only [goal, hnowhere, if_true]
      exact ih h
    · rw [walk_dots] at h
      exact ih h
    · rw [goal_name hname hdots]
      exact ih ((walk_name_eq_ok hname hdots).mp h).2

/-! ## Along paths -/

def places (fs : FileSystem) (p : String) : List Place :=
  way [] (fs.base p ++ Path.steps p)

theorem steps_of_getLast? {n : List Char} (h : (Path.steps p).getLast? = some n) :
    Path.steps p = (Path.steps p).dropLast ++ [n] := by
  obtain ⟨before, hsteps⟩ := List.getLast?_eq_some_iff.mp h
  rw [hsteps, List.dropLast_concat]

theorem leadsNowhere_of_mem_steps {n : List Char} (h : n ∈ Path.steps p) (hdot : n ≠ ['.']) :
    Path.leadsNowhere n = false := by
  have hne : n ≠ [] := by simpa using (List.mem_filter.mp h).2
  simp [Path.leadsNowhere, hne, hdot]

theorem places_of_locate {slashes : Bool} (h : fs.locate p = .ok (.name place slashes)) :
    place = goal [] (fs.base p ++ Path.steps p) ∧ place ∈ fs.places p := by
  obtain ⟨-, -, directory, n, hlast, hdot, hdots, hwalk, rfl⟩ := locate_eq_name.mp h
  have hname : Path.leadsNowhere n = false := leadsNowhere_of_mem_steps (List.mem_of_getLast? hlast) hdot
  obtain rfl := eq_goal_of_walk hwalk
  rw [places, steps_of_getLast? hlast, List.dropLast_concat, ← List.append_assoc,
    goal_append (fs.base p ++ (Path.steps p).dropLast), way_append, goal_name hname hdots, way_name hname hdots]
  exact ⟨rfl, by simp⟩

theorem locate_congr (hworking : fs'.working = fs.working) (h : ∀ q ∈ fs.places p, fs'.get? q = fs.get? q) :
    fs'.locate p = fs.locate p := by
  have hsteps : (Path.pieces p).filter (fun piece => !piece.isEmpty) = Path.steps p := rfl
  unfold locate
  simp only [hsteps]
  cases hlast : (Path.steps p).getLast? with
  | none => rfl
  | some n =>
    have hwalk : fs'.walk [] (fs.base p ++ (Path.steps p).dropLast) =
        fs.walk [] (fs.base p ++ (Path.steps p).dropLast) := by
      apply walk_congr
      intro q hq
      apply h
      rw [places, steps_of_getLast? hlast, ← List.append_assoc, way_append]
      exact List.mem_append_left _ hq
    simp only [base_congr hworking, hwalk]

/-- What is found at a path hangs on the places that it leads over. -/
theorem find_congr (hworking : fs'.working = fs.working) (h : ∀ q ∈ fs.places p, fs'.get? q = fs.get? q) :
    fs'.find p = fs.find p := by
  unfold find
  rw [locate_congr hworking h]
  cases hp : fs.locate p with
  | error f => rfl
  | ok t =>
    cases t with
    | dots => rfl
    | name place slashes =>
      have hentry : fs'.entry? place = fs.entry? place := entry?_congr (h place (places_of_locate hp).2)
      simp only [bind, Except.bind, hentry]

/-! ## Apart from a place -/

/-- The file systems differ only in what stands at the place and under it. -/
structure DifferAt (place : Place) (fs fs' : FileSystem) : Prop where
  working : fs'.working = fs.working
  apart : ∀ q, ¬ place <+: q → fs'.get? q = fs.get? q

theorem differAt_set (hplace : place ≠ []) (e : Entry) : DifferAt place fs (fs.set place e) := by
  refine ⟨rfl, fun q hq => ?_⟩
  have hne : q ≠ place := fun heq => hq (heq ▸ List.prefix_rfl)
  rw [get?_set fs hplace, if_neg hne]

/-- The path leads neither to the place nor through it. -/
def Avoids (fs : FileSystem) (p : String) (place : Place) : Prop :=
  ∀ q ∈ fs.places p, ¬ place <+: q

instance (fs : FileSystem) (p : String) (place : Place) : Decidable (fs.Avoids p place) :=
  inferInstanceAs (Decidable (∀ q ∈ fs.places p, ¬ place <+: q))

/-- Where no piece leads up, every place on the way is above the last one. -/
theorem prefix_goal {q : Place} (hno : ['.', '.'] ∉ ps) (hq : q ∈ place :: way place ps) :
    q <+: goal place ps := by
  induction ps generalizing place q with
  | nil =>
    obtain rfl := List.mem_singleton.mp hq
    exact List.prefix_rfl
  | cons piece ps ih =>
    obtain ⟨hdots, hno⟩ := List.ne_and_not_mem_of_not_mem_cons hno
    cases hname : Path.leadsNowhere piece with
    | true =>
      simp only [way, goal, hname, if_true] at hq ⊢
      exact ih hno hq
    | false =>
      rw [way_name hname (Ne.symm hdots)] at hq
      rw [goal_name hname (Ne.symm hdots)]
      rcases List.mem_cons.mp hq with rfl | hq
      · exact (List.prefix_append q [piece]).trans (ih hno List.mem_cons_self)
      · exact ih hno hq

/-- A path that never leads up avoids every place but its own and those above it. -/
theorem avoids_of_locate {slashes : Bool} (h : fs.locate p = .ok (.name r slashes))
    (hno : ['.', '.'] ∉ fs.base p ++ Path.steps p) (hr : ¬ place <+: r) : fs.Avoids p place := by
  intro q hq hplace
  obtain ⟨rfl, -⟩ := places_of_locate h
  exact hr (hplace.trans (prefix_goal hno (List.mem_cons_of_mem [] hq)))

theorem find_of_avoids (hdiffer : DifferAt place fs fs') (h : fs.Avoids p place) : fs'.find p = fs.find p :=
  find_congr hdiffer.working fun q hq => hdiffer.apart q (h q hq)

end TileTrace.FileSystem
