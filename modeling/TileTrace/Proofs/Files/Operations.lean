import TileTrace.Proofs.Files.Location

/-!
# When file operations succeed

Every operation as what has to stand at the places that its paths lead to, and what stands there behind
it.
-/

namespace TileTrace.FileSystem

variable {fs fs' : FileSystem} {p source target : String} {s : List UInt8}

/-- A file can be put at a place: the name is short enough, and no directory has it. -/
def Takes (fs : FileSystem) (place : Place) : Prop :=
  place.getLast?.any isTooLong = false ∧ fs.get? place ≠ some .directory

instance (fs : FileSystem) (place : Place) : Decidable (fs.Takes place) :=
  inferInstanceAs (Decidable (_ ∧ _))

theorem takes_iff {place : Place} :
    fs.Takes place ↔ ∃ e, fs.entry? place = .ok e ∧ e ≠ some .directory := by
  constructor
  · intro ⟨hshort, hget⟩
    exact ⟨_, entry?_eq_ok.mpr ⟨hshort, rfl⟩, hget⟩
  · intro ⟨e, he, hne⟩
    obtain ⟨hshort, rfl⟩ := entry?_eq_ok.mp he
    exact ⟨hshort, hne⟩

theorem Takes.of_keepsDirectories {place : Place} (h : KeepsDirectories fs' fs) (ht : fs.Takes place) :
    fs'.Takes place :=
  ⟨ht.1, fun hdirectory => ht.2 (h.kept place hdirectory)⟩

theorem ne_nil_of_locate {place : Place} {slashes : Bool} (h : fs.locate p = .ok (.name place slashes)) :
    place ≠ [] := by
  obtain ⟨-, -, directory, n, -, -, -, -, rfl⟩ := locate_eq_name.mp h
  simp

theorem find_eq_file :
    fs.find p = .ok (.file s) ↔
      ∃ place, fs.locate p = .ok (.name place false) ∧ fs.entry? place = .ok (some (.file s)) := by
  unfold find
  cases hp : fs.locate p with
  | error f => simp [bind, Except.bind]
  | ok t =>
    cases t with
    | dots => simp [bind, Except.bind, pure, Except.pure]
    | name place slashes =>
      cases he : fs.entry? place with
      | error f => simp [he, bind, Except.bind]
      | ok e =>
        cases e with
        | none => simp [he, bind, Except.bind]
        | some e =>
          cases e with
          | directory => simp [he, bind, Except.bind, pure, Except.pure]
          | file x => cases slashes <;> simp [he, bind, Except.bind, pure, Except.pure]

theorem find_of_entry?_none {place : Place} {slashes : Bool} (hp : fs.locate p = .ok (.name place slashes))
    (he : fs.entry? place = .ok none) : fs.find p = .error .notFound := by
  unfold find
  simp only [hp, he, bind, Except.bind]

/-- What is found at a path hangs on the directories and on its place. -/
theorem find_of_keepsDirectories {e : Entry} (h : KeepsDirectories fs fs')
    (hsame : ∀ place slashes, fs.locate p = .ok (.name place slashes) → fs'.get? place = fs.get? place)
    (he : fs.find p = .ok e) : fs'.find p = .ok e := by
  unfold find at he ⊢
  cases hp : fs.locate p with
  | error f =>
    rw [hp] at he
    cases he
  | ok t =>
    rw [hp] at he
    rw [locate_of_keepsDirectories h hp]
    cases t with
    | dots => exact he
    | name place slashes =>
      have hentry : fs'.entry? place = fs.entry? place := entry?_congr (hsame place slashes hp)
      simp only [bind, Except.bind] at he ⊢
      rwa [hentry]

theorem create_eq_ok :
    fs.create p s = .ok fs' ↔
      ∃ place, fs.locate p = .ok (.name place false) ∧ fs.Takes place ∧ fs.set place (.file s) = fs' := by
  unfold create
  cases hp : fs.locate p with
  | error f => simp [bind, Except.bind]
  | ok t =>
    cases t with
    | dots => simp [bind, Except.bind]
    | name place slashes =>
      cases slashes with
      | true => simp [bind, Except.bind]
      | false =>
        cases he : fs.entry? place with
        | error f => simp [he, takes_iff, bind, Except.bind]
        | ok e =>
          cases e with
          | none => simp [he, takes_iff, bind, Except.bind, pure, Except.pure]
          | some e => cases e <;> simp [he, takes_iff, bind, Except.bind, pure, Except.pure]

theorem remove_eq_ok :
    fs.remove p = .ok fs' ↔
      ∃ place s, fs.locate p = .ok (.name place false) ∧ fs.entry? place = .ok (some (.file s)) ∧
        fs.erase place = fs' := by
  unfold remove
  cases hp : fs.locate p with
  | error f => simp [bind, Except.bind]
  | ok t =>
    cases t with
    | dots => simp [bind, Except.bind]
    | name place slashes =>
      cases he : fs.entry? place with
      | error f => simp [he, bind, Except.bind]
      | ok e =>
        cases e with
        | none => simp [he, bind, Except.bind]
        | some e =>
          cases e with
          | directory => simp [he, bind, Except.bind]
          | file s => cases slashes <;> simp [he, bind, Except.bind, pure, Except.pure]

theorem takes_of_entry? {place : Place} (h : fs.entry? place = .ok (some (.file s))) : fs.Takes place := by
  obtain ⟨hshort, hget⟩ := entry?_eq_ok.mp h
  exact ⟨hshort, by simp [hget]⟩

/-- Where no file can be written, there is none to be removed. -/
theorem remove_of_create_error {f : FileFault} (h : fs.create p s = .error f) :
    ∃ g, fs.remove p = .error g := by
  cases hr : fs.remove p with
  | error g => exact ⟨g, rfl⟩
  | ok fs' =>
    obtain ⟨place, s', hp, he, -⟩ := remove_eq_ok.mp hr
    rw [create_eq_ok.mpr ⟨place, hp, takes_of_entry? he, rfl⟩] at h
    cases h

theorem move_eq_ok :
    fs.move source target = .ok fs' ↔
      ∃ origin goal s, fs.locate source = .ok (.name origin false) ∧
        fs.locate target = .ok (.name goal false) ∧ fs.entry? origin = .ok (some (.file s)) ∧
        fs.Takes goal ∧ (fs.erase origin).set goal (.file s) = fs' := by
  unfold move
  cases hs : fs.locate source with
  | error f => simp [bind, Except.bind]
  | ok t =>
    cases ht : fs.locate target with
    | error f => simp [bind, Except.bind]
    | ok u =>
      cases t with
      | dots => simp [bind, Except.bind]
      | name origin slashes =>
        cases u with
        | dots => simp [bind, Except.bind]
        | name goal slashes' =>
          cases he : fs.entry? origin with
          | error f => simp [he, bind, Except.bind]
          | ok e =>
            cases e with
            | none => simp [he, bind, Except.bind]
            | some e =>
              cases e with
              | directory => simp [he, bind, Except.bind]
              | file s =>
                cases hg : fs.entry? goal with
                | error f => simp [he, hg, takes_iff, bind, Except.bind]
                | ok there =>
                  cases there with
                  | none =>
                    -- Slashes behind either name ask for a directory, which the file is not.
                    cases slashes <;> cases slashes' <;>
                      simp [he, hg, takes_iff, bind, Except.bind, pure, Except.pure]
                  | some e =>
                    cases e <;> cases slashes <;> cases slashes' <;>
                      simp [he, hg, takes_iff, bind, Except.bind, pure, Except.pure]

end TileTrace.FileSystem
