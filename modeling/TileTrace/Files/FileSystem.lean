import TileTrace.Files.Path
import TileTrace.Text.Utf8

/-!
# File systems

A tree of directories and files, as the list of what stands at which place. The top of the tree is always
a directory and its own parent. Paths with a slash in front begin there, all others in the working
directory. Operations go along all but the last piece of a path through directories; what they do with the
last one is theirs to say.

Loading and saving consist of file operations of whatever carries them out, and a file system as a value
is one such. What is proved of loading and saving is proved for it.
-/

namespace TileTrace

/-- A name in every directory on the way, from the top. -/
abbrev Place := List (List Char)

inductive Entry
  | file (content : List UInt8)
  | directory
  deriving DecidableEq

structure FileSystem where
  entries : List (Place × Entry) := []
  working : Place := []

namespace FileSystem

/-! ## Places -/

def get? (fs : FileSystem) (place : Place) : Option Entry :=
  if place = [] then some .directory else fs.entries.lookup place

def erase (fs : FileSystem) (place : Place) : FileSystem :=
  { fs with entries := fs.entries.filter fun e => e.1 ≠ place }

def set (fs : FileSystem) (place : Place) (e : Entry) : FileSystem :=
  { fs with entries := (place, e) :: (fs.erase place).entries }

theorem lookup_filter_ne {p q : Place} : ∀ es : List (Place × Entry),
    (es.filter fun e => e.1 ≠ p).lookup q = if q = p then none else es.lookup q
  | [] => by simp
  | e :: es => by
    have ih := lookup_filter_ne (p := p) (q := q) es
    obtain ⟨r, x⟩ := e
    by_cases hr : r = p
    · rw [List.filter_cons_of_neg (by simp [hr]), ih]
      split
      · rfl
      · rename_i hq
        rw [List.lookup_cons, (beq_eq_false_iff_ne).mpr (fun h => hq (h.trans hr))]
    · rw [List.filter_cons_of_pos (by simp [hr]), List.lookup_cons, List.lookup_cons, ih]
      split
      · rename_i hq
        rw [if_neg (fun h => hr ((beq_iff_eq.mp hq).symm.trans h))]
      · rfl

theorem get?_erase (fs : FileSystem) {p : Place} (hp : p ≠ []) (q : Place) :
    (fs.erase p).get? q = if q = p then none else fs.get? q := by
  unfold get? erase
  by_cases hq : q = []
  · rw [if_pos hq, if_pos hq, if_neg (fun h => hp (h.symm.trans hq))]
  · rw [if_neg hq, if_neg hq]; exact lookup_filter_ne fs.entries

theorem get?_set (fs : FileSystem) {p : Place} (hp : p ≠ []) (e : Entry) (q : Place) :
    (fs.set p e).get? q = if q = p then some e else fs.get? q := by
  unfold get? set erase
  by_cases hq : q = []
  · rw [if_pos hq, if_pos hq, if_neg (fun h => hp (h.symm.trans hq))]
  · rw [if_neg hq, if_neg hq, List.lookup_cons]
    by_cases hqp : q = p
    · rw [if_pos hqp, beq_iff_eq.mpr hqp]
    · rw [if_neg hqp, beq_eq_false_iff_ne.mpr hqp]
      exact (lookup_filter_ne fs.entries).trans (if_neg hqp)

/-! ## Paths -/

def isTooLong (name : List Char) : Bool :=
  255 < (Utf8.encode name).length

/-- What stands at a place, if the directory there takes such a name. -/
def entry? (fs : FileSystem) (place : Place) : Except FileFault (Option Entry) :=
  if place.getLast?.any isTooLong then .error .nameTooLong else .ok (fs.get? place)

def walk (fs : FileSystem) : Place → List (List Char) → Except FileFault Place
  | place, [] => .ok place
  | place, piece :: ps =>
    if Path.leadsNowhere piece then walk fs place ps
    else if piece = ['.', '.'] then walk fs place.dropLast ps
    else do
      match ← fs.entry? (place ++ [piece]) with
      | none => .error .notFound
      | some (.file _) => .error .notDirectory
      | some .directory => walk fs (place ++ [piece]) ps

inductive Target
  /-- A directory that dots or slashes alone lead to. -/
  | dots
  /-- A name in a directory. Slashes behind it say that a directory is meant. -/
  | name (place : Place) (slashes : Bool)
  deriving DecidableEq

def base (fs : FileSystem) (p : String) : Place :=
  if p.toList.head? = some '/' then [] else fs.working

def locate (fs : FileSystem) (p : String) : Except FileFault Target :=
  if p.toList.contains '\x00' then .error .badName
  else if 4096 ≤ (Utf8.encodeString p).length then .error .nameTooLong
  else if p = "" then .error .notFound
  else
    let ps := (Path.pieces p).filter fun piece => !piece.isEmpty
    match ps.getLast? with
    | none => .ok .dots
    | some last => do
      let directory ← fs.walk [] (fs.base p ++ ps.dropLast)
      if last = ['.'] ∨ last = ['.', '.'] then return .dots
      return .name (directory ++ [last]) (p.toList.getLast? = some '/')

/-! ## Operations -/

def find (fs : FileSystem) (p : String) : Except FileFault Entry := do
  match ← fs.locate p with
  | .dots => return .directory
  | .name place slashes =>
    match ← fs.entry? place with
    | none => .error .notFound
    | some .directory => return .directory
    | some (.file s) => if slashes then .error .notDirectory else return .file s

/-- Writes a file, which may be there already. Slashes behind its name are refused before all else. -/
def create (fs : FileSystem) (p : String) (content : List UInt8) : Except FileFault FileSystem := do
  match ← fs.locate p with
  | .dots => .error .isDirectory
  | .name place slashes =>
    if slashes then .error .isDirectory
    else
      match ← fs.entry? place with
      | some .directory => .error .isDirectory
      | _ => return fs.set place (.file content)

def remove (fs : FileSystem) (p : String) : Except FileFault FileSystem := do
  match ← fs.locate p with
  | .dots => .error .isDirectory
  | .name place slashes =>
    match ← fs.entry? place with
    | none => .error .notFound
    | some .directory => .error .isDirectory
    | some (.file _) => if slashes then .error .notDirectory else return fs.erase place

def move (fs : FileSystem) (source target : String) : Except FileFault FileSystem := do
  match ← fs.locate source, ← fs.locate target with
  | .name origin slashes, .name goal slashes' =>
    match ← fs.entry? origin with
    | none => .error .notFound
    | some .directory => .error .isDirectory
    | some (.file s) =>
      let there ← fs.entry? goal
      if slashes || slashes' then .error .notDirectory
      else
        match there with
        | some .directory => .error .isDirectory
        | _ => return (fs.erase origin).set goal (.file s)
  | _, _ => .error .busy

def makeDirectory (fs : FileSystem) (p : String) : Except FileFault FileSystem := do
  match ← fs.locate p with
  | .dots => .error .alreadyExists
  | .name place _ =>
    match ← fs.entry? place with
    | some _ => .error .alreadyExists
    | none => return fs.set place .directory

def ensureDirectory (fs : FileSystem) (p : String) : Except FileFault FileSystem :=
  match fs.makeDirectory p with
  | .ok fs => .ok fs
  | .error f =>
    match fs.find p with
    | .ok .directory => .ok fs
    | _ => .error f

/-- Makes a directory and those above it that are missing, of which at most so many are tried. What was
made stays when one of them cannot be made. -/
def ensureDirectoriesUpTo : Nat → FileSystem → String → Except FileFault Unit × FileSystem
  | 0, fs, _ => (.error .notFound, fs)
  | depth + 1, fs, p =>
    if p = "" then (.ok (), fs)
    else
      match fs.ensureDirectory p with
      | .ok fs => (.ok (), fs)
      | .error .notFound =>
        match Path.parent? p with
        | none => (.error .notFound, fs)
        | some parent =>
          match ensureDirectoriesUpTo depth fs parent with
          | (.error f, fs) => (.error f, fs)
          | (.ok (), fs) =>
            match fs.ensureDirectory p with
            | .ok fs => (.ok (), fs)
            | .error f => (.error f, fs)
      | .error f => (.error f, fs)

def ensureDirectories (fs : FileSystem) (p : String) : Except FileFault Unit × FileSystem :=
  ensureDirectoriesUpTo ((Path.pieces p).length + 1) fs p

/-! ## Listing -/

def line : Place × Entry → String × Nat
  | (place, .file s) => (Path.ofPieces place, s.length)
  | (place, .directory) => (Path.ofPieces place ++ "/", 0)

def list (fs : FileSystem) : List (String × Nat) :=
  (fs.entries.map line).mergeSort fun a b => a.1 ≤ b.1

end FileSystem

/-! ## Access -/

class Files (m : Type → Type) where
  /-- Opens what is at a path. What is opened may not be readable even so, as a directory is not. -/
  openFile (path : String) : m (Except FileFault (Except FileFault (List UInt8)))
  /-- Writes a file, which may be there already. -/
  create (path : String) (content : List UInt8) : m (Except FileFault Unit)
  move (source target : String) : m (Except FileFault Unit)
  remove (path : String) : m (Except FileFault Unit)

def Entry.read : Entry → Except FileFault (List UInt8)
  | .file s => .ok s
  | .directory => .error .isDirectory

def FileSystem.keep (change : FileSystem → Except FileFault FileSystem) :
    StateM FileSystem (Except FileFault Unit) := fun fs =>
  match change fs with
  | .ok fs' => (.ok (), fs')
  | .error f => (.error f, fs)

instance : Files (StateM FileSystem) where
  openFile path := fun fs => ((fs.find path).map Entry.read, fs)
  create path content := FileSystem.keep (·.create path content)
  move source target := FileSystem.keep (·.move source target)
  remove path := FileSystem.keep (·.remove path)

end TileTrace
