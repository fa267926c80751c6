import TileTrace.Files.FileSystem
import TileTrace.Report

/-!
# Saving and loading snapshots

A snapshot is written beside its path first and moved there once it is complete, so that a failure never
leaves half a snapshot at the path. The format follows from the path.
-/

namespace TileTrace.Snapshot

/-- JSON where the extension of the name is `json`, in whatever case. A name that is `.json` alone has no
extension. -/
def Format.ofPath (path : String) : Format :=
  match (Path.name? path).bind Path.extension? with
  | some extension => if extension.map Char.toLower = "json".toList then .json else .messagePack
  | none => .messagePack

def partialPath (path : String) : String :=
  Path.withName path ((Path.name? path).getD [] ++ ".partial".toList)

variable {m : Type → Type} [Monad m] [Files m]

def writePartial (path : String) (content : List UInt8) : Reporting m Unit :=
  ⟨do
    match ← Files.create path content with
    | .ok () => return .pure ()
    | .error f =>
      let _ ← Files.remove path
      return .fail (.openFile path f)⟩

def save {k : Kind} (p : k.Payload) (path : String) : Reporting m Unit := do
  let format := Format.ofPath path
  writePartial (partialPath path) (write format p)
  Reporting.ofAction .file (Files.move (partialPath path) path)
  Reporting.ofReport (.note (.wrote k path format))

def load (k : Kind) (path : String) : Reporting m k.Payload := do
  let opened ← Reporting.ofAction (.openFile path) (Files.openFile path)
  let content ← Reporting.ofReport (.ofResult (opened.mapError .file))
  let p ← Reporting.ofReport (.ofResult ((read (.ofPath path) k content).mapError .snapshot))
  Reporting.ofReport (.note (.loaded k path))
  return p

/-- Loads the disassembly that full mode needs. That there is none is a failure of its own. -/
def loadDisassembly (path : String) : Reporting m Disassembly :=
  ⟨do
    let r ← (load .disassembly path).run
    match r.result with
    | .error (.openFile path .notFound) =>
      return ⟨r.log ++ [.noDisassembly path], .error .missingDisassembly⟩
    | _ => return r⟩

end TileTrace.Snapshot
