import TileTrace.CommandLine.Program

/-!
# Running on the files of the system

Carries out the file operations of the program on the files of the system, and shows the outcome of a
run: the log and what went wrong on standard error, the text on standard output.
-/

namespace TileTrace.Host

def fault : IO.Error → FileFault
  | .noFileOrDirectory .. => .notFound
  | .alreadyExists .. => .alreadyExists
  | .resourceBusy .. => .busy
  | e => .other (toString e)

def attempt {α : Type} (x : IO α) : IO (Except FileFault α) := do
  try
    return .ok (← x)
  catch e =>
    return .error (fault e)

instance : Files IO where
  openFile path := do
    match ← attempt (IO.FS.Handle.mk path .read) with
    | .error f => return .error f
    | .ok h => return .ok (← attempt (return (← h.readBinToEnd).toList))
  create path content := attempt (IO.FS.writeBinFile path ⟨content.toArray⟩)
  move source target := attempt (IO.FS.rename source target)
  remove path := attempt (IO.FS.removeFile path)

end TileTrace.Host

def main (words : List String) : IO UInt32 := do
  let outcome ← TileTrace.CommandLine.run words
  for entry in outcome.log do
    IO.eprintln entry.line
  for error in outcome.errors do
    IO.eprintln error
  if outcome.exit = 2 then
    IO.eprintln TileTrace.CommandLine.helpText
  IO.print outcome.stdout
  return outcome.exit.toUInt32
