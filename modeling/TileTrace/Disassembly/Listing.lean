import TileTrace.Disassembly
import TileTrace.Report
import TileTrace.Text.Utf8

/-!
# Listings

Reading a disassembly from a listing, with what is logged of it. Lines of any other shape than an
instruction's are skipped, and of two lines with one address the later one counts.
-/

namespace TileTrace.Disassembly

def ofLines (ls : List (List Char)) : Disassembly × Nat :=
  ls.foldl (fun (d, skipped) l =>
    match instruction? l with
    | some (pc, fragments) => (⟨d.instructions.insert pc fragments⟩, skipped)
    | none => (d, skipped + 1)) ({}, 0)

/-- Reads a listing, and tells what is logged of it. A line that is not UTF-8 spoils the listing. -/
def parse (s : List UInt8) : Option (Disassembly × Log.Entry) := do
  let ls ← (Text.lines s).mapM Utf8.decode?
  let (d, skipped) := ofLines ls
  return (d, .parsed d.size skipped)

def ofListing (s : List UInt8) : Report Disassembly :=
  match parse s with
  | some (d, entry) => ⟨[entry], .ok d⟩
  | none => .fail .notUtf8

def ofOpened : Except FileFault (List UInt8) → Report Disassembly
  | .ok s => ofListing s
  | .error f => .fail (.file f)

end TileTrace.Disassembly
