import TileTrace.Pc
import TileTrace.Text.Split

/-!
# Disassembly

A dictionary from program counters to the pieces of the instruction there, and the lines it is read
from. A line is columns between tabs: the address with a colon behind it, the encoding, and the
instruction.
-/

namespace TileTrace

structure Disassembly where
  instructions : OrderedMap Pc (List String) := ∅
  deriving DecidableEq

namespace Disassembly

def get? (d : Disassembly) (pc : Pc) : Option (List String) :=
  d.instructions.get? pc

def contains (d : Disassembly) (pc : Pc) : Bool :=
  d.instructions.contains pc

def size (d : Disassembly) : Nat :=
  d.instructions.size

/-! ## Lines -/

/-- The address of a first column: hexadecimal digits and a colon, with white space around them. -/
def address? (column : List Char) : Option Pc :=
  let (digits, rest) := (Text.trimLeft column).span fun c => (Numeral.digit? 16 c).isSome
  match digits, rest with
  | _ :: _, ':' :: rest =>
    if rest.all Text.isBlank then (Pc.parse (String.ofList digits)).toOption else none
  | _, _ => none

def instruction? (line : List Char) : Option (Pc × List String) :=
  match Text.splitAt '\t' line with
  | first :: _ :: columns => do
    let pc ← address? first
    let fragments := columns.flatMap fun c => (Text.words c).map String.ofList
    if fragments.isEmpty then none else some (pc, fragments)
  | _ => none

end Disassembly

end TileTrace
