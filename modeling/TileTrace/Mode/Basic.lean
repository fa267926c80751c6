/-!
# Render modes

The resolutions at which a tile can be shown, from one character a cycle to the disassembled
instruction.
-/

namespace TileTrace

inductive Mode
  /-- One character: `@` for an instruction, the code of a stall. -/
  | lo
  /-- The code of three characters. -/
  | mid
  /-- The first characters of the label. -/
  | hi
  /-- The lowest two bytes of the program counter. -/
  | pc
  /-- The program counter and the instruction. -/
  | full
  deriving DecidableEq

namespace Mode

def all : List Mode :=
  [lo, mid, hi, pc, full]

def width : Mode → Nat
  | lo => 1
  | mid => 3
  | hi => 15
  | pc => 4
  | full => 20

def separator : Mode → String
  | lo => ""
  | _ => " "

def needsDisassembly : Mode → Bool
  | full => true
  | _ => false

def name : Mode → String
  | lo => "lo"
  | mid => "mid"
  | hi => "hi"
  | pc => "pc"
  | full => "full"

def ofName? : String → Option Mode
  | "lo" => some lo
  | "mid" => some mid
  | "hi" => some hi
  | "pc" => some pc
  | "full" => some full
  | _ => none

end Mode

end TileTrace
