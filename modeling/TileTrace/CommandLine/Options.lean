import TileTrace.CommandLine.Syntax
import TileTrace.Mode.Assignment
import TileTrace.Trace.Builder

/-!
# Commands and their options

What can be asked for on the command line: to compress an operation trace or a listing into a snapshot,
to print a line trace, and to sum up a trace.
-/

namespace TileTrace.CommandLine

structure CompressOptions where
  trace : String
  selection : Selection
  output : String
  deriving DecidableEq

structure CompressAsmOptions where
  asm : String
  output : String
  deriving DecidableEq

/-- The numbers that were given for each mode. Two that follow each other are a range of tiles. -/
structure Bounds where
  lo : List Nat := []
  mid : List Nat := []
  hi : List Nat := []
  pc : List Nat := []
  full : List Nat := []
  deriving DecidableEq

namespace Bounds

def get (b : Bounds) : Mode → List Nat
  | .lo => b.lo
  | .mid => b.mid
  | .hi => b.hi
  | .pc => b.pc
  | .full => b.full

def push (b : Bounds) (ns : List Nat) : Mode → Bounds
  | .lo => { b with lo := b.lo ++ ns }
  | .mid => { b with mid := b.mid ++ ns }
  | .hi => { b with hi := b.hi ++ ns }
  | .pc => { b with pc := b.pc ++ ns }
  | .full => { b with full := b.full ++ ns }

theorem get_push (b : Bounds) (ns : List Nat) (m m' : Mode) :
    (b.push ns m).get m' = if m = m' then b.get m' ++ ns else b.get m' := by
  cases m <;> cases m' <;> rfl

end Bounds

/-- Numbers two by two. One that is left over at the end is dropped. -/
def pairs : List Nat → List (Nat × Nat)
  | start :: stop :: ns => (start, stop) :: pairs ns
  | _ => []

structure PrintOptions where
  trace : String
  disassembly : String
  mode : Option Mode
  bounds : Bounds
  deriving DecidableEq

inductive Command
  | compress (options : CompressOptions)
  | compressAsm (options : CompressAsmOptions)
  | print (options : PrintOptions)
  | info (trace : String)
  deriving DecidableEq

def defaultTrace : String := "trace.snap"

def defaultDisassembly : String := "kernel.dic"

def PrintOptions.rangesOf (o : PrintOptions) (m : Mode) : List Directive :=
  (pairs (o.bounds.get m)).map fun (start, stop) => ⟨m, .span start stop⟩

/-- The directives in the order in which they are applied: the mode for all tiles first, then the
ranges of each mode from the lowest to the highest resolution. -/
def PrintOptions.directives (o : PrintOptions) : List Directive :=
  o.mode.toList.map (fun m => ⟨m, .all⟩) ++ Mode.all.flatMap o.rangesOf

/-! ## Values -/

def readPath (s : String) : Except UsageError String :=
  if s = "" then .error .notAllowed else .ok s

def readMarker (s : String) : Except UsageError Marker :=
  (Marker.parse s).mapError fun _ => .malformed

def readMode (s : String) : Except UsageError Mode :=
  match Mode.ofName? s with
  | some m => .ok m
  | none => .error .notAllowed

def readNumber (s : String) : Except UsageError Nat :=
  (Numeral.read 10 UInt64.size s.toList).mapError fun _ => .malformed

/-! ## Options -/

variable {σ : Type}

def helpFlag : Flag σ where
  names := ["help"]
  letter := some 'h'
  arity := 0
  set := fun _ _ => .error .showHelp

def single {α : Type} (names : List String) (letter : Option Char) (get : σ → Option α)
    (read : String → Except UsageError α) (put : α → σ → σ) : Flag σ where
  names
  letter
  arity := 1
  given := fun s => (get s).isSome
  set := fun values s => do return put (← read (values.headD "")) s

structure CompressSettings where
  input : Option String := none
  start : Option Marker := none
  stop : Option Marker := none
  reduced : Bool := false
  output : Option String := none

def outputFlag : Flag CompressSettings :=
  single ["output"] (some 'o') (·.output) readPath fun v s => { s with output := some v }

def inputFlag (name : String) : Flag CompressSettings :=
  single [name] none (·.input) readPath fun v s => { s with input := some v }

def compressFlags : List (Flag CompressSettings) := [
  inputFlag "trace",
  single ["startpc", "start-pc"] none (·.start) readMarker fun v s => { s with start := some v },
  single ["endpc", "end-pc"] none (·.stop) readMarker fun v s => { s with stop := some v },
  { names := ["fastnfake", "reduced"], arity := 0, given := (·.reduced),
    set := fun _ s => .ok { s with reduced := true } },
  outputFlag,
  helpFlag]

def compressAsmFlags : List (Flag CompressSettings) :=
  [inputFlag "asm", outputFlag, helpFlag]

structure PrintSettings where
  trace : Option String := none
  disassembly : Option String := none
  mode : Option Mode := none
  bounds : Bounds := {}

def traceFlag : Flag PrintSettings :=
  single ["trace"] none (·.trace) readPath fun v s => { s with trace := some v }

def rangeFlag (m : Mode) : Flag PrintSettings where
  names := [m.name]
  arity := 2
  set := fun values s => do return { s with bounds := s.bounds.push (← values.mapM readNumber) m }

def printFlags : List (Flag PrintSettings) := [
  traceFlag,
  single ["dict"] none (·.disassembly) readPath fun v s => { s with disassembly := some v },
  single ["mode"] none (·.mode) readMode fun v s => { s with mode := some v }] ++
  Mode.all.map rangeFlag ++ [helpFlag]

def infoFlags : List (Flag PrintSettings) :=
  [traceFlag, helpFlag]

/-! ## Commands -/

def require {α : Type} : Option α → Except UsageError α
  | some a => .ok a
  | none => .error .missingArgument

def parseCompress (ws : List String) : Except UsageError Command := do
  let s ← parseFlags compressFlags {} ws
  return .compress {
    trace := ← require s.input
    selection := {
      start := s.start.getD .any
      stop := s.stop.getD .any
      grid := if s.reduced then .reduced else .full }
    output := s.output.getD defaultTrace }

def parseCompressAsm (ws : List String) : Except UsageError Command := do
  let s ← parseFlags compressAsmFlags {} ws
  return .compressAsm { asm := ← require s.input, output := s.output.getD defaultDisassembly }

def parsePrint (ws : List String) : Except UsageError Command := do
  let s ← parseFlags printFlags {} ws
  return .print {
    trace := s.trace.getD defaultTrace
    disassembly := s.disassembly.getD defaultDisassembly
    mode := s.mode
    bounds := s.bounds }

def parseInfo (ws : List String) : Except UsageError Command := do
  let s ← parseFlags infoFlags {} ws
  return .info (s.trace.getD defaultTrace)

def commandNames : List String :=
  ["compress", "compress-asm", "print", "info", "help"]

/-- The words behind `help` may name one command. -/
def explain : List String → UsageError
  | [] => .showHelp
  | [w] => if commandNames.contains w then .showHelp else .unknownCommand
  | _ => .unknownCommand

def rejectFirst (w : String) (ws : List String) : UsageError :=
  match Word.ofString w, ws with
  | .separator, [] => .nothingGiven
  | .separator, w :: _ => if commandNames.contains w then .unknownArgument else .unknownCommand
  | .long name value, _ =>
    if name = "help" ∨ name = "version" then
      if value.isSome then .needlessValue
      else if name = "help" then .showHelp
      else .showVersion
    else .unknownArgument
  | .letters ('h' :: _), _ => .showHelp
  | .letters ('V' :: _), _ => .showVersion
  | .letters _, _ => .unknownArgument
  | .plain _, _ => .unknownCommand

def parse : List String → Except UsageError Command
  | [] => .error .nothingGiven
  | "compress" :: ws => parseCompress ws
  | "compress-asm" :: ws => parseCompressAsm ws
  | "print" :: ws => parsePrint ws
  | "info" :: ws => parseInfo ws
  | "help" :: ws => .error (explain ws)
  | w :: ws => .error (rejectFirst w ws)

end TileTrace.CommandLine
