import TileTrace.CommandLine.Options
import TileTrace.Disassembly.Listing
import TileTrace.Render
import TileTrace.Snapshot.Storage
import TileTrace.Trace.Basic

/-!
# The program

What the commands do with files. A command either prints its whole text or reports what went wrong and
prints nothing.
-/

namespace TileTrace.CommandLine

structure Outcome where
  exit : Nat
  stdout : String := ""
  /-- What went wrong, from what was being done to the last cause. -/
  errors : List String := []
  log : List Log.Entry := []
  deriving DecidableEq

def Outcome.ofReport (r : Report String) : Outcome :=
  let log := r.log.filter (·.level.isNotice)
  match r.result with
  | .ok stdout => { exit := 0, stdout, log }
  | .error f => { exit := 1, errors := f.chain, log }

def helpText : String :=
  "line traces of vanilla core operation traces\n\n" ++
  "Commands:\n" ++
  "  compress      Compress an operation trace into a snapshot\n" ++
  "  compress-asm  Compress a disassembly listing into a snapshot\n" ++
  "  print         Print the line trace of a compressed trace\n" ++
  "  info          Summarize a compressed trace\n" ++
  "  help          Print this message\n"

def versionText : String :=
  "linetrace 0.1.0\n"

def Outcome.ofUsage : UsageError → Outcome
  | .showHelp => { exit := 0, stdout := helpText }
  | .showVersion => { exit := 0, stdout := versionText }
  | _ => { exit := 2 }

/-! ## Commands -/

variable {m : Type → Type} [Monad m] [Files m]

def openInput (path : String) : Reporting m (Except FileFault (List UInt8)) :=
  .ofAction (.openFile path) (Files.openFile path)

def compress (o : CompressOptions) : Reporting m String := do
  let s := o.selection
  Reporting.ofReport (.note (.compressing o.trace s.start s.stop s.grid))
  let opened ← openInput o.trace
  let trace ← Reporting.ofReport ((Trace.ofOpened s opened).during (.compressing o.trace))
  Snapshot.save (k := .trace) trace o.output
  return ""

def compressAsm (o : CompressAsmOptions) : Reporting m String := do
  let opened ← openInput o.asm
  let disassembly ← Reporting.ofReport ((Disassembly.ofOpened opened).during (.parsing o.asm))
  Snapshot.save (k := .disassembly) disassembly o.output
  return ""

def loadTrace (path : String) : Reporting m Trace :=
  (Snapshot.load .trace path).during (.loadingTrace path)

def loadNeeded (modes : Modes) (path : String) : Reporting m (Option Disassembly) :=
  if modes.needsDisassembly then
    some <$> (Snapshot.loadDisassembly path).during (.loadingDisassembly path)
  else return none

def print (o : PrintOptions) : Reporting m String := do
  let trace ← loadTrace o.trace
  let modes ← Reporting.ofReport (Modes.ofDirectives trace.grid o.directives)
  let disassembly ← loadNeeded modes o.disassembly
  let rendering ← Reporting.ofReport (.ofResult (Rendering.new trace modes disassembly))
  Reporting.ofReport (.note (.window trace.window))
  Reporting.ofReport (.ofResult rendering.text)

def info (path : String) : Reporting m String := do
  let trace ← loadTrace path
  return trace.summary

def perform : Command → Reporting m String
  | .compress o => compress o
  | .compressAsm o => compressAsm o
  | .print o => print o
  | .info path => info path

def run (ws : List String) : m Outcome :=
  match parse ws with
  | .ok c => return .ofReport (← (perform c).run)
  | .error e => return .ofUsage e

end TileTrace.CommandLine
