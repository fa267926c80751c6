import TileTrace.OrderedMap
import TileTrace.Text.Blank
import TileTrace.Text.Quoted

/-!
# Program counters

A program counter is a word of 32 bits. Traces and listings write it in hexadecimal with a varying
number of digits; here it is always written with eight. A marker names the program counter at which a
tile enters or leaves the window of interest, or stands for every record.
-/

namespace TileTrace

structure Pc where
  word : UInt32
  deriving DecidableEq

instance : Ranked Pc where
  rank pc := pc.word.toNat
  rank_inj h := congrArg Pc.mk (UInt32.toNat_inj.mp h)

structure PcError where
  text : String
  cause : Numeral.Fault
  deriving DecidableEq

def PcError.message (e : PcError) : String :=
  "invalid program counter " ++ Text.quote e.text

namespace Pc

/-- What a tile reports while it executes no instruction. -/
def idle : Pc := ⟨0xfffffffc⟩

def isIdle (pc : Pc) : Bool :=
  pc = idle

def text (pc : Pc) : String :=
  String.ofList (Numeral.writeFixed 16 8 pc.word.toNat)

def lowDigits (pc : Pc) : String :=
  String.ofList (Numeral.writeFixed 16 4 pc.word.toNat)

def stripRadix : List Char → List Char
  | '0' :: 'x' :: cs => cs
  | '0' :: 'X' :: cs => cs
  | cs => cs

/-- Reads a program counter: a hexadecimal numeral below 2^32, with white space around it and a radix
mark in front of it if the text has them. -/
def parse (s : String) : Except PcError Pc :=
  match Numeral.read 16 UInt32.size (stripRadix (Text.trim s.toList)) with
  | .ok n => .ok ⟨UInt32.ofNat n⟩
  | .error fault => .error ⟨s, fault⟩

end Pc

/-! ## Markers -/

inductive Marker
  | any
  | pc (pc : Pc)
  deriving DecidableEq

namespace Marker

def Matches : Marker → Pc → Prop
  | any, _ => True
  | pc p, q => p = q

instance (m : Marker) (q : Pc) : Decidable (m.Matches q) :=
  match m with
  | any => inferInstanceAs (Decidable True)
  | pc p => inferInstanceAs (Decidable (p = q))

def text : Marker → String
  | any => "xx"
  | pc p => p.text

/-- Nothing, `xx` and `*` stand for every record, with white space around them or not. -/
def parse (s : String) : Except PcError Marker :=
  let trimmed := String.ofList (Text.trim s.toList)
  if trimmed = "" ∨ trimmed = "xx" ∨ trimmed = "*" then .ok any
  else pc <$> Pc.parse trimmed

end Marker

end TileTrace
