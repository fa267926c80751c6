import TileTrace.Json.Number
import TileTrace.Json.Quoted

/-!
# JSON tokens

The marks and leaves of a JSON text, with the white space between them left out. What cannot begin a
token is a leaf that every reader stumbles over, and the tokens end there.
-/

namespace TileTrace.Json

open Snapshot

inductive Token
  | openList
  | closeList
  | openMap
  | closeMap
  | comma
  | colon
  /-- A word or a number. -/
  | leaf (n : Node)
  /-- A string: the text it is, and the number it is for one who wants its digits. -/
  | quoted (text number : Node) (rest : Option Fault)

namespace Token

def isSpace (b : UInt8) : Bool :=
  b == 0x20 || b == 0x0a || b == 0x0d || b == 0x09

def word (value : Node) : List UInt8 → List UInt8 → Node × List UInt8
  | [], s => (value, s)
  | _ :: _, [] => (.defect ⟨.endOfInput, some .endOfInput, .badSyntax, .endOfInput⟩, [])
  | b :: letters, c :: s => if b = c then word value letters s else (.defect (.fatal .badSyntax), [])

/-- A number in quotes, from its first byte on, and what is wrong behind it. -/
def quotedNumber (s : List UInt8) : Node × Option Fault :=
  match s with
  | [] => (.defect (.fatal .badSyntax), none)
  | b :: _ =>
    if Number.isDigit b ∨ b = 0x2d then
      let (n, rest) := Number.read s
      (n, if rest.head? = some 0x22 then none else some .badSyntax)
    else (.defect (.fatal .badSyntax), none)

def behind (s : List UInt8) : List UInt8 :=
  match Quoted.skip s with
  | .ok rest => rest
  | .error _ => []

def next (b : UInt8) (s : List UInt8) : Token × List UInt8 :=
  match b with
  | 0x5b => (openList, s)
  | 0x5d => (closeList, s)
  | 0x7b => (openMap, s)
  | 0x7d => (closeMap, s)
  | 0x2c => (comma, s)
  | 0x3a => (colon, s)
  | 0x6e => let (n, rest) := word .absent [0x75, 0x6c, 0x6c] s; (leaf n, rest)
  | 0x74 => let (n, rest) := word (.flag true) [0x72, 0x75, 0x65] s; (leaf n, rest)
  | 0x66 => let (n, rest) := word (.flag false) [0x61, 0x6c, 0x73, 0x65] s; (leaf n, rest)
  | 0x22 =>
    let (number, rest) := quotedNumber s
    (quoted (Quoted.node s) number rest, behind s)
  | b =>
    if Number.isDigit b ∨ b = 0x2d then let (n, rest) := Number.read (b :: s); (leaf n, rest)
    else (leaf (.defect (.fatal .badSyntax)), [])

theorem word_length (value : Node) : ∀ letters s, (word value letters s).2.length ≤ s.length
  | [], _ => Nat.le_refl _
  | _ :: _, [] => Nat.le_refl _
  | b :: letters, c :: s => by
    simp only [word]
    split
    · exact Nat.le_succ_of_le (word_length value letters s)
    · exact Nat.zero_le _

theorem behind_length (s : List UInt8) : (behind s).length ≤ s.length := by
  unfold behind
  split
  · rename_i h; exact Nat.le_of_lt (Quoted.skip_length h)
  · exact Nat.zero_le _

theorem next_length (b : UInt8) (s : List UInt8) : (next b s).2.length ≤ s.length := by
  unfold next
  split <;> try exact Nat.le_refl _
  · exact word_length _ _ _
  · exact word_length _ _ _
  · exact word_length _ _ _
  · exact behind_length _
  · split
    · exact Number.read_length _ _
    · exact Nat.zero_le _

def scan (s : List UInt8) : List Token :=
  match s with
  | [] => []
  | b :: s =>
    if isSpace b then scan s
    else
      have := next_length b s
      (next b s).1 :: scan (next b s).2
termination_by s.length
decreasing_by
  · simp
  · simp only [List.length_cons]; omega

end Token

end TileTrace.Json
