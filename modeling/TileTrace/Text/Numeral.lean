/-!
# Numerals

Natural numbers written in a radix up to sixteen, with a bound that they have to stay below. Reading
goes from left to right, and the first place where something is wrong decides the fault: a character
that is no digit, or the digit that takes the value to the bound. One plus sign may lead.
-/

namespace TileTrace

inductive Numeral.Fault
  | empty
  | invalidDigit
  | tooLarge
  deriving DecidableEq

namespace Numeral

def Fault.message : Fault → String
  | .empty => "cannot parse integer from empty string"
  | .invalidDigit => "invalid digit found in string"
  | .tooLarge => "number too large to fit in target type"

def digit? (radix : Nat) (c : Char) : Option Nat :=
  let n := c.toNat
  let value :=
    if 0x30 ≤ n && n ≤ 0x39 then n - 0x30
    else if 0x41 ≤ n && n ≤ 0x46 then n - 0x41 + 10
    else if 0x61 ≤ n && n ≤ 0x66 then n - 0x61 + 10
    else 16
  if value < radix && value < 16 then some value else none

def readDigits (radix bound acc : Nat) : List Char → Except Fault Nat
  | [] => .ok acc
  | c :: cs =>
    match digit? radix c with
    | none => .error .invalidDigit
    | some d =>
      if acc * radix + d < bound then readDigits radix bound (acc * radix + d) cs
      else .error .tooLarge

/-- Reads a numeral. A sign alone is an invalid digit, and so is a minus sign. -/
def read (radix bound : Nat) : List Char → Except Fault Nat
  | [] => .error .empty
  | ['+'] => .error .invalidDigit
  | '+' :: cs => readDigits radix bound 0 cs
  | cs => readDigits radix bound 0 cs

theorem readDigits_lt {radix bound : Nat} : ∀ {cs : List Char} {acc n : Nat}, acc < bound →
    readDigits radix bound acc cs = .ok n → n < bound
  | [], acc, n, ha, h => by simp only [readDigits, Except.ok.injEq] at h; omega
  | c :: cs, acc, n, ha, h => by
    simp only [readDigits] at h
    split at h
    · cases h
    · split at h
      · rename_i hlt; exact readDigits_lt hlt h
      · cases h

theorem read_lt {radix bound n : Nat} {cs : List Char} (hb : 0 < bound)
    (h : read radix bound cs = .ok n) : n < bound := by
  unfold read at h
  split at h
  · cases h
  · cases h
  · exact readDigits_lt hb h
  · exact readDigits_lt hb h

/-! ## Writing -/

def digitChar (d : Nat) : Char :=
  if d < 10 then Char.ofNat (0x30 + d) else Char.ofNat (0x57 + d)

def write (radix n : Nat) : List Char :=
  if n < radix ∨ radix < 2 then [digitChar n]
  else write radix (n / radix) ++ [digitChar (n % radix)]
termination_by n
decreasing_by exact Nat.div_lt_self (by omega) (by omega)

def writeFixed (radix : Nat) : Nat → Nat → List Char
  | 0, _ => []
  | width + 1, n => writeFixed radix width (n / radix) ++ [digitChar (n % radix)]

theorem writeFixed_length (radix : Nat) : ∀ width n, (writeFixed radix width n).length = width
  | 0, _ => rfl
  | width + 1, n => by simp [writeFixed, writeFixed_length radix width]

def decimal (n : Nat) : String :=
  String.ofList (write 10 n)

end Numeral

end TileTrace
