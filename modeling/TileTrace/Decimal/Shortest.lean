import TileTrace.Text.Numeral

/-!
# Shortest decimals of doubles

The value of a finite double is a whole number times a power of two, and the reals that round to it
form an interval. Its shortest decimal has the fewest digits of all decimals in that interval, and of
two with so few digits it is the nearer one; formats differ in which they take of two that are equally
near. All is found in exact arithmetic, from the bits of the double: for each number of digits the two
decimals next to the value are tried.
-/

namespace TileTrace.Decimal

inductive Double
  | nan
  | infinite (negative : Bool)
  /-- The value `mantissa * 2 ^ exponent`, up to the sign. -/
  | finite (negative : Bool) (mantissa : Nat) (exponent : Int)
  deriving DecidableEq

def leastNormal : Nat := 0x10000000000000

def Double.ofBits (bits : UInt64) : Double :=
  let negative := (bits >>> 63).toNat == 1
  let power := (bits >>> 52 &&& 0x7ff).toNat
  let fraction := (bits &&& 0xfffffffffffff).toNat
  if power = 2047 then (if fraction = 0 then .infinite negative else .nan)
  else if power = 0 then .finite negative fraction (-1074)
  else .finite negative (fraction + leastNormal) ((power : Int) - 1075)

/-- A fraction `num / den` in units of `base ^ exponent`. -/
def scale (num den base : Nat) (exponent : Int) : Nat × Nat :=
  let factor := Nat.pow base exponent.natAbs
  if exponent < 0 then (num, den * factor) else (num * factor, den)

/-- The exponent `e` with `10 ^ e ≤ num / den < 10 ^ (e + 1)`, for a positive fraction of doubles. -/
def magnitude (num den : Nat) : Int :=
  if den ≤ num then (Numeral.write 10 (num / den)).length - 1
  else
    match (List.range 400).find? fun k => den ≤ num * Nat.pow 10 k with
    | some k => -k
    | none => 0

/-- The reals that round to a double, as fractions over one denominator, with their ends counted in
or not. -/
structure Interval where
  low : Nat
  value : Nat
  high : Nat
  den : Nat
  closed : Bool

/-- The gap below a power of two is half the gap above it. -/
def interval (mantissa : Nat) (exponent : Int) : Interval :=
  let below := if mantissa = leastNormal ∧ exponent ≠ -1074 then 1 else 2
  let unit (k : Nat) := scale k 4 2 exponent
  { low := (unit (4 * mantissa - below)).1
    value := (unit (4 * mantissa)).1
    high := (unit (4 * mantissa + 2)).1
    den := (unit 1).2
    closed := mantissa % 2 = 0 }

/-- Which of two decimals is taken where the value lies in the middle between them. -/
inductive Tie
  /-- The one with an even last digit. -/
  | even
  /-- The one farther from zero. -/
  | up
  deriving DecidableEq

def Tie.takesFloor : Tie → Nat → Bool
  | even, floor => floor % 2 = 0
  | up, _ => false

namespace Interval

def holds (i : Interval) (digits : Nat) (exponent : Int) : Bool :=
  let (n, d) := scale digits 1 10 exponent
  let low := i.low * d
  let here := n * i.den
  let high := i.high * d
  if i.closed then low ≤ here && here ≤ high else low < here && here < high

/-- The decimal of so many digits next to the value that lies in the interval, the nearer one if both
do. -/
def nearest? (i : Interval) (tie : Tie) (size : Nat) : Option (Nat × Int) :=
  let exponent := magnitude i.value i.den + 1 - size
  let (n, d) := scale 1 1 10 exponent
  let floor := i.value * d / (i.den * n)
  match i.holds floor exponent, i.holds (floor + 1) exponent with
  | true, true =>
    -- compare the value with the middle between the two neighbours
    let value := 2 * i.value * d
    let middle := (2 * floor + 1) * (i.den * n)
    if value < middle || (value = middle && tie.takesFloor floor) then some (floor, exponent)
    else some (floor + 1, exponent)
  | true, false => some (floor, exponent)
  | false, true => some (floor + 1, exponent)
  | false, false => none

end Interval

/-- Rounding up to a power of ten leaves one zero at the end. -/
def strip (x : Nat × Int) : Nat × Int :=
  if x.1 % 10 = 0 then (x.1 / 10, x.2 + 1) else x

def shortest (tie : Tie) (mantissa : Nat) (exponent : Int) : Nat × Int :=
  let i := interval mantissa exponent
  match (List.range 17).findSome? fun k => i.nearest? tie (k + 1) with
  | some x => strip x
  | none => (mantissa, exponent)

/-! ## Texts of decimals -/

/-- How a double is written: between which exponents, counted at the leading digit, it has a position
for its point instead of an exponent, and which way ties go. -/
structure Style where
  leastPositional : Option Int
  mostPositional : Option Int
  tie : Tie

/-- JSON shows up to sixteen digits before the point and up to five zeros behind it, and its ties go
to even. -/
def json : Style := ⟨some (-5), some 15, .even⟩

/-- No exponent, however long the text, and ties go up. -/
def positional : Style := ⟨none, none, .up⟩

def zeros (n : Nat) : List Char :=
  List.replicate n '0'

def Style.write (s : Style) (digits : Nat) (exponent : Int) : List Char :=
  let ds := Numeral.write 10 digits
  let lead : Int := ds.length - 1 + exponent
  let small := match s.leastPositional with | some l => decide (lead < l) | none => false
  let large := match s.mostPositional with | some l => decide (l < lead) | none => false
  if small || large then
    let fraction := if ds.length = 1 then [] else '.' :: ds.drop 1
    let sign := if lead < 0 then ['-'] else ['+']
    ds.take 1 ++ fraction ++ ['e'] ++ sign ++ Numeral.write 10 lead.natAbs
  else if 0 ≤ exponent then ds ++ zeros exponent.natAbs ++ ['.', '0']
  else if 0 ≤ lead then ds.take (lead.natAbs + 1) ++ ['.'] ++ ds.drop (lead.natAbs + 1)
  else ['0', '.'] ++ zeros (lead.natAbs - 1) ++ ds

def Style.text (s : Style) (bits : UInt64) : String :=
  match Double.ofBits bits with
  | .nan => "NaN"
  | .infinite negative => if negative then "-inf" else "inf"
  | .finite negative mantissa exponent =>
    let sign := if negative then ['-'] else []
    let body :=
      if mantissa = 0 then ['0', '.', '0']
      else let (d, e) := shortest s.tie mantissa exponent; s.write d e
    String.ofList (sign ++ body)

end TileTrace.Decimal
