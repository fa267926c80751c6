import TileTrace.Snapshot.Node

/-!
# JSON numbers

A number is a sign, a whole part without leading zeros, and perhaps a fraction and an exponent. A whole
number that fits into 64 bits is read exactly. Any other number is read as a double: as many of its
digits as fit into 64 bits, scaled by a power of ten.
-/

namespace TileTrace.Json.Number

open Snapshot

def isDigit (b : UInt8) : Bool :=
  0x30 ≤ b && b ≤ 0x39

structure Parts where
  negative : Bool
  whole : List UInt8
  fraction : List UInt8
  exponent : Option (Bool × List UInt8)

/-- A number that breaks off, at the end of the document or at a byte that cannot stand there. -/
def broken {α : Type} (rest : List UInt8) : Except Fault α :=
  .error (if rest.isEmpty then .endOfInput else .badSyntax)

def digits1 (s : List UInt8) : Except Fault (List UInt8 × List UInt8) :=
  let ds := s.takeWhile isDigit
  let rest := s.dropWhile isDigit
  if ds.isEmpty then broken rest else .ok (ds, rest)

def whole (s : List UInt8) : Except Fault (List UInt8 × List UInt8) := do
  let (ds, rest) ← digits1 s
  if ds.head? = some 0x30 ∧ ds.length ≠ 1 then .error .badSyntax else return (ds, rest)

def fraction : List UInt8 → Except Fault (List UInt8 × List UInt8)
  | 0x2e :: s => digits1 s
  | s => .ok ([], s)

def exponent : List UInt8 → Except Fault (Option (Bool × List UInt8) × List UInt8)
  | b :: s =>
    if b = 0x65 ∨ b = 0x45 then do
      let (negative, s) := match s with
        | 0x2b :: s => (false, s)
        | 0x2d :: s => (true, s)
        | s => (false, s)
      let (ds, rest) ← digits1 s
      return (some (negative, ds), rest)
    else .ok (none, b :: s)
  | [] => .ok (none, [])

def parts (s : List UInt8) : Except Fault (Parts × List UInt8) := do
  let (negative, s) := match s with
    | 0x2d :: s => (true, s)
    | s => (false, s)
  let (w, s) ← whole s
  let (f, s) ← fraction s
  let (e, s) ← exponent s
  return (⟨negative, w, f, e⟩, s)

theorem digits1_length {s ds rest : List UInt8} (h : digits1 s = .ok (ds, rest)) :
    rest.length < s.length := by
  simp only [digits1] at h
  split at h
  · simp only [broken] at h; cases h
  · rename_i hd
    simp only [Except.ok.injEq, Prod.mk.injEq] at h
    have hlen := congrArg List.length (List.takeWhile_append_dropWhile (p := isDigit) (l := s))
    rw [List.length_append, h.1, h.2] at hlen
    rw [h.1] at hd
    have : 0 < ds.length := List.length_pos_iff.mpr fun e => hd (by simp [e])
    omega

theorem whole_length {s ds rest : List UInt8} (h : whole s = .ok (ds, rest)) :
    rest.length < s.length := by
  simp only [whole, bind, Except.bind] at h
  split at h
  · cases h
  · rename_i hd
    split at h
    · cases h
    · simp only [pure, Except.pure, Except.ok.injEq] at h
      exact digits1_length (hd.trans (by rw [← h]))

theorem fraction_length {s ds rest : List UInt8} (h : fraction s = .ok (ds, rest)) :
    rest.length ≤ s.length := by
  unfold fraction at h
  split at h
  · have := digits1_length h; simp only [List.length_cons]; omega
  · simp only [Except.ok.injEq, Prod.mk.injEq] at h; exact h.2 ▸ Nat.le_refl _

theorem exponent_length {s rest : List UInt8} {e : Option (Bool × List UInt8)}
    (h : exponent s = .ok (e, rest)) : rest.length ≤ s.length := by
  unfold exponent at h
  split at h
  · split at h
    · simp only [bind, Except.bind] at h
      split at h
      · cases h
      · rename_i hd
        simp only [pure, Except.pure, Except.ok.injEq, Prod.mk.injEq] at h
        rw [← h.2]
        have := digits1_length hd
        simp only [List.length_cons]
        split at this <;> simp only [List.length_cons] at this ⊢ <;> omega
    · simp only [Except.ok.injEq, Prod.mk.injEq] at h; exact h.2 ▸ Nat.le_refl _
  · simp only [Except.ok.injEq, Prod.mk.injEq] at h; exact h.2 ▸ Nat.le_refl _

theorem parts_length {s rest : List UInt8} {p : Parts} (h : parts s = .ok (p, rest)) :
    rest.length < s.length := by
  simp only [parts, bind, Except.bind] at h
  split at h; · cases h
  rename_i hw
  split at h; · cases h
  rename_i hf
  split at h; · cases h
  rename_i he
  simp only [pure, Except.pure, Except.ok.injEq, Prod.mk.injEq] at h
  rw [← h.2]
  have h1 := whole_length hw
  have h2 := fraction_length hf
  have h3 := exponent_length he
  split at h1 <;> simp only [List.length_cons] at h1 ⊢ <;> omega

/-! ## Values -/

/-- The number that the digits write behind `acc`, as far as they go without reaching the bound, and how
many digits it takes. -/
def fill (bound : Nat) : Nat → Nat → List UInt8 → Nat × Nat
  | acc, used, [] => (acc, used)
  | acc, used, b :: ds =>
    let next := acc * 10 + (b.toNat - 0x30)
    if next < bound then fill bound next (used + 1) ds else (acc, used)

def exponentWithin (bound : Nat) (ds : List UInt8) : Option Nat :=
  let (n, used) := fill bound 0 0 ds
  if used = ds.length then some n else none

def power10 (k : Nat) : Float :=
  Float.ofScientific 1 false k

/-- Scales a double down by a power of ten, in steps that doubles can hold. -/
def scaleDown (f : Float) (k : Nat) : Float :=
  if k ≤ 308 then f / power10 k
  else if f == 0.0 then f
  else scaleDown (f / power10 308) (k - 308)
termination_by k
decreasing_by omega

def toDouble (significand : Nat) (exponent : Int) : Option Float :=
  let f := (UInt64.ofNat significand).toFloat
  if exponent < 0 then some (scaleDown f exponent.natAbs)
  else if exponent ≤ 308 then
    let g := f * power10 exponent.natAbs
    if g.isInf then none else some g
  else if significand = 0 then some f
  else none

def negateIf (negative : Bool) (f : Float) : Float :=
  if negative then -f else f

/-- The number as a double. The digits that do not fit into 64 bits count by their place alone, and once
one of the fraction does not fit the rest of the fraction does not count. -/
def double? (p : Parts) : Option Float :=
  let bound := UInt64.size
  let (w, used) := fill bound 0 0 p.whole
  let (significand, places) := fill bound w 0 p.fraction
  let shift : Int := (p.whole.length - used : Nat) - (places : Nat)
  match p.exponent with
  | none => (toDouble significand shift).map (negateIf p.negative)
  | some (down, ds) =>
    match exponentWithin 0x80000000 ds with
    | some e =>
      let exponent := if down then shift - e else shift + e
      (toDouble significand exponent).map (negateIf p.negative)
    | none => if significand = 0 ∨ down then some (negateIf p.negative 0.0) else none

/-- What a reader makes of a number. A double that is too large is a fault for one who wants it, and
none for one who passes over it. -/
def node (p : Parts) : Node :=
  let asDouble :=
    match double? p with
    | some f => Node.float f.toBits
    | none => Node.defect { wanted := .badSyntax, passed := none }
  if p.fraction.isEmpty && p.exponent.isNone then
    let (n, used) := fill UInt64.size 0 0 p.whole
    if used < p.whole.length then asDouble
    else if p.negative then
      if 0 < n ∧ 2 * n ≤ UInt64.size then .signed (-n) else .float (-(UInt64.ofNat n).toFloat).toBits
    else .word n
  else asDouble

/-- The number at the front of the bytes, and what stands behind it. A number that breaks off is bad
syntax for one who passes over it, and for one who wants a name. -/
def read (s : List UInt8) : Node × List UInt8 :=
  match parts s with
  | .ok (p, rest) => (node p, rest)
  | .error f => (.defect ⟨f, some .badSyntax, .badSyntax, f⟩, [])

theorem read_length (b : UInt8) (s : List UInt8) : (read (b :: s)).2.length ≤ s.length := by
  unfold read
  split
  · rename_i h; have := parts_length h; simp only [List.length_cons] at this; simp only; omega
  · exact Nat.zero_le _

end TileTrace.Json.Number
