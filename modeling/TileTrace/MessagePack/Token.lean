import TileTrace.Snapshot.Node
import TileTrace.Text.Utf8

/-!
# MessagePack tokens

A token is a leaf with all its data, or the head of a list or map with the number of its items. The
first byte tells which, and how the lengths and numbers behind it are written; they are big endian.
-/

namespace TileTrace.MessagePack

open Snapshot

inductive Token
  | leaf (n : Node)
  | list (size : Nat)
  | map (size : Nat)
  /-- A value of a type of its users. -/
  | extension (stop : Option Fault)

namespace Token

def take? : Nat → List UInt8 → Option (List UInt8 × List UInt8)
  | 0, s => some ([], s)
  | _ + 1, [] => none
  | n + 1, b :: s => (take? n s).map fun (bs, r) => (b :: bs, r)

def bigEndian (bs : List UInt8) : Nat :=
  bs.foldl (fun n b => n * 0x100 + b.toNat) 0

def twosComplement (words n : Nat) : Int :=
  if 2 * n < words then n else (n : Int) - words

/-- A leaf that ends too early. One who wants a number may object to its type before that. -/
def cut (number : Fault) : Token × List UInt8 :=
  (leaf (.defect { wanted := .noData, passed := some .noData, number }), [])

def number (size : Nat) (make : Nat → Node) (s : List UInt8) : Token × List UInt8 :=
  match take? size s with
  | some (bs, s) => (leaf (make (bigEndian bs)), s)
  | none => cut .noData

def sized (size : Nat) (make : Nat → List UInt8 → Token × List UInt8) (s : List UInt8) :
    Token × List UInt8 :=
  match take? size s with
  | some (bs, s) => make (bigEndian bs) s
  | none => cut .badMarker

/-- A text that is not UTF-8 is a fault for one who wants it, and none for one who passes over it. -/
def textNode (bs : List UInt8) : Node :=
  match Utf8.decodeString? bs with
  | some t => .text t
  | none => .defect { wanted := .badText, passed := none, number := .badMarker }

def data (make : List UInt8 → Node) (size : Nat) (s : List UInt8) : Token × List UInt8 :=
  match take? size s with
  | some (bs, s) => (leaf (make bs), s)
  | none => cut .badMarker

def extended (size : Nat) (s : List UInt8) : Token × List UInt8 :=
  match take? (size + 1) s with
  | some (_, s) => (extension none, s)
  | none => (extension (some .noData), [])

def next (b : UInt8) (s : List UInt8) : Token × List UInt8 :=
  let n := b.toNat
  if n < 0x80 then (leaf (.word n), s)
  else if n < 0x90 then (map (n - 0x80), s)
  else if n < 0xa0 then (list (n - 0x90), s)
  else if n < 0xc0 then data textNode (n - 0xa0) s
  else if 0xe0 ≤ n then (leaf (.signed (n - 0x100)), s)
  else
    match n with
    | 0xc0 => (leaf .absent, s)
    | 0xc2 => (leaf (.flag false), s)
    | 0xc3 => (leaf (.flag true), s)
    | 0xc4 => sized 1 (data .bytes) s
    | 0xc5 => sized 2 (data .bytes) s
    | 0xc6 => sized 4 (data .bytes) s
    | 0xc7 => sized 1 extended s
    | 0xc8 => sized 2 extended s
    | 0xc9 => sized 4 extended s
    | 0xca => number 4 (fun n => .float (Float32.ofBits (UInt32.ofNat n)).toFloat.toBits) s
    | 0xcb => number 8 (fun n => .float (UInt64.ofNat n)) s
    | 0xcc => number 1 .word s
    | 0xcd => number 2 .word s
    | 0xce => number 4 .word s
    | 0xcf => number 8 .word s
    | 0xd0 => number 1 (fun n => .signed (twosComplement 0x100 n)) s
    | 0xd1 => number 2 (fun n => .signed (twosComplement 0x10000 n)) s
    | 0xd2 => number 4 (fun n => .signed (twosComplement UInt32.size n)) s
    | 0xd3 => number 8 (fun n => .signed (twosComplement UInt64.size n)) s
    | 0xd4 => extended 1 s
    | 0xd5 => extended 2 s
    | 0xd6 => extended 4 s
    | 0xd7 => extended 8 s
    | 0xd8 => extended 16 s
    | 0xd9 => sized 1 (data textNode) s
    | 0xda => sized 2 (data textNode) s
    | 0xdb => sized 4 (data textNode) s
    | 0xdc => sized 2 (fun n s => (list n, s)) s
    | 0xdd => sized 4 (fun n s => (list n, s)) s
    | 0xde => sized 2 (fun n s => (map n, s)) s
    | 0xdf => sized 4 (fun n s => (map n, s)) s
    | _ => (leaf (.defect (.fatal .badMarker)), [])

end Token

end TileTrace.MessagePack
