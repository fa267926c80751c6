import TileTrace.Snapshot.Format
import TileTrace.Text.Utf8

/-!
# Writing MessagePack

The smallest MessagePack encoding of a document. Sizes from 2^32 on have no encoding; their lowest four
bytes are written.
-/

namespace TileTrace.MessagePack

open Snapshot

def bigEndianBytes : Nat → Nat → List UInt8
  | 0, _ => []
  | size + 1, n => bigEndianBytes size (n / 0x100) ++ [UInt8.ofNat (n % 0x100)]

def writeWord (n : Nat) : List UInt8 :=
  if n < 0x80 then [UInt8.ofNat n]
  else if n < 0x100 then 0xcc :: bigEndianBytes 1 n
  else if n < 0x10000 then 0xcd :: bigEndianBytes 2 n
  else if n < 0x100000000 then 0xce :: bigEndianBytes 4 n
  else 0xcf :: bigEndianBytes 8 n

def writeText (s : String) : List UInt8 :=
  let bs := Utf8.encodeString s
  let n := bs.length
  let head :=
    if n < 0x20 then [UInt8.ofNat (0xa0 + n)]
    else if n < 0x100 then 0xd9 :: bigEndianBytes 1 n
    else if n < 0x10000 then 0xda :: bigEndianBytes 2 n
    else 0xdb :: bigEndianBytes 4 n
  head ++ bs

def listHead (n : Nat) : List UInt8 :=
  if n < 0x10 then [UInt8.ofNat (0x90 + n)]
  else if n < 0x10000 then 0xdc :: bigEndianBytes 2 n
  else 0xdd :: bigEndianBytes 4 n

def mapHead (n : Nat) : List UInt8 :=
  if n < 0x10 then [UInt8.ofNat (0x80 + n)]
  else if n < 0x10000 then 0xde :: bigEndianBytes 2 n
  else 0xdf :: bigEndianBytes 4 n

def writeKey : Key → List UInt8
  | .name s => writeText s
  | .number n => writeWord n.toNat

mutual

def encode : Value → List UInt8
  | .absent => [0xc0]
  | .flag false => [0xc2]
  | .flag true => [0xc3]
  | .word n => writeWord n.toNat
  | .text s => writeText s
  | .list vs => listHead vs.length ++ encodeItems vs
  | .map es => mapHead es.length ++ encodeEntries es

def encodeItems : List Value → List UInt8
  | [] => []
  | v :: vs => encode v ++ encodeItems vs

def encodeEntries : List (Key × Value) → List UInt8
  | [] => []
  | (k, v) :: es => writeKey k ++ encode v ++ encodeEntries es

end

end TileTrace.MessagePack
