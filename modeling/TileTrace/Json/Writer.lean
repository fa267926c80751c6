import TileTrace.Json.Quoted
import TileTrace.Snapshot.Format

/-!
# Writing JSON

The shortest JSON text of a document, without white space. Keys are always in quotes, the digits of
numbers too.
-/

namespace TileTrace.Json

open Snapshot

def writeKey : Key → List Char
  | .name s => Quoted.write s
  | .number n => ['"'] ++ Numeral.write 10 n.toNat ++ ['"']

mutual

def write : Value → List Char
  | .absent => ['n', 'u', 'l', 'l']
  | .flag true => ['t', 'r', 'u', 'e']
  | .flag false => ['f', 'a', 'l', 's', 'e']
  | .word n => Numeral.write 10 n.toNat
  | .text s => Quoted.write s
  | .list [] => ['[', ']']
  | .list (v :: vs) => ['['] ++ write v ++ writeItems vs ++ [']']
  | .map [] => ['\x7b', '\x7d']
  | .map ((k, v) :: es) => ['\x7b'] ++ writeKey k ++ [':'] ++ write v ++ writeEntries es ++ ['\x7d']

def writeItems : List Value → List Char
  | [] => []
  | v :: vs => [','] ++ write v ++ writeItems vs

def writeEntries : List (Key × Value) → List Char
  | [] => []
  | (k, v) :: es => [','] ++ writeKey k ++ [':'] ++ write v ++ writeEntries es

end

def encode (v : Value) : List UInt8 :=
  Utf8.encode (write v)

end TileTrace.Json
