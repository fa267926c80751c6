import TileTrace.MessagePack.Token

/-!
# MessagePack documents

The tree of a MessagePack value. Lists and maps may be nested so deeply and no deeper; what comes behind
the value does not count.
-/

namespace TileTrace.MessagePack

open Snapshot

/-- What was read, and what it leaves: the bytes behind it, or the fault of passing over it. -/
abbrev Step (α : Type) := α × Except Fault (List UInt8)

def passed (rest : List UInt8) : Option Fault → Except Fault (List UInt8)
  | none => .ok rest
  | some f => .error f

def stopped : Except Fault (List UInt8) → Option Fault
  | .ok _ => none
  | .error f => some f

def readItems (read : List UInt8 → Step Node) : Nat → List UInt8 → Step (List Node)
  | 0, s => ([], .ok s)
  | n + 1, s =>
    match read s with
    | (v, .error f) => ([v], .error f)
    | (v, .ok s) =>
      let (vs, rest) := readItems read n s
      (v :: vs, rest)

def readEntries (read : List UInt8 → Step Node) : Nat → List UInt8 → Step (List (Node × Node))
  | 0, s => ([], .ok s)
  | n + 1, s =>
    match read s with
    | (k, .error f) => ([(k, .defect (.fatal f))], .error f)
    | (k, .ok s) =>
      match read s with
      | (v, .error f) => ([(k, v)], .error f)
      | (v, .ok s) =>
        let (es, rest) := readEntries read n s
        ((k, v) :: es, rest)

def tooDeep : Step Node :=
  (.defect { wanted := .tooDeep, passed := some .tooDeep, number := .badMarker }, .error .tooDeep)

/-- The value at the front of the bytes, with lists and maps nested no deeper than `depth`. -/
def read : Nat → List UInt8 → Step Node
  | _, [] => (.defect (.fatal .noMarker), .error .noMarker)
  | depth, b :: s =>
    match Token.next b s, depth with
    | (.leaf n, s), _ => (n, passed s n.stop?)
    | (_, _), 0 => tooDeep
    | (.extension stop, s), _ + 1 => (.extension stop, passed s stop)
    | (.list n, s), depth + 1 =>
      let (items, rest) := readItems (read depth) n s
      (.list (some n) items (stopped rest), rest)
    | (.map n, s), depth + 1 =>
      let (entries, rest) := readEntries (read depth) n s
      (.map (some n) entries (stopped rest), rest)

def maxDepth : Nat := 1023

def decode (s : List UInt8) : Node :=
  (read maxDepth s).1

end TileTrace.MessagePack
