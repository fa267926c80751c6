/-!
# Kinds and formats of snapshots

A snapshot holds a trace or a disassembly, written as JSON or as MessagePack. What it says is a document
in the terms that both formats have.
-/

namespace TileTrace.Snapshot

inductive Kind
  | trace
  | disassembly
  deriving DecidableEq

def Kind.name : Kind → String
  | .trace => "trace"
  | .disassembly => "disassembly"

inductive Format
  | messagePack
  | json
  deriving DecidableEq

def Format.name : Format → String
  | .messagePack => "MessagePack"
  | .json => "Json"

def version : UInt32 := 1

/-! ## Documents to be written -/

inductive Key
  | name (s : String)
  | number (n : UInt64)
  deriving DecidableEq

inductive Value
  | absent
  | flag (b : Bool)
  | word (n : UInt64)
  | text (s : String)
  | list (items : List Value)
  | map (entries : List (Key × Value))

end TileTrace.Snapshot
