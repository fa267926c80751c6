import TileTrace.Json.Document
import TileTrace.Json.Writer
import TileTrace.MessagePack.Document
import TileTrace.MessagePack.Writer
import TileTrace.Snapshot.Payload

/-!
# Snapshots

A snapshot is a record of a version, a kind and a payload. It is read twice: first for version and kind
alone, whatever the payload is, and once these are right for the payload.
-/

namespace TileTrace.Snapshot

inductive ReadError
  | kind (expected : Kind) (found : String)
  | version (found : UInt32)
  | unreadable (format : Format) (fault : Fault)
  deriving DecidableEq

def ReadError.message : ReadError → String
  | kind expected found =>
    "expected a " ++ expected.name ++ " snapshot but found a " ++ found ++ " snapshot"
  | version found =>
    "snapshot version " ++ Numeral.decimal found.toNat ++ " is not supported (expected " ++
      Numeral.decimal Snapshot.version.toNat ++ ")"
  | unreadable format fault => fault.message format

/-! ## Writing -/

def encode (fmt : Format) (v : Value) : List UInt8 :=
  match fmt with
  | .json => Json.encode v
  | .messagePack => MessagePack.encode v

def envelope {k : Kind} (p : k.Payload) : Value :=
  .map [(.name "version", .word version.toUInt64), (.name "kind", .text k.name),
    (.name "payload", Value.ofPayload p)]

def write (fmt : Format) {k : Kind} (p : k.Payload) : List UInt8 :=
  encode fmt (envelope p)

/-! ## Reading -/

/-- Reads the tree of a document, and then what is behind it. Only JSON minds anything there. -/
def decodeWith {α : Type} (fmt : Format) (read : Node → Except Fault α) (s : List UInt8) :
    Except Fault α :=
  match fmt with
  | .messagePack => read (MessagePack.decode s)
  | .json => do
    let d := Json.Document.ofBytes s
    let a ← read d.root
    Node.finish d.rest a

namespace Node

structure HeaderFields where
  version : Option UInt32 := none
  kind : Option String := none

def readHeader (fmt : Format) (n : Node) : Except Fault (UInt32 × String) := do
  let fields : HeaderFields ← n.readRecord fmt "Header" [
    ⟨"version", (·.version.isSome), fun v s => return { s with version := some (← v.readVersion fmt) }⟩,
    ⟨"kind", (·.kind.isSome), fun v s => return { s with kind := some (← v.readText) }⟩] {}
  return (← require "version" fields.version, ← require "kind" fields.kind)

structure EnvelopeFields (k : Kind) where
  version : Option UInt32 := none
  kind : Option String := none
  payload : Option k.Payload := none

def readEnvelope (fmt : Format) (k : Kind) (n : Node) :
    Except Fault (UInt32 × String × k.Payload) := do
  let fields : EnvelopeFields k ← n.readRecord fmt "Envelope" [
    ⟨"version", (·.version.isSome), fun v s => return { s with version := some (← v.readVersion fmt) }⟩,
    ⟨"kind", (·.kind.isSome), fun v s => return { s with kind := some (← v.readText) }⟩,
    ⟨"payload", (·.payload.isSome), fun v s => do
      return { s with payload := some (← v.readPayload fmt k) }⟩] {}
  return (← require "version" fields.version, ← require "kind" fields.kind,
    ← require "payload" fields.payload)

end Node

/-- Decodes a document as a whole snapshot, without regard to its version and kind. -/
def decodeEnvelope (fmt : Format) (k : Kind) (s : List UInt8) :
    Except Fault (UInt32 × String × k.Payload) :=
  decodeWith fmt (Node.readEnvelope fmt k) s

/-- Reads a snapshot of a kind. The kind is checked before the version, and both before the payload. -/
def read (fmt : Format) (k : Kind) (s : List UInt8) : Except ReadError k.Payload :=
  match decodeWith fmt (Node.readHeader fmt) s with
  | .error f => .error (.unreadable fmt f)
  | .ok (v, found) =>
    if found ≠ k.name then .error (.kind k found)
    else if v ≠ version then .error (.version v)
    else
      match decodeEnvelope fmt k s with
      | .error f => .error (.unreadable fmt f)
      | .ok (_, _, p) => .ok p

end TileTrace.Snapshot
