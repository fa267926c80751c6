import TileTrace.Json.Token

/-!
# JSON documents

The tree of a JSON text. Tokens are taken one by one with the lists and maps that are open around them,
and at the first token that cannot stand where it does everything that is open is given up with its
fault, so that what was read before is kept.
-/

namespace TileTrace.Json

open Snapshot

inductive Frame
  | list (items : List Node)
  /-- The key is the one whose value is due. -/
  | map (entries : List (Node × Node)) (key : Option Node)

namespace Frame

def push (n : Node) : Frame → Frame
  | list items => list (n :: items)
  | map entries (some key) => map ((key, n) :: entries) none
  | map entries none => map entries none

def await (k : Node) : Frame → Frame
  | list items => list items
  | map entries _ => map entries (some k)

def close (stop : Option Fault) : Frame → Node
  | list items => .list none items.reverse stop
  | map entries _ => .map none entries.reverse stop

end Frame

inductive Place
  | value
  /-- The first item of a list, or its end. -/
  | firstItem
  /-- The first key of a map, or its end. -/
  | firstKey
  | key
  | colon
  /-- A comma, or the end of the list or map. -/
  | next

inductive State
  /-- Something may come next, with the frames that are open, the innermost first. -/
  | within (place : Place) (frames : List Frame)
  /-- The tree is there, and the fault behind it. -/
  | complete (root : Node) (rest : Option Fault)

namespace State

def start : State := within .value []

def put (n : Node) : List Frame → State
  | [] => complete n none
  | f :: frames => within .next (f.push n :: frames)

def abandonAround (fault : Fault) (n : Node) : List Frame → State
  | [] => complete n (some fault)
  | f :: frames => abandonAround fault ((f.push n).close (some fault)) frames

def abandonValue (fault : Fault) (frames : List Frame) : State :=
  abandonAround fault (.defect (.fatal fault)) frames

def abandon (fault : Fault) : List Frame → State
  | [] => complete (.defect (.fatal fault)) (some fault)
  | f :: frames => abandonAround fault (f.close (some fault)) frames

/-- Puts a leaf where a value is due, and gives up if nobody gets past it. -/
def putLeaf (n : Node) (frames : List Frame) : State :=
  match n.stop? with
  | none => put n frames
  | some f => abandonAround f n frames

def stepValue (frames : List Frame) : Token → State
  | .openList => within .firstItem (.list [] :: frames)
  | .openMap => within .firstKey (.map [] none :: frames)
  | .leaf n => putLeaf n frames
  | .quoted text _ _ => putLeaf text frames
  | _ => abandonValue .badSyntax frames

def stepKey (text number : Node) (rest : Option Fault) : List Frame → State
  | [] => abandon .badSyntax []
  | f :: frames =>
    let k := Node.key text number rest
    match k.stop? with
    | none => within .colon (f.await k :: frames)
    | some fault => abandonValue fault (f.await k :: frames)

def step (s : State) (t : Token) : State :=
  match s with
  | complete root rest => complete root (rest.or (some .badSyntax))
  | within place frames =>
    match place, t, frames with
    | .value, t, frames => stepValue frames t
    | .firstItem, .closeList, f :: frames => put (f.close none) frames
    | .firstItem, t, frames => stepValue frames t
    | .firstKey, .closeMap, f :: frames => put (f.close none) frames
    | .firstKey, .quoted text number rest, frames => stepKey text number rest frames
    | .key, .quoted text number rest, frames => stepKey text number rest frames
    | .colon, .colon, frames => within .value frames
    | .colon, _, frames => abandonValue .badSyntax frames
    | .next, .comma, .list items :: frames => within .value (.list items :: frames)
    | .next, .closeList, .list items :: frames => put (Frame.close none (.list items)) frames
    | .next, .comma, .map entries k :: frames => within .key (.map entries k :: frames)
    | .next, .closeMap, .map entries k :: frames => put (Frame.close none (.map entries k)) frames
    | _, _, frames => abandon .badSyntax frames

def finish : State → State
  | complete root rest => complete root rest
  | within .value frames | within .colon frames => abandonValue .endOfInput frames
  | within _ frames => abandon .endOfInput frames

end State

/-- A document: its tree, and the fault behind it. -/
structure Document where
  root : Node
  rest : Option Fault

def Document.ofState : State → Document
  | .complete root rest => ⟨root, rest⟩
  | .within .. => ⟨.defect (.fatal .endOfInput), none⟩

def Document.ofBytes (s : List UInt8) : Document :=
  .ofState ((Token.scan s).foldl State.step State.start).finish

end TileTrace.Json
