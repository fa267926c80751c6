import TileTrace.Snapshot.Node
import TileTrace.Text.Utf8

/-!
# Reading nodes

One reader for every type that occurs in a snapshot. Readers go through a node from left to right and
stop at the first thing that is wrong. A record may be written as a map from the names of its fields,
in any order and among other names, or as the list of all its fields. A byte array is such a list too,
but its items are numbers in every place.
-/

namespace TileTrace.Snapshot.Node

/-! ## Leaves -/

def readFlag (fmt : Format) : Node → Except Fault Bool
  | flag b => .ok b
  | n => n.rejectScalar fmt "a boolean"

def readWord (fmt : Format) (bound : Nat) (name : String) : Node → Except Fault Nat
  | word n => within n
  | signed n => within n
  | octet b => within b.toNat
  | n => n.rejectScalar fmt name
where
  within (n : Int) : Except Fault Nat :=
    if 0 ≤ n ∧ n < bound then .ok n.toNat else .error (.mismatch (.value (.int n) name))

def readVersion (fmt : Format) (n : Node) : Except Fault UInt32 :=
  UInt32.ofNat <$> n.readWord fmt UInt32.size "u32"

def readCycle (fmt : Format) (n : Node) : Except Fault UInt64 :=
  UInt64.ofNat <$> n.readWord fmt UInt64.size "u64"

/-- A cycle as a key: the digits of a key in quotes, with nothing behind them. -/
def readCycleKey (fmt : Format) : Node → Except Fault UInt64
  | key _ number rest => do
    let cycle ← number.readCycle fmt
    match rest with
    | none => return cycle
    | some f => .error f
  | n => n.readCycle fmt

def readText : Node → Except Fault String
  | text s => .ok s
  | key t _ _ => t.readText
  | bytes b =>
    match Utf8.decodeString? b with
    | some s => .ok s
    | none => .error (.mismatch (.value .bytes "a string"))
  | n => n.reject "a string"

def readPc (n : Node) : Except Fault Pc := do
  match Pc.parse (← n.readText) with
  | .ok pc => return pc
  | .error e => .error (.mismatch (.pc e))

def readOption {α : Type} (read : Node → Except Fault α) : Node → Except Fault (Option α)
  | absent => .ok none
  | octet b => (octet b).reject "option"
  | n => some <$> read n

/-! ## Lists and maps -/

def finish {α : Type} (stop : Option Fault) (a : α) : Except Fault α :=
  match stop with
  | none => .ok a
  | some f => .error f

def readList {α : Type} (read : Node → Except Fault α) (n : Node) : Except Fault (List α) :=
  match n.listed with
  | list _ items stop => do finish stop (← items.mapM read)
  | n => n.reject "a sequence"

def readEntry {κ α : Type} (readKey : Node → Except Fault κ) (read : Node → Except Fault α)
    (e : Node × Node) : Except Fault (κ × α) := do
  let k ← readKey e.1
  return (k, ← read e.2)

def readEntries {κ α : Type} (readKey : Node → Except Fault κ) (read : Node → Except Fault α) :
    Node → Except Fault (List (κ × α))
  | map _ entries stop => do finish stop (← entries.mapM (readEntry readKey read))
  | n => n.reject "a map"

/-! ## Choices -/

def readChoiceName {α : Type} (choices : List (String × α)) : Node → Except Fault α
  | text s => named s
  | key t _ _ => t.readChoiceName choices
  | bytes b => named ((Utf8.decodeString? b).getD (Utf8.decodeLossy b))
  | word n =>
    match choices[n]? with
    | some c => .ok c.2
    | none =>
      .error (.mismatch (.value (.int n)
        ("variant index 0 <= i < " ++ Numeral.decimal choices.length)))
  | n => n.reject "variant identifier"
where
  named (s : String) : Except Fault α :=
    match choices.lookup s with
    | some a => .ok a
    | none => .error (.mismatch (.unknownVariant s (choices.map (·.1))))

/-- One of several names, of the type with the name. It may also be written as a map from that one name
to nothing. -/
def readChoice {α : Type} (fmt : Format) (name : String) (choices : List (String × α)) (n : Node) :
    Except Fault α :=
  match fmt, n with
  | .json, text _ => n.readChoiceName choices
  | .json, map _ [] stop => .error (stop.getD .badSyntax)
  | .json, map _ ((k, v) :: more) stop => do
    let a ← k.readChoiceName choices
    match v with
    | absent => if more.isEmpty then finish stop a else .error .badSyntax
    | v => v.reject "unit"
  | .json, defect d => .error d.choice
  | .json, _ => .error .badSyntax
  | .messagePack, map (some 1) ((k, v) :: _) _ => do
    let a ← k.readChoiceName choices
    match v with
    | absent => return a
    | defect d => .error (if d.wanted = .noMarker then .noMarker else .badMarker)
    | _ => .error .badMarker
  | .messagePack, map .. => .error .badLength
  | .messagePack, octet b => (octet b).reject ("enum " ++ name)
  | .messagePack, n => n.readChoiceName choices

/-! ## Records -/

structure Member (σ : Type) where
  name : String
  isSet : σ → Bool
  fill : Node → σ → Except Fault σ

/-- The field that a key names, if it names one. A key may be the number of the field. -/
def member? {σ : Type} (members : List (Member σ)) : Node → Except Fault (Option (Member σ))
  | text s => .ok (members.find? (·.name = s))
  | key t _ _ => t.member? members
  | bytes b => .ok (members.find? fun m => Utf8.encodeString m.name = b)
  | word n => .ok members[n]?
  | defect d => if d.wanted = .badText then .ok none else .error d.wanted
  | n => n.reject "field identifier"

/-- Fills a record from the entries of a map, passing over entries that are no fields. -/
def fillNamed {σ : Type} (members : List (Member σ)) : List (Node × Node) → σ → Except Fault σ
  | [], s => .ok s
  | (k, v) :: entries, s => do
    match ← k.member? members with
    | none =>
      v.pass
      fillNamed members entries s
    | some m =>
      if m.isSet s then .error (.mismatch (.duplicateField m.name))
      else fillNamed members entries (← m.fill v s)

/-- Fills a record from a list of its fields in order, and gives the items that are left. -/
def fillListed {σ : Type} (expected : String) (stop : Option Fault) (count : Nat) :
    List (Member σ) → List Node → σ → Except Fault (List Node × σ)
  | [], items, s => .ok (items, s)
  | _ :: _, [], _ => .error (stop.getD (.mismatch (.length count expected)))
  | m :: members, n :: items, s => do
    fillListed expected stop (count + 1) members items (← m.fill n s)

def readRecord {σ : Type} (fmt : Format) (name : String) (members : List (Member σ)) (blank : σ)
    (n : Node) : Except Fault σ :=
  match n.listed with
  | map _ entries stop => do finish stop (← fillNamed members entries blank)
  | list announced items stop => do
    let expected := "struct " ++ name ++ " with " ++ Numeral.decimal members.length ++
      (if members.length = 1 then " element" else " elements")
    let (left, s) ← fillListed expected stop 0 members items blank
    match fmt with
    | .json => if left.isEmpty then finish stop s else .error .badSyntax
    | .messagePack =>
      if announced = some members.length then return s else .error .badLength
  | n => n.reject ("struct " ++ name)

def require {α : Type} (name : String) : Option α → Except Fault α
  | some a => .ok a
  | none => .error (.mismatch (.missingField name))

end TileTrace.Snapshot.Node
