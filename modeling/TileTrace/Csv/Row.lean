/-!
# Rows of comma separated text

Rows end at a line feed, a carriage return or both, and empty lines are passed over. A field that begins
with a quote goes on to the quote that closes it, with doubled quotes inside; what stands behind the
closing quote belongs to the field too. Every row knows where it was found: its number, and the line and
the byte at which its predecessor ended.
-/

namespace TileTrace.Csv

/-- Where a row begins. The first row has the number zero and is on the first line. -/
structure Position where
  record : Nat := 0
  line : Nat := 1
  byte : Nat := 0
  deriving DecidableEq

structure Row where
  position : Position
  fields : List (List UInt8)
  deriving DecidableEq

inductive Place
  | start
  /-- Behind a carriage return that ended a row. -/
  | afterReturn
  | fieldStart
  | field
  | quoted
  | afterQuote
  deriving DecidableEq

/-- What has been read of a row: the field so far and the fields before it, the latest first. -/
structure Reader where
  place : Place := .start
  field : List UInt8 := []
  fields : List (List UInt8) := []
  position : Position := {}
  line : Nat := 1
  byte : Nat := 0

namespace Reader

def quote : UInt8 := 0x22
def comma : UInt8 := 0x2c
def lineFeed : UInt8 := 0x0a
def carriageReturn : UInt8 := 0x0d

def isBreak (b : UInt8) : Bool :=
  b == lineFeed || b == carriageReturn

def endField (r : Reader) : Reader :=
  { r with place := .fieldStart, field := [], fields := r.field.reverse :: r.fields }

def endRow (r : Reader) (place : Place) : Row × Reader :=
  let e := r.endField
  (⟨r.position, e.fields.reverse⟩,
    { place, position := ⟨r.position.record + 1, r.line, r.byte⟩, line := r.line, byte := r.byte })

def advance (r : Reader) (b : UInt8) : Reader :=
  { r with line := if b = lineFeed then r.line + 1 else r.line, byte := r.byte + 1 }

def keep (r : Reader) (place : Place) (b : UInt8) : Option Row × Reader :=
  (none, { r with place, field := b :: r.field })

def stepPlain (r : Reader) (b : UInt8) : Option Row × Reader :=
  if b = comma then (none, r.endField)
  else if b = lineFeed then (r.endRow .start).map some id
  else if b = carriageReturn then (r.endRow .afterReturn).map some id
  else r.keep .field b

def stepStart (r : Reader) (b : UInt8) : Option Row × Reader :=
  if b = quote then (none, { r with place := .quoted }) else r.stepPlain b

def step (r : Reader) (b : UInt8) : Option Row × Reader :=
  let r' := r.advance b
  match r.place with
  | .start => if isBreak b then (none, r') else r'.stepStart b
  | .afterReturn =>
    if b = lineFeed ∨ b = carriageReturn then (none, { r' with place := .start }) else r'.stepStart b
  | .fieldStart => r'.stepStart b
  | .field => r'.stepPlain b
  | .quoted => if b = quote then (none, { r' with place := .afterQuote }) else r'.keep .quoted b
  | .afterQuote => if b = quote then r'.keep .quoted b else r'.stepPlain b

def last (r : Reader) : List Row :=
  match r.place with
  | .start | .afterReturn => []
  | _ => [(r.endRow .start).1]

def rows (r : Reader) : List UInt8 → List Row
  | [] => r.last
  | b :: s =>
    match r.step b with
    | (none, r) => rows r s
    | (some row, r) => row :: rows r s

end Reader

/-- The rows of a text. A byte order mark in front counts as bytes and as nothing else. -/
def rows (s : List UInt8) : List Row :=
  match s with
  | 0xef :: 0xbb :: 0xbf :: s => Reader.rows { byte := 3 } s
  | s => Reader.rows {} s

end TileTrace.Csv
