import TileTrace.Csv.Row
import TileTrace.Text.Utf8
import TileTrace.Trace.Basic

/-!
# Records from rows

The rows of an operation trace, as records. The first row names the columns: five of them make a record,
and the others do not count. Fields are trimmed, and taken in the order of the columns.
-/

namespace TileTrace.Trace.Rows

open Csv (Position Row)

inductive Column
  | x
  | y
  | cycle
  | pc
  | operation
  deriving DecidableEq

namespace Column

def name : Column → String
  | x => "x"
  | y => "y"
  | cycle => "cycle"
  | pc => "pc"
  | operation => "operation"

def all : List Column :=
  [x, y, cycle, pc, operation]

def ofName? (s : String) : Option Column :=
  all.find? (·.name = s)

end Column

inductive Cause
  | missing (column : Column)
  | duplicate (column : Column)
  | pc (error : PcError)
  /-- The field with the index is no number. -/
  | number (field : Nat) (fault : Numeral.Fault)
  /-- Rows without names of columns have to have five fields. -/
  | tooShort (fields : Nat)
  deriving DecidableEq

inductive Fault
  /-- The row has another number of fields than the first one. -/
  | lengths (expected found : Nat)
  /-- A field is UTF-8 up to some byte only. -/
  | notUtf8 (field valid : Nat)
  | record (cause : Cause)
  deriving DecidableEq

structure Error where
  position : Position
  fault : Fault
  deriving DecidableEq

def Cause.message : Cause → String
  | .missing c => "missing field `" ++ c.name ++ "`"
  | .duplicate c => "duplicate field `" ++ c.name ++ "`"
  | .pc e => e.message
  | .number field fault => "field " ++ Numeral.decimal field ++ ": " ++ fault.message
  | .tooShort fields =>
    "invalid length " ++ Numeral.decimal fields ++ ", expected struct EventRecord with 5 elements"

def Error.message (e : Error) : String :=
  let record := "record " ++ Numeral.decimal e.position.record
  let line := Numeral.decimal e.position.line
  let byte := Numeral.decimal e.position.byte
  match e.fault with
  | .lengths expected found =>
    "CSV error: " ++ record ++ " (line: " ++ line ++ ", byte: " ++ byte ++ "): found record with " ++
      Numeral.decimal found ++ " fields, but the previous record has " ++ Numeral.decimal expected ++
      " fields"
  | .notUtf8 field valid =>
    "CSV parse error: " ++ record ++ " (line " ++ line ++ ", field: " ++ Numeral.decimal field ++
      ", byte: " ++ byte ++ "): invalid utf-8: invalid UTF-8 in field " ++ Numeral.decimal field ++
      " near byte index " ++ Numeral.decimal valid
  | .record cause =>
    "CSV deserialize error: " ++ record ++ " (line: " ++ line ++ ", byte: " ++ byte ++ "): " ++
      cause.message

/-! ## Fields -/

def isAsciiBlank (b : UInt8) : Bool :=
  b == 0x20 || b == 0x09 || b == 0x0a || b == 0x0c || b == 0x0d

def trimBytes (s : List UInt8) : List UInt8 :=
  ((s.dropWhile isAsciiBlank).reverse.dropWhile isAsciiBlank).reverse

def texts (index : Nat) : List (List UInt8) → Except Fault (List String)
  | [] => .ok []
  | f :: fs => do
    let f := trimBytes f
    match Utf8.decode? f with
    | none => .error (.notUtf8 index (Utf8.validLength f))
    | some cs => return String.ofList (Text.trim cs) :: (← texts (index + 1) fs)

/-- A number of 64 bits, in hexadecimal behind `0x`. -/
def number (s : String) : Except Numeral.Fault Nat :=
  match s.toList with
  | '0' :: 'x' :: cs => Numeral.read 16 UInt64.size cs
  | cs => Numeral.read 10 UInt64.size cs

/-! ## Records -/

structure Partial where
  x : Option Nat := none
  y : Option Nat := none
  cycle : Option Cycle := none
  pc : Option Pc := none
  operation : Option String := none

namespace Partial

def has (p : Partial) : Column → Bool
  | .x => p.x.isSome
  | .y => p.y.isSome
  | .cycle => p.cycle.isSome
  | .pc => p.pc.isSome
  | .operation => p.operation.isSome

def set (p : Partial) (column : Column) (index : Nat) (s : String) : Except Cause Partial :=
  let asNumber := (number s).mapError (.number index)
  match column with
  | .x => return { p with x := some (← asNumber) }
  | .y => return { p with y := some (← asNumber) }
  | .cycle => return { p with cycle := some (UInt64.ofNat (← asNumber)) }
  | .pc => return { p with pc := some (← (Pc.parse s).mapError .pc) }
  | .operation => return { p with operation := some s }

def require {α : Type} (column : Column) : Option α → Except Cause α
  | some a => .ok a
  | none => .error (.missing column)

def finish (p : Partial) : Except Cause Record := do
  let x ← require .x p.x
  let y ← require .y p.y
  return ⟨⟨x, y⟩, ← require .cycle p.cycle, ← require .pc p.pc, ← require .operation p.operation⟩

end Partial

def fill (index : Nat) : List (Option Column × String) → Partial → Except Cause Partial
  | [], p => .ok p
  | (none, _) :: fs, p => fill (index + 1) fs p
  | (some c, s) :: fs, p => do
    if p.has c then .error (.duplicate c)
    else fill (index + 1) fs (← p.set c index s)

/-- The record of a row below its columns. Without names of columns the five come first. -/
def record (columns : Option (List (Option Column))) (fields : List String) : Except Cause Record :=
  match columns with
  | some cs => do (← fill 0 (cs.zip fields) {}).finish
  | none => do
    let p ← fill 0 ((Column.all.map some).zip fields) {}
    if fields.length < 5 then .error (.tooShort fields.length) else p.finish

def columns (header : Row) : Option (List (Option Column)) :=
  match texts 0 header.fields with
  | .ok names => some (names.map Column.ofName?)
  | .error _ => none

def ofRow (width : Nat) (columns : Option (List (Option Column))) (row : Row) : Except Error Record :=
  Except.mapError (Error.mk row.position) <| do
    if row.fields.length ≠ width then .error (.lengths width row.fields.length)
    let fields ← texts 0 row.fields
    (record columns fields).mapError .record

def ofBytes (s : List UInt8) : List (Except Error Record) :=
  match Csv.rows s with
  | [] => []
  | header :: rows => rows.map (ofRow header.fields.length (columns header))

end TileTrace.Trace.Rows
