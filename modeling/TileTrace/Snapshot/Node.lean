import TileTrace.Decimal.Shortest
import TileTrace.Pc
import TileTrace.Snapshot.Format

/-!
# Documents as they are met

A document is read as a tree of nodes before anything is made of it. A document that breaks off still
has a tree: the branch where it broke ends in a fault, and whoever reads the tree from left to right
meets that fault exactly when he gets there, if no earlier node displeases him. Both formats give the
same kind of tree, so that what a snapshot has to look like is said once.
-/

namespace TileTrace.Snapshot

/-! ## Faults -/

inductive Found
  | unit
  | flag (b : Bool)
  | int (n : Int)
  | float (bits : UInt64)
  | text (s : String)
  | bytes
  | list
  | map
  | extension
  deriving DecidableEq

inductive Mismatch
  | type (found : Found) (expected : String)
  /-- A node of the type, with a value that is not allowed. -/
  | value (found : Found) (expected : String)
  /-- A list in place of a record, with too few items. -/
  | length (items : Nat) (expected : String)
  | missingField (name : String)
  | duplicateField (name : String)
  | unknownVariant (name : String) (known : List String)
  | pc (error : PcError)
  deriving DecidableEq

inductive Fault
  | mismatch (m : Mismatch)
  /-- JSON: not the grammar. -/
  | badSyntax
  /-- JSON: the document ends too early. -/
  | endOfInput
  /-- MessagePack: the document ends where a value has to begin. -/
  | noMarker
  /-- MessagePack: the document ends within a value. -/
  | noData
  /-- MessagePack: a value of this type cannot stand here. -/
  | badMarker
  /-- MessagePack: a list or map has another size than its place asks for. -/
  | badLength
  /-- MessagePack: a text is not UTF-8. -/
  | badText
  /-- MessagePack: lists and maps are nested too deeply. -/
  | tooDeep
  deriving DecidableEq

def intText (n : Int) : String :=
  String.ofList ((if n < 0 then ['-'] else []) ++ Numeral.write 10 n.natAbs)

/-- How a message names what was found. The formats have their own words for nothing and write floats
in their own style. -/
def Found.phrase (fmt : Format) : Found → String
  | .unit =>
    match fmt with
    | .json => "null"
    | .messagePack => "unit value"
  | .flag b => "boolean `" ++ (if b then "true" else "false") ++ "`"
  | .int n => "integer `" ++ intText n ++ "`"
  | .float bits =>
    let style := match fmt with
      | .json => Decimal.json
      | .messagePack => Decimal.positional
    "floating point `" ++ style.text bits ++ "`"
  | .text s => "string " ++ Text.quote s
  | .bytes => "byte array"
  | .list => "sequence"
  | .map => "map"
  | .extension => "newtype struct"

def Mismatch.message (fmt : Format) : Mismatch → String
  | .type found expected => "invalid type: " ++ found.phrase fmt ++ ", expected " ++ expected
  | .value found expected => "invalid value: " ++ found.phrase fmt ++ ", expected " ++ expected
  | .length items expected => "invalid length " ++ Numeral.decimal items ++ ", expected " ++ expected
  | .missingField name => "missing field `" ++ name ++ "`"
  | .duplicateField name => "duplicate field `" ++ name ++ "`"
  | .unknownVariant name known =>
    "unknown variant `" ++ name ++ "`, expected " ++
      String.intercalate " or " (known.map fun k => "`" ++ k ++ "`")
  | .pc error => error.message

def Fault.message (fmt : Format) : Fault → String
  | .mismatch m => m.message fmt
  | .badSyntax => "the document is not well formed"
  | .endOfInput => "the document ends too early"
  | .noMarker => "the document ends where a value begins"
  | .noData => "the document ends within a value"
  | .badMarker => "a value of another type was expected"
  | .badLength => "a list or map of another length was expected"
  | .badText => "a text is not valid UTF-8"
  | .tooDeep => "depth limit exceeded"

/-! ## Nodes -/

/-- What the readers of a broken leaf meet: one who wants its value, one who passes over it, one who
wants the name of a choice, and one who wants a flag or a number. -/
structure Defect where
  wanted : Fault
  passed : Option Fault
  choice : Fault := wanted
  number : Fault := wanted
  deriving DecidableEq

def Defect.fatal (f : Fault) : Defect := ⟨f, some f, f, f⟩

/-- A piece of a document. A list or map that is not closed has the fault at which it ends. -/
inductive Node
  | absent
  | flag (b : Bool)
  /-- A number that the document writes without a sign. -/
  | word (n : Nat)
  /-- A number that the document writes as a signed one. -/
  | signed (n : Int)
  | float (bits : UInt64)
  | text (s : String)
  | bytes (s : List UInt8)
  /-- An item of a byte array that is read as a list. -/
  | octet (b : UInt8)
  /-- The announced number of items is known where the format writes it in front of them. -/
  | list (announced : Option Nat) (items : List Node) (stop : Option Fault)
  | map (announced : Option Nat) (entries : List (Node × Node)) (stop : Option Fault)
  /-- A value of a type that the format leaves to its users, with the fault of passing over it. -/
  | extension (stop : Option Fault)
  /-- A key in quotes: the text it is, the number it is for one who wants a number, and the fault that
  he meets behind the number. -/
  | key (text number : Node) (rest : Option Fault)
  | defect (d : Defect)

namespace Node

def stop? : Node → Option Fault
  | list _ _ stop => stop
  | map _ _ stop => stop
  | extension stop => stop
  | key t _ _ => t.stop?
  | defect d => d.passed
  | _ => none

def pass (n : Node) : Except Fault Unit :=
  match n.stop? with
  | none => .ok ()
  | some f => .error f

def found : Node → Except Fault Found
  | absent => .ok .unit
  | flag b => .ok (.flag b)
  | word n => .ok (.int n)
  | signed n => .ok (.int n)
  | float bits => .ok (.float bits)
  | text s => .ok (.text s)
  | bytes _ => .ok .bytes
  | octet b => .ok (.int b.toNat)
  | list .. => .ok .list
  | map .. => .ok .map
  | extension _ => .ok .extension
  | key t _ _ => t.found
  | defect d => .error d.wanted

def reject {α : Type} (n : Node) (expected : String) : Except Fault α :=
  match n.found with
  | .ok found => .error (.mismatch (.type found expected))
  | .error f => .error f

/-- The fault of a reader who wanted a flag or a number. Of the other types MessagePack says only that
they cannot stand here. -/
def rejectScalar {α : Type} (fmt : Format) (n : Node) (expected : String) : Except Fault α :=
  match fmt, n with
  | _, defect d => .error d.number
  | .messagePack, text _ | .messagePack, bytes _ | .messagePack, list .. | .messagePack, map ..
  | .messagePack, extension _ => .error .badMarker
  | _, n => n.reject expected

/-- A byte array stands for the list of its bytes where a list is wanted. -/
def listed : Node → Node
  | bytes s => list (some s.length) (s.map octet) none
  | n => n

end Node

end TileTrace.Snapshot
