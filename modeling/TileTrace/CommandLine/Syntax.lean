/-!
# Option syntax

Words of a command line as options with their values. Options have long names and may have a letter;
values follow as words, or behind an equals sign, or behind the letter. An option is judged when the
next one begins or the words end, unless an unknown word comes first.
-/

namespace TileTrace.CommandLine

inductive UsageError
  | showHelp
  | showVersion
  | nothingGiven
  | unknownCommand
  | unknownArgument
  | missingArgument
  /-- An option that may be given once is given again. -/
  | repeated
  /-- An option without a value, or with one that is not among those allowed. -/
  | notAllowed
  | malformed
  | wrongCount
  /-- A value for an option that has none. -/
  | needlessValue
  deriving DecidableEq

/-! ## Words -/

inductive Word
  /-- Two dashes, behind which there are no options. -/
  | separator
  | long (name : String) (value : Option String)
  | letters (cs : List Char)
  | plain (s : String)
  deriving DecidableEq

def Word.ofString (s : String) : Word :=
  match s.toList with
  | ['-', '-'] => separator
  | '-' :: '-' :: cs =>
    match cs.span (· ≠ '=') with
    | (name, _ :: value) => long (String.ofList name) (some (String.ofList value))
    | (name, []) => long (String.ofList name) none
  | '-' :: c :: cs => letters (c :: cs)
  | _ => plain s

/-! ## Options -/

variable {σ : Type}

structure Flag (σ : Type) where
  names : List String
  letter : Option Char := none
  arity : Nat
  /-- Whether it was given, where it may be given once. -/
  given : σ → Bool := fun _ => false
  set : List String → σ → Except UsageError σ

def Flag.take (o : Flag σ) (values : List String) (s : σ) : Except UsageError σ :=
  if values.length ≠ o.arity then .error (if values.isEmpty then .notAllowed else .wrongCount)
  else if o.given s then .error .repeated
  else o.set values s

/-- The settings so far, and the option whose values are being read. -/
structure Scan (σ : Type) where
  settings : σ
  pending : Option (Flag σ × List String) := none

namespace Scan

def settle (s : Scan σ) : Except UsageError σ :=
  match s.pending with
  | none => .ok s.settings
  | some (o, values) => o.take values s.settings

def start (s : Scan σ) (o : Flag σ) (attached : Option String) : Except UsageError (Scan σ) :=
  match o.arity, attached with
  | 0, some _ => .error .needlessValue
  | 0, none => do return { settings := ← o.take [] (← s.settle) }
  | _ + 1, some value => do return { settings := ← o.take [value] (← s.settle) }
  | _ + 1, none => do return { settings := ← s.settle, pending := some (o, []) }

def value (s : Scan σ) (w : String) : Except UsageError (Scan σ) :=
  match s.pending with
  | none => .error .unknownArgument
  | some (o, values) =>
    if values.length < o.arity then .ok { s with pending := some (o, values ++ [w]) }
    else .error .unknownArgument

def letters (flags : List (Flag σ)) : List Char → Scan σ → Except UsageError (Scan σ)
  | [], s => .ok s
  | c :: cs, s =>
    match flags.find? (·.letter = some c) with
    | none => .error .unknownArgument
    | some o =>
      match o.arity, cs with
      | 0, cs => do letters flags cs (← s.start o none)
      | _ + 1, [] => s.start o none
      | _ + 1, '=' :: cs => s.start o (some (String.ofList cs))
      | _ + 1, cs => s.start o (some (String.ofList cs))

def words (flags : List (Flag σ)) : List String → Scan σ → Except UsageError σ
  | [], s => s.settle
  | w :: ws, s =>
    match Word.ofString w with
    | .separator => if ws.isEmpty then s.settle else .error .unknownArgument
    | .long name attached =>
      match flags.find? (·.names.contains name) with
      | none => .error .unknownArgument
      | some o => do words flags ws (← s.start o attached)
    | .letters cs => do words flags ws (← letters flags cs s)
    | .plain w => do words flags ws (← s.value w)

end Scan

def parseFlags (flags : List (Flag σ)) (none : σ) (ws : List String) : Except UsageError σ :=
  Scan.words flags ws { settings := none }

end TileTrace.CommandLine
