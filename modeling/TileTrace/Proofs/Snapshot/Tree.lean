import TileTrace.Proofs.Json.Lexeme

/-!
# The tree of a document

What a reader meets of a document that was written, in either format: leaves as they are, and lists and
maps that are closed.
-/

namespace TileTrace

theorem Json.Token.quotedNumber_keyText (n : UInt64) :
    quotedNumber (Quoted.body (keyText (.number n))) = (.word n.toNat, none) := by
  have hdigits : Numeral.Digits 10 (Numeral.write 10 n.toNat) := Numeral.digits_write (by omega) _
  have hbody : Quoted.body (keyText (.number n)) = Number.decimalBytes n.toNat ++ [0x22] := by
    rw [Quoted.body, keyText, Numeral.decimal, String.toList_ofList, escape_digits hdigits]
    rfl
  have hends : Number.Ends [0x22] := by
    intro b hb
    cases hb
    decide
  have hread := Number.read_decimalBytes n.toNat_lt_size hends
  obtain ⟨d, ds, hb, hd, -⟩ := Number.decimalBytes_head n.toNat
  have hdigit := Number.isDigit_of_mem hdigits (UInt8.ofNat (Numeral.digitChar d).toNat) (by
    show _ ∈ Number.decimalBytes n.toNat
    rw [hb]
    exact List.mem_cons_self)
  rw [hb, List.cons_append] at hread
  rw [hbody, hb, List.cons_append, quotedNumber, if_pos (.inl hdigit), hread]
  rfl

namespace Snapshot.Node

/-- What is met of a key. In quotes it is also tried as a number. -/
def ofKey : Format → Key → Node
  | .messagePack, .name s => text s
  | .messagePack, .number n => word n.toNat
  | .json, k =>
    let number := Json.Token.quotedNumber (Json.Quoted.body (Json.keyText k))
    key (text (Json.keyText k)) number.1 number.2

def announced : Format → Nat → Option Nat
  | .messagePack, n => some n
  | .json, _ => none

mutual

def ofValue (fmt : Format) : Value → Node
  | .absent => absent
  | .flag b => flag b
  | .word n => word n.toNat
  | .text s => text s
  | .list vs => list (announced fmt vs.length) (ofItems fmt vs) none
  | .map es => map (announced fmt es.length) (ofEntries fmt es) none

def ofItems (fmt : Format) : List Value → List Node
  | [] => []
  | v :: vs => ofValue fmt v :: ofItems fmt vs

def ofEntries (fmt : Format) : List (Key × Value) → List (Node × Node)
  | [] => []
  | (k, v) :: es => (ofKey fmt k, ofValue fmt v) :: ofEntries fmt es

end

theorem ofItems_eq_map (fmt : Format) (vs : List Value) : ofItems fmt vs = vs.map (ofValue fmt) := by
  induction vs with
  | nil => rw [ofItems, List.map_nil]
  | cons v vs ih => rw [ofItems, ih, List.map_cons]

theorem ofEntries_eq_map (fmt : Format) (es : List (Key × Value)) :
    ofEntries fmt es = es.map fun e => (ofKey fmt e.1, ofValue fmt e.2) := by
  induction es with
  | nil => rw [ofEntries, List.map_nil]
  | cons e es ih => rw [ofEntries, ih, List.map_cons]

def entries : Node → List (Node × Node)
  | map _ entries _ => entries
  | _ => []

/-- A map whose values stop nobody who passes over them, if it is closed. -/
def IsPassableMap (n : Node) : Prop :=
  ∃ announced es stop, n = map announced es stop ∧ (stop = none → ∀ e ∈ es, e.2.stop? = none)

def IsNoMap (n : Node) : Prop :=
  ∀ announced es stop, n ≠ map announced es stop

end Snapshot.Node

end TileTrace
