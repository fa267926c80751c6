import TileTrace.Proofs.Pc
import TileTrace.Proofs.Text.Value

/-!
# Texts that are program counters

A text is read as a program counter if, but for white space around it, it is a radix mark, a plus sign and
digits, of which the first two may be missing. Of any other text it is told what is wrong behind the radix mark.
-/

namespace TileTrace

open Text (trim)

namespace Pc

/-- A numeral in hexadecimal digits with this value, of any length and in either case. -/
def IsNumeral (n : Nat) (cs : List Char) : Prop :=
  ∃ mark sign digits, cs = mark ++ (sign ++ digits) ∧ mark ∈ [[], ['0', 'x'], ['0', 'X']] ∧ sign ∈ [[], ['+']] ∧
    digits ≠ [] ∧ Numeral.AnyDigits 16 digits ∧ Numeral.value 16 digits = n

theorem exists_mark (cs : List Char) : ∃ mark ∈ [[], ['0', 'x'], ['0', 'X']], cs = mark ++ stripRadix cs := by
  unfold stripRadix
  split
  · exact ⟨['0', 'x'], by simp, rfl⟩
  · exact ⟨['0', 'X'], by simp, rfl⟩
  · exact ⟨[], by simp, rfl⟩

theorem stripRadix_digits_append {mark sign digits : List Char} (hmark : mark ∈ [[], ['0', 'x'], ['0', 'X']])
    (hsign : sign ∈ [[], ['+']]) (hdigits : Numeral.AnyDigits 16 digits) :
    stripRadix (mark ++ (sign ++ digits)) = sign ++ digits := by
  simp only [List.mem_cons, List.not_mem_nil, or_false] at hmark hsign
  rcases hmark with rfl | rfl | rfl
  · rcases hsign with rfl | rfl
    · exact stripRadix_digits hdigits
    · rfl
  · rfl
  · rfl

section
variable {n : Nat} {cs : List Char} {s : String} {pc : Pc} {e : PcError}

theorem read_eq_ok :
    Numeral.read 16 UInt32.size (stripRadix cs) = .ok n ↔ IsNumeral n cs ∧ n < UInt32.size := by
  constructor
  · intro h
    obtain ⟨mark, hmark, hcs⟩ := exists_mark cs
    obtain ⟨sign, hsign, hrest⟩ := Numeral.exists_sign (stripRadix cs)
    by_cases hnil : stripRadix cs = []
    · rw [hnil] at h
      cases h
    · rw [Numeral.read_eq hnil, Numeral.readDigits_eq_ok (by decide) (by decide)] at h
      obtain ⟨hdigits, hvalue, hn⟩ := h
      rw [hrest] at hcs
      exact ⟨⟨mark, sign, _, hcs, hmark, hsign, Numeral.unsigned_ne_nil hnil, hdigits, hvalue⟩, hn⟩
  · intro h
    obtain ⟨⟨mark, sign, digits, rfl, hmark, hsign, hne, hdigits, hvalue⟩, hn⟩ := h
    have hrest : sign ++ digits ≠ [] := by simp [hne]
    rw [stripRadix_digits_append hmark hsign hdigits, Numeral.read_eq hrest,
      Numeral.unsigned_digits hdigits hne hsign, Numeral.readDigits_eq_ok (by decide) (by decide)]
    exact ⟨hdigits, hvalue, hn⟩

theorem read_eq_error {f : Numeral.Fault} : Numeral.read 16 UInt32.size cs = .error f ↔
    (cs = [] ∧ f = .empty) ∨ Numeral.Offends 16 UInt32.size (Numeral.unsigned cs) f := by
  by_cases hnil : cs = []
  · subst hnil
    have hnone : ¬ Numeral.Offends 16 UInt32.size (Numeral.unsigned []) f := Numeral.not_offends_nil
    simp [Numeral.read, hnone, eq_comm]
  · rw [Numeral.read_eq hnil, Numeral.readDigits_eq_error (by decide) (by decide)]
    simp [hnil]

theorem parse_eq_ok : parse s = .ok pc ↔ IsNumeral pc.word.toNat (trim s.toList) := by
  have hnumeral : IsNumeral pc.word.toNat (trim s.toList) ↔
      Numeral.read 16 UInt32.size (stripRadix (trim s.toList)) = .ok pc.word.toNat := by
    rw [read_eq_ok]
    exact (and_iff_left pc.word.toNat_lt_size).symm
  rw [hnumeral]
  unfold parse
  cases hread : Numeral.read 16 UInt32.size (stripRadix (trim s.toList)) with
  | ok n =>
    have hn : n < UInt32.size := Numeral.read_lt (by decide) hread
    simp only [Except.ok.injEq]
    constructor
    · rintro rfl
      exact (UInt32.toNat_ofNat_of_lt hn).symm
    · rintro rfl
      rw [UInt32.ofNat_toNat]
  | error f => simp

theorem parse_eq_error : parse s = .error e ↔ e.text = s ∧
    ((stripRadix (trim s.toList) = [] ∧ e.cause = .empty) ∨
      Numeral.Offends 16 UInt32.size (Numeral.unsigned (stripRadix (trim s.toList))) e.cause) := by
  obtain ⟨text, cause⟩ := e
  rw [← read_eq_error]
  unfold parse
  cases Numeral.read 16 UInt32.size (stripRadix (trim s.toList)) with
  | ok n => simp
  | error f => simp [eq_comm]

end

/-- The texts that are read as a program counter are the numerals below 2^32 with white space around them, and
of any other it is told what offends first. A program counter and a marker are read from what is written for
them, and only three texts stand for every record. -/
theorem parse_exactly_numerals :
    (∀ s pc, parse s = .ok pc ↔ IsNumeral pc.word.toNat (trim s.toList)) ∧
      (∀ s e, parse s = .error e ↔ e.text = s ∧
        ((stripRadix (trim s.toList) = [] ∧ e.cause = .empty) ∨
          Numeral.Offends 16 UInt32.size (Numeral.unsigned (stripRadix (trim s.toList))) e.cause)) ∧
      (∀ pc : Pc, pc.text.length = 8 ∧ parse pc.text = .ok pc) ∧
      (∀ m : Marker, Marker.parse m.text = .ok m) ∧
      ∀ s, Marker.parse s = .ok .any ↔ String.ofList (trim s.toList) ∈ ["", "xx", "*"] :=
  ⟨fun _ _ => parse_eq_ok, fun _ _ => parse_eq_error, fun pc => ⟨pc.length_text, pc.parse_text⟩,
    Marker.parse_text, fun _ => Marker.parse_eq_any⟩

/-- The ninth digit is too many before the tenth character is none. -/
example : parse " 0X123456789g" = .error ⟨" 0X123456789g", .tooLarge⟩ := by rfl

end Pc

end TileTrace
