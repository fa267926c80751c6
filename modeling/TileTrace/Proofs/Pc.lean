import TileTrace.Pc
import TileTrace.Proofs.Text.Numeral

/-!
# The text of a program counter

Its eight digits have neither white space around them nor a radix mark in front of them, so they are
read as the program counter they were written for. So is a marker read from its text.
-/

namespace TileTrace

theorem Text.trimLeft_of_noBlank {cs : List Char} (h : ∀ c ∈ cs, isBlank c = false) : trimLeft cs = cs := by
  cases cs with
  | nil => rfl
  | cons c cs => simp [trimLeft, h c List.mem_cons_self]

theorem Text.trim_of_noBlank {cs : List Char} (h : ∀ c ∈ cs, isBlank c = false) : trim cs = cs := by
  rw [trim, trimLeft_of_noBlank h, trimRight, trimLeft_of_noBlank, List.reverse_reverse]
  intro c hc
  exact h c (List.mem_reverse.mp hc)

namespace Pc

theorem stripRadix_digits {cs : List Char} (h : Numeral.AnyDigits 16 cs) : stripRadix cs = cs := by
  unfold stripRadix
  split
  · exact absurd (by simp) (h.not_mem (c := 'x') rfl)
  · exact absurd (by simp) (h.not_mem (c := 'X') rfl)
  · rfl

theorem parse_digits {cs : List Char} (h : Numeral.AnyDigits 16 cs) (hne : cs ≠ []) {pc : Pc}
    (hread : Numeral.readDigits 16 UInt32.size 0 cs = .ok pc.word.toNat) :
    parse (String.ofList cs) = .ok pc := by
  simp only [parse, String.toList_ofList, Text.trim_of_noBlank h.noBlank, stripRadix_digits h,
    Numeral.read_digits hne h, hread, UInt32.ofNat_toNat]

theorem length_text (pc : Pc) : pc.text.length = 8 := by
  rw [← String.length_toList, text, String.toList_ofList, Numeral.writeFixed_length]

theorem parse_text (pc : Pc) : parse pc.text = .ok pc := by
  have hdigits : Numeral.Digits 16 (Numeral.writeFixed 16 8 pc.word.toNat) :=
    Numeral.digits_writeFixed (by omega) 8 _
  have hne : Numeral.writeFixed 16 8 pc.word.toNat ≠ [] :=
    List.ne_nil_of_length_pos (by rw [Numeral.writeFixed_length]; omega)
  have hlt : pc.word.toNat < UInt32.size := pc.word.toNat_lt_size
  exact parse_digits (hdigits.any (Nat.le_refl _)) hne
    (Numeral.readDigits_writeFixed (by omega) (by omega) hlt hlt)

theorem trim_text (pc : Pc) : String.ofList (Text.trim pc.text.toList) = pc.text := by
  have hdigits : Numeral.Digits 16 (Numeral.writeFixed 16 8 pc.word.toNat) :=
    Numeral.digits_writeFixed (by omega) 8 _
  rw [text, String.toList_ofList, Text.trim_of_noBlank (hdigits.any (Nat.le_refl _)).noBlank]

end Pc

namespace Marker

theorem parse_eq_any {s : String} :
    parse s = .ok any ↔ String.ofList (Text.trim s.toList) ∈ ["", "xx", "*"] := by
  simp only [parse, List.mem_cons, List.not_mem_nil, or_false]
  by_cases hany : String.ofList (Text.trim s.toList) = "" ∨ String.ofList (Text.trim s.toList) = "xx" ∨
      String.ofList (Text.trim s.toList) = "*"
  · simp only [hany, if_true]
  · simp only [hany, if_false, iff_false]
    cases Pc.parse (String.ofList (Text.trim s.toList)) <;> exact nofun

/-- A program counter has too many digits to be read as one of the texts for every record. -/
theorem parse_text (m : Marker) : parse m.text = .ok m := by
  cases m with
  | any => rfl
  | pc p =>
    have hlength := p.length_text
    have hnamed : ¬ (p.text = "" ∨ p.text = "xx" ∨ p.text = "*") := by
      intro h
      rcases h with h | h | h <;> rw [h] at hlength <;> exact absurd hlength (by decide)
    unfold parse text
    simp only [p.trim_text, if_neg hnamed, Pc.parse_text]
    rfl

end Marker

end TileTrace
