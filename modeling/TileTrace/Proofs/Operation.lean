import TileTrace.Operation

/-!
# What the tables of labels hold

A label is classified as the tables have it. Labels of stalls and all codes are single lines.
-/

namespace TileTrace.Operation

theorem mem_of_lookup {β : Type} {k : String} {v : β} {es : List (String × β)} (h : es.lookup k = some v) :
    (k, v) ∈ es := by
  obtain ⟨before, behind, rfl, -⟩ := List.lookup_eq_some_iff.mp h
  simp

theorem mem_of_classify_instruction {label code : String} (h : classify label = .instruction code) :
    (label, code) ∈ integerCodes ++ floatCodes := by
  unfold classify at h
  cases hi : integerCodes.lookup label with
  | some c =>
    simp only [hi, instruction.injEq] at h
    subst h
    exact List.mem_append_left _ (mem_of_lookup hi)
  | none =>
    cases hf : floatCodes.lookup label with
    | some c =>
      simp only [hi, hf, instruction.injEq] at h
      subst h
      exact List.mem_append_right _ (mem_of_lookup hf)
    | none => cases hs : stallCodes.lookup label <;> simp [hi, hf, hs] at h

theorem mem_of_classify_stall {label : String} {code : StallCode} (h : classify label = .stall code) :
    (label, code) ∈ stallCodes := by
  unfold classify at h
  cases hi : integerCodes.lookup label with
  | some c => simp [hi] at h
  | none =>
    cases hf : floatCodes.lookup label with
    | some c => simp [hi, hf] at h
    | none =>
      cases hs : stallCodes.lookup label with
      | none => simp [hi, hf, hs] at h
      | some c =>
        simp only [hi, hf, hs, stall.injEq] at h
        subst h
        exact mem_of_lookup hs

theorem plain_instructions : ∀ e ∈ integerCodes ++ floatCodes, '\n' ∉ e.2.toList := by decide

theorem plain_stalls : ∀ e ∈ stallCodes,
    '\n' ∉ e.1.toList ∧ e.2.lo ≠ '\n' ∧ '\n' ∉ e.2.mid.toList := by decide

end TileTrace.Operation
