import TileTrace.Proofs.Operation
import TileTrace.Render

/-!
# What a cell can hold

The contents of a field, mode by mode: codes from the tables, digits of a program counter, the reason or
the label of an idle tile, and the pieces of an instruction.
-/

namespace TileTrace.Rendering

variable {d : Option Disassembly} {tile : Tile} {n : Cycle} {e : Event} {s : List Char}

theorem content_lo_eq_ok (h : content d tile .lo n e = .ok s) :
    s = ['@'] ∨ (∃ label code, (label, code) ∈ Operation.stallCodes ∧ s = [code.lo]) ∨ s = ['0'] := by
  unfold content at h
  cases hop : Operation.classify e.operation with
  | instruction code =>
    simp only [hop] at h
    exact .inl (Except.ok.inj h).symm
  | stall code =>
    simp only [hop] at h
    exact .inr (.inl ⟨_, code, Operation.mem_of_classify_stall hop, (Except.ok.inj h).symm⟩)
  | unrecognized =>
    simp only [hop] at h
    exact .inr (.inr (Except.ok.inj h).symm)

theorem content_mid_eq_ok (h : content d tile .mid n e = .ok s) :
    (∃ label code, (label, code) ∈ Operation.integerCodes ++ Operation.floatCodes ∧ s = code.toList) ∨
      (∃ label code, (label, code) ∈ Operation.stallCodes ∧ s = code.mid.toList) ∨ s = ['0', '0', '0'] := by
  unfold content at h
  cases hop : Operation.classify e.operation with
  | instruction code =>
    simp only [hop] at h
    exact .inl ⟨_, code, Operation.mem_of_classify_instruction hop, (Except.ok.inj h).symm⟩
  | stall code =>
    simp only [hop] at h
    exact .inr (.inl ⟨_, code, Operation.mem_of_classify_stall hop, (Except.ok.inj h).symm⟩)
  | unrecognized =>
    simp only [hop] at h
    exact .inr (.inr (Except.ok.inj h).symm)

/-- In full mode there is a reason or a label behind an idle program counter, and else an instruction. -/
theorem fullContent_eq_ok (h : fullContent d tile n e = .ok s) :
    (e.pc.isIdle = true ∧ ∃ code, Operation.classify e.operation = .stall code ∧
        s = ['#', '#'] ++ stallReason e.operation.toList) ∨
      (e.pc.isIdle = true ∧ s = e.pc.lowDigits.toList ++ [' '] ++ e.operation.toList) ∨
      e.pc.isIdle = false ∧ ∃ a fragments, d = some a ∧ a.get? e.pc = some fragments ∧
        s = e.pc.lowDigits.toList ++ fragments.flatMap fun f => ' ' :: f.toList := by
  unfold fullContent at h
  by_cases hidle : e.pc.isIdle = true
  · simp only [hidle, if_true] at h
    cases hop : Operation.classify e.operation with
    | stall code =>
      simp only [hop] at h
      exact .inl ⟨hidle, code, rfl, (Except.ok.inj h).symm⟩
    | instruction code =>
      simp only [hop] at h
      exact .inr (.inl ⟨hidle, (Except.ok.inj h).symm⟩)
    | unrecognized =>
      simp only [hop] at h
      exact .inr (.inl ⟨hidle, (Except.ok.inj h).symm⟩)
  · simp only [hidle, Bool.false_eq_true, if_false] at h
    cases d with
    | none => cases h
    | some a =>
      cases hget : a.get? e.pc with
      | none =>
        simp only [hget] at h
        cases h
      | some fragments =>
        simp only [hget] at h
        exact .inr (.inr ⟨by simpa using hidle, a, fragments, rfl, hget, (Except.ok.inj h).symm⟩)

end TileTrace.Rendering
