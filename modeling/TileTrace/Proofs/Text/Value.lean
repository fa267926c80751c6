import Mathlib.Data.List.Induction
import Mathlib.Data.Nat.Digits.Defs
import TileTrace.Proofs.Text.Numeral

/-!
# What is read from digits

Digits are read as the number that they stand for, if it stays below the bound. If it does not, or if not all
characters are digits, then the first character that offends decides the fault.
-/

namespace TileTrace.Numeral

def value (radix : Nat) (cs : List Char) : Nat :=
  Nat.ofDigits radix (cs.reverse.map fun c => (digit? radix c).getD 0)

/-- The first character that offends, with only digits of a value below the bound in front of it, is of this
fault. -/
inductive Offends (radix bound : Nat) (cs : List Char) : Fault → Prop
  | invalidDigit {before after : List Char} {c : Char} (hcs : cs = before ++ c :: after)
    (hdigits : AnyDigits radix before) (hbound : value radix before < bound) (hc : digit? radix c = none) :
    Offends radix bound cs .invalidDigit
  | tooLarge {before after : List Char} {c : Char} (hcs : cs = before ++ c :: after)
    (hdigits : AnyDigits radix (before ++ [c])) (hbound : value radix before < bound)
    (hlarge : bound ≤ value radix (before ++ [c])) : Offends radix bound cs .tooLarge

section
variable {radix bound n : Nat} {cs : List Char} {c : Char}

theorem value_snoc (radix : Nat) (cs : List Char) (c : Char) :
    value radix (cs ++ [c]) = value radix cs * radix + (digit? radix c).getD 0 := by
  rw [value, List.reverse_append, List.reverse_singleton, List.singleton_append, List.map_cons,
    Nat.ofDigits_cons, ← value, Nat.mul_comm, Nat.add_comm]

theorem anyDigits_snoc : AnyDigits radix (cs ++ [c]) ↔ AnyDigits radix cs ∧ (digit? radix c).isSome = true := by
  simp [AnyDigits, or_imp, forall_and]

theorem not_offends_nil {f : Fault} : ¬ Offends radix bound [] f := by
  intro h
  cases h with
  | invalidDigit hcs => simp at hcs
  | tooLarge hcs => simp at hcs

theorem Offends.append {f : Fault} (h : Offends radix bound cs f) (ds : List Char) :
    Offends radix bound (cs ++ ds) f := by
  cases h with
  | invalidDigit hcs hdigits hbound hc =>
    exact .invalidDigit (by rw [hcs, List.append_assoc, List.cons_append]) hdigits hbound hc
  | tooLarge hcs hdigits hbound hlarge =>
    exact .tooLarge (by rw [hcs, List.append_assoc, List.cons_append]) hdigits hbound hlarge

/-! ## Reading whole numerals -/

theorem readDigits_value (hr : 0 < radix) (hdigits : AnyDigits radix cs) (hbound : value radix cs < bound) :
    readDigits radix bound 0 cs = .ok (value radix cs) := by
  induction cs using List.reverseRecOn with
  | nil => rfl
  | append_singleton cs c ih =>
    obtain ⟨hdigits, hc⟩ := anyDigits_snoc.mp hdigits
    obtain ⟨d, hd⟩ := Option.isSome_iff_exists.mp hc
    have hvalue : value radix (cs ++ [c]) = value radix cs * radix + d := by
      rw [value_snoc, hd]
      rfl
    have hle : value radix cs ≤ value radix cs * radix := Nat.le_mul_of_pos_right _ hr
    rw [hvalue] at hbound ⊢
    rw [readDigits_append, ih hdigits (by omega)]
    simp [Except.bind, readDigits, hd, hbound]

/-- Whatever stands there, either all of it is read or some character of it offends. -/
theorem readDigits_cases (hb : 0 < bound) (cs : List Char) :
    (AnyDigits radix cs ∧ value radix cs < bound) ∨ ∃ f, Offends radix bound cs f := by
  induction cs using List.reverseRecOn with
  | nil => exact .inl ⟨nofun, hb⟩
  | append_singleton cs c ih =>
    rcases ih with ⟨hdigits, hbound⟩ | ⟨f, hf⟩
    · by_cases hc : (digit? radix c).isSome = true
      · have hdigits' := anyDigits_snoc.mpr ⟨hdigits, hc⟩
        by_cases hlt : value radix (cs ++ [c]) < bound
        · exact .inl ⟨hdigits', hlt⟩
        · exact .inr ⟨_, .tooLarge rfl hdigits' hbound (Nat.le_of_not_lt hlt)⟩
      · exact .inr ⟨_, .invalidDigit rfl hdigits hbound (by simpa using hc)⟩
    · exact .inr ⟨f, hf.append [c]⟩

theorem Offends.readDigits (hr : 0 < radix) {f : Fault} (h : Offends radix bound cs f) :
    readDigits radix bound 0 cs = .error f := by
  cases h with
  | invalidDigit hcs hdigits hbound hc =>
    rw [hcs, readDigits_append, readDigits_value hr hdigits hbound]
    simp [Except.bind, Numeral.readDigits, hc]
  | @tooLarge before after c hcs hdigits hbound hlarge =>
    obtain ⟨hdigits, hc⟩ := anyDigits_snoc.mp hdigits
    obtain ⟨d, hd⟩ := Option.isSome_iff_exists.mp hc
    have hlarge' : ¬ value radix before * radix + d < bound := by
      rw [value_snoc, hd] at hlarge
      exact Nat.not_lt_of_le hlarge
    rw [hcs, readDigits_append, readDigits_value hr hdigits hbound]
    simp [Except.bind, Numeral.readDigits, hd, hlarge']

theorem readDigits_eq_ok (hr : 0 < radix) (hb : 0 < bound) :
    readDigits radix bound 0 cs = .ok n ↔ AnyDigits radix cs ∧ value radix cs = n ∧ n < bound := by
  constructor
  · intro h
    rcases readDigits_cases hb cs with ⟨hdigits, hbound⟩ | ⟨f, hf⟩
    · rw [readDigits_value hr hdigits hbound, Except.ok.injEq] at h
      exact ⟨hdigits, h, h ▸ hbound⟩
    · rw [hf.readDigits hr] at h
      cases h
  · intro h
    obtain ⟨hdigits, rfl, hbound⟩ := h
    exact readDigits_value hr hdigits hbound

theorem readDigits_eq_error (hr : 0 < radix) (hb : 0 < bound) {f : Fault} :
    readDigits radix bound 0 cs = .error f ↔ Offends radix bound cs f := by
  constructor
  · intro h
    rcases readDigits_cases hb cs with ⟨hdigits, hbound⟩ | ⟨g, hg⟩
    · rw [readDigits_value hr hdigits hbound] at h
      cases h
    · rw [hg.readDigits hr, Except.error.injEq] at h
      exact h ▸ hg
  · exact fun h => h.readDigits hr

/-! ## Signs -/

def unsigned : List Char → List Char
  | '+' :: c :: cs => c :: cs
  | cs => cs

theorem read_eq (hne : cs ≠ []) : read radix bound cs = readDigits radix bound 0 (unsigned cs) := by
  have hplus : digit? radix '+' = none := by simp [digit?]
  unfold read
  split
  · exact absurd rfl hne
  · simp [unsigned, readDigits, hplus]
  · rename_i cs hcs
    obtain ⟨c, ds, rfl⟩ := List.exists_cons_of_ne_nil hcs
    rfl
  · rename_i hsigned
    have hunsigned : unsigned cs = cs := by
      unfold unsigned
      split
      · exact absurd rfl (hsigned _)
      · rfl
    rw [hunsigned]

theorem unsigned_ne_nil (hne : cs ≠ []) : unsigned cs ≠ [] := by
  unfold unsigned
  split
  · exact List.cons_ne_nil _ _
  · exact hne

theorem exists_sign (cs : List Char) : ∃ sign ∈ [[], ['+']], cs = sign ++ unsigned cs := by
  unfold unsigned
  split
  · exact ⟨['+'], by simp, rfl⟩
  · exact ⟨[], by simp, rfl⟩

theorem unsigned_digits (hdigits : AnyDigits radix cs) (hne : cs ≠ []) {sign : List Char}
    (hsign : sign ∈ [[], ['+']]) : unsigned (sign ++ cs) = cs := by
  obtain ⟨c, ds, rfl⟩ := List.exists_cons_of_ne_nil hne
  rcases List.mem_cons.mp hsign with rfl | hsign
  · have hplus : c ≠ '+' := by
      rintro rfl
      exact hdigits.not_mem (by simp [digit?]) List.mem_cons_self
    unfold unsigned
    split
    · rename_i heq
      exact absurd (List.cons.inj heq).1 hplus
    · rfl
  · rw [List.mem_singleton.mp hsign]
    rfl

end

end TileTrace.Numeral
