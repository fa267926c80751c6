import TileTrace.Text.Blank
import TileTrace.Text.Numeral

/-!
# Reading what was written

A numeral that was written is read as its number, whether it is the shortest one or has leading zeros.
The shortest numeral of a positive number does not begin with a zero.
-/

namespace TileTrace.Numeral

/-! ## Digits -/

theorem toNat_digitChar : ∀ d < 16, (digitChar d).toNat = if d < 10 then 0x30 + d else 0x57 + d := by
  decide

theorem hexDigit?_digitChar : ∀ d < 16, digit? 16 (digitChar d) = some d := by decide

theorem digit?_of_hexDigit? {radix d : Nat} {c : Char} (h : digit? 16 c = some d) (hd : d < radix) :
    digit? radix c = some d := by
  unfold digit? at h ⊢
  grind

theorem digit?_digitChar {radix d : Nat} (h : d < radix) (hd : d < 16) :
    digit? radix (digitChar d) = some d :=
  digit?_of_hexDigit? (hexDigit?_digitChar d hd) h

theorem digitChar_ne {d : Nat} (hd : d < 16) {c : Char} (hc : digit? 16 c = none) : digitChar d ≠ c := by
  intro h
  rw [← h, digit?_digitChar hd hd] at hc
  cases hc

/-! ## Texts of digits -/

def Digits (radix : Nat) (cs : List Char) : Prop := ∀ c ∈ cs, ∃ d < radix, c = digitChar d

theorem digits_write {radix : Nat} (hr : 2 ≤ radix) (n : Nat) : Digits radix (write radix n) := by
  induction n using Nat.strongRecOn with
  | ind n ih =>
    rw [write]
    split
    · rintro c hc
      exact ⟨n, by omega, by simpa using hc⟩
    · intro c hc
      rcases List.mem_append.mp hc with hc | hc
      · exact ih (n / radix) (Nat.div_lt_self (by omega) (by omega)) c hc
      · exact ⟨n % radix, Nat.mod_lt _ (by omega), by simpa using hc⟩

theorem digits_writeFixed {radix : Nat} (hr : 0 < radix) :
    ∀ width n, Digits radix (writeFixed radix width n)
  | 0, _ => by intro c hc; cases hc
  | width + 1, n => by
    intro c hc
    rcases List.mem_append.mp hc with hc | hc
    · exact digits_writeFixed hr width _ c hc
    · exact ⟨n % radix, Nat.mod_lt _ hr, by simpa using hc⟩

def AnyDigits (radix : Nat) (cs : List Char) : Prop := ∀ c ∈ cs, (digit? radix c).isSome = true

theorem Digits.any {radix : Nat} (hr : radix ≤ 16) {cs : List Char} (h : Digits radix cs) :
    AnyDigits radix cs := by
  intro c hc
  obtain ⟨d, hd, rfl⟩ := h c hc
  rw [digit?_digitChar hd (by omega)]
  rfl

theorem toNat_of_isSome_digit? {radix : Nat} {c : Char} (h : (digit? radix c).isSome = true) :
    (0x30 ≤ c.toNat ∧ c.toNat ≤ 0x39) ∨ (0x41 ≤ c.toNat ∧ c.toNat ≤ 0x46) ∨
      (0x61 ≤ c.toNat ∧ c.toNat ≤ 0x66) := by
  simp only [digit?, Bool.and_eq_true, decide_eq_true_eq] at h
  by_cases hdecimal : 0x30 ≤ c.toNat ∧ c.toNat ≤ 0x39
  · exact .inl hdecimal
  by_cases hupper : 0x41 ≤ c.toNat ∧ c.toNat ≤ 0x46
  · exact .inr (.inl hupper)
  by_cases hlower : 0x61 ≤ c.toNat ∧ c.toNat ≤ 0x66
  · exact .inr (.inr hlower)
  · simp [hdecimal, hupper, hlower] at h

theorem isBlank_of_isSome_digit? {radix : Nat} {c : Char} (h : (digit? radix c).isSome = true) :
    Text.isBlank c = false := by
  have hrange := toNat_of_isSome_digit? h
  simp [Text.isBlank]
  omega

theorem AnyDigits.noBlank {radix : Nat} {cs : List Char} (h : AnyDigits radix cs) :
    ∀ c ∈ cs, Text.isBlank c = false :=
  fun c hc => isBlank_of_isSome_digit? (h c hc)

theorem AnyDigits.not_mem {radix : Nat} {cs : List Char} (h : AnyDigits radix cs) {c : Char}
    (hc : digit? radix c = none) : c ∉ cs := by
  intro hmem
  have hsome := h c hmem
  rw [hc] at hsome
  cases hsome

theorem toNat_toLower (c : Char) :
    c.toLower.toNat = if 0x41 ≤ c.toNat ∧ c.toNat ≤ 0x5a then c.toNat + 0x20 else c.toNat := by
  unfold Char.toLower
  have hval : (c.val ≥ 'A'.val ∧ c.val ≤ 'Z'.val) ↔ 0x41 ≤ c.toNat ∧ c.toNat ≤ 0x5a := by
    simp only [ge_iff_le, UInt32.le_iff_toNat_le]
    rfl
  by_cases h : 0x41 ≤ c.toNat ∧ c.toNat ≤ 0x5a
  · have hsum : (c.val + ('a'.val - 'A'.val)).toNat = c.toNat + 0x20 := by
      rw [UInt32.toNat_add]
      have : ('a'.val - 'A'.val).toNat = 0x20 := rfl
      rw [this]
      show (c.toNat + 0x20) % _ = _
      omega
    rw [dif_pos (hval.mpr h), if_pos h]
    exact hsum
  · rw [dif_neg (fun h' => h (hval.mp h')), if_neg h]

theorem digit?_toLower (radix : Nat) (c : Char) : digit? radix c.toLower = digit? radix c := by
  have hnat := toNat_toLower c
  by_cases h : 0x41 ≤ c.toNat ∧ c.toNat ≤ 0x5a
  · rw [if_pos h] at hnat
    have hvalue : (if 0x61 ≤ c.toNat + 0x20 ∧ c.toNat + 0x20 ≤ 0x66 then c.toNat + 0x20 - 0x61 + 10 else 16) =
        if 0x41 ≤ c.toNat ∧ c.toNat ≤ 0x46 then c.toNat - 0x41 + 10 else 16 := by
      by_cases hhex : c.toNat ≤ 0x46
      · rw [if_pos (by omega), if_pos (by omega)]
        omega
      · rw [if_neg (by omega), if_neg (by omega)]
    have hletter : ¬ (0x30 ≤ c.toNat ∧ c.toNat ≤ 0x39) ∧ ¬ (0x61 ≤ c.toNat ∧ c.toNat ≤ 0x66) := by omega
    have hletter' : ¬ (0x30 ≤ c.toNat + 0x20 ∧ c.toNat + 0x20 ≤ 0x39) ∧
        ¬ (0x41 ≤ c.toNat + 0x20 ∧ c.toNat + 0x20 ≤ 0x46) := by omega
    simp only [digit?, hnat, Bool.and_eq_true, decide_eq_true_eq, hletter, hletter', if_false, hvalue]
  · rw [if_neg h] at hnat
    simp only [digit?, hnat]

theorem anyDigits_toLower {radix : Nat} {cs : List Char} :
    AnyDigits radix (cs.map Char.toLower) ↔ AnyDigits radix cs := by
  simp [AnyDigits, digit?_toLower]

/-- The first digit of a positive number is not zero. -/
theorem write_head {radix : Nat} (hr : 2 ≤ radix) {n : Nat} (hn : 0 < n) :
    ∃ d cs, write radix n = digitChar d :: cs ∧ 0 < d ∧ d < radix := by
  induction n using Nat.strongRecOn with
  | ind n ih =>
    rw [write]
    split
    · exact ⟨n, [], rfl, hn, by omega⟩
    · have hdiv : 0 < n / radix := Nat.div_pos (by omega) (by omega)
      obtain ⟨d, cs, hw, hd⟩ := ih (n / radix) (Nat.div_lt_self hn (by omega)) hdiv
      exact ⟨d, cs ++ [digitChar (n % radix)], by rw [hw]; rfl, hd⟩

theorem write_of_lt {radix n : Nat} (h : n < radix) : write radix n = [digitChar n] := by
  rw [write, if_pos (.inl h)]

theorem write_zero {radix : Nat} (hr : 2 ≤ radix) : write radix 0 = [digitChar 0] :=
  write_of_lt (by omega)

/-! ## Reading -/

theorem readDigits_append (radix bound : Nat) : ∀ (cs ds : List Char) (acc : Nat),
    readDigits radix bound acc (cs ++ ds) =
      (readDigits radix bound acc cs).bind fun n => readDigits radix bound n ds
  | [], _, _ => rfl
  | c :: cs, ds, acc => by
    simp only [List.cons_append, readDigits]
    cases digit? radix c with
    | none => rfl
    | some d =>
      simp only
      split
      · exact readDigits_append radix bound cs ds _
      · rfl

theorem readDigits_digitChar {radix bound acc d : Nat} (hd : d < radix) (hr : radix ≤ 16)
    (hb : acc * radix + d < bound) :
    readDigits radix bound acc [digitChar d] = .ok (acc * radix + d) := by
  simp only [readDigits, digit?_digitChar hd (by omega)]
  rw [if_pos hb]

theorem readDigits_snoc {radix bound n : Nat} {cs : List Char} (hr : 0 < radix) (h16 : radix ≤ 16)
    (hb : n < bound) (h : readDigits radix bound 0 cs = .ok (n / radix)) :
    readDigits radix bound 0 (cs ++ [digitChar (n % radix)]) = .ok n := by
  have hn : n / radix * radix + n % radix = n := by
    rw [Nat.mul_comm]
    exact Nat.div_add_mod n radix
  rw [readDigits_append, h]
  simp only [Except.bind]
  rw [readDigits_digitChar (Nat.mod_lt _ hr) h16 (by omega), hn]

theorem readDigits_write {radix bound : Nat} (hr : 2 ≤ radix) (h16 : radix ≤ 16) {n : Nat} (hb : n < bound) :
    readDigits radix bound 0 (write radix n) = .ok n := by
  induction n using Nat.strongRecOn with
  | ind n ih =>
    rw [write]
    split
    · rw [readDigits_digitChar (by omega) h16 (by omega), Nat.zero_mul, Nat.zero_add]
    · have hlt : n / radix < n := Nat.div_lt_self (by omega) (by omega)
      exact readDigits_snoc (by omega) h16 hb (ih (n / radix) hlt (by omega))

theorem readDigits_writeFixed {radix bound : Nat} (hr : 0 < radix) (h16 : radix ≤ 16) :
    ∀ {width n : Nat}, n < Nat.pow radix width → n < bound →
      readDigits radix bound 0 (writeFixed radix width n) = .ok n
  | 0, n, hn, _ => by
    have : n = 0 := by simp only [Nat.pow] at hn; omega
    subst this
    rfl
  | width + 1, n, hn, hb => by
    have hdiv : n / radix < Nat.pow radix width :=
      Nat.div_lt_of_lt_mul (by rw [Nat.mul_comm]; exact hn)
    have hle : n / radix ≤ n := Nat.div_le_self n radix
    exact readDigits_snoc hr h16 hb (readDigits_writeFixed hr h16 hdiv (by omega))

theorem read_digits {radix bound : Nat} {cs : List Char} (hne : cs ≠ []) (hd : AnyDigits radix cs) :
    read radix bound cs = readDigits radix bound 0 cs := by
  cases cs with
  | nil => exact absurd rfl hne
  | cons c cs =>
    have hplus : c ≠ '+' := by
      rintro rfl
      exact hd.not_mem (by simp [digit?]) List.mem_cons_self
    unfold read
    split
    · rename_i h; cases h
    · rename_i h; exact absurd (List.cons.inj h).1 hplus
    · rename_i h; exact absurd (List.cons.inj h).1 hplus
    · rfl

theorem readDigits_zeros {radix bound : Nat} (hr : 0 < radix) (hb : 0 < bound) (k : Nat) (cs : List Char) :
    readDigits radix bound 0 (List.replicate k '0' ++ cs) = readDigits radix bound 0 cs := by
  induction k with
  | zero => rfl
  | succ k ih =>
    have hzero : digit? radix '0' = some 0 := by simp [digit?, hr]
    rw [List.replicate_succ, List.cons_append, readDigits, hzero]
    simpa [hb] using ih

theorem readDigits_toLower (radix bound : Nat) (cs : List Char) (acc : Nat) :
    readDigits radix bound acc (cs.map Char.toLower) = readDigits radix bound acc cs := by
  induction cs generalizing acc with
  | nil => rfl
  | cons c cs ih => simp only [List.map_cons, readDigits, digit?_toLower, ih]

end TileTrace.Numeral
