import TileTrace.Text.Utf8

/-!
# Decoding what was encoded

Decoding gives back the characters that were encoded. An ASCII character is encoded as the one byte
with its code, and no byte of another character is below 0x80.
-/

namespace TileTrace.Utf8

theorem toNat_ofNat {n : Nat} (h : n < 0x100) : (UInt8.ofNat n).toNat = n := by
  simp [Nat.mod_eq_of_lt h]

theorem encode_append (cs ds : List Char) : encode (cs ++ ds) = encode cs ++ encode ds :=
  List.flatMap_append

theorem encode_eq_nil {cs : List Char} : encode cs = [] ↔ cs = [] := by
  cases cs with
  | nil => simp [encode]
  | cons c cs => simp [encode, String.utf8EncodeChar_ne_nil]

/-! ## Characters -/

theorem lead?_ofNat {n : Nat} (h : n < 0x100) : lead? (UInt8.ofNat n) =
    if n < 0x80 then some ⟨0, n, 0⟩
    else if n < 0xc0 then none
    else if n < 0xe0 then some ⟨1, n - 0xc0, 0x80⟩
    else if n < 0xf0 then some ⟨2, n - 0xe0, 0x800⟩
    else if n < 0xf8 then some ⟨3, n - 0xf0, 0x10000⟩
    else none := by
  simp only [lead?, toNat_ofNat h]

theorem continue?_cons {m : Nat} (h : m < 0x40) (k acc : Nat) (s : List UInt8) :
    continue? (k + 1) acc (UInt8.ofNat (m + 0x80) :: s) = continue? k (acc * 0x40 + m) s := by
  simp only [continue?, toNat_ofNat (show m + 0x80 < 0x100 by omega)]
  rw [if_pos (by omega), Nat.add_sub_cancel]

theorem next?_of_lead (more payload least : Nat) {b : UInt8} {s r : List UInt8} {c : Char}
    (hb : lead? b = some ⟨more, payload, least⟩) (hk : continue? more payload s = some (c.toNat, r))
    (hl : least ≤ c.toNat) : next? (b :: s) = some (c, r) := by
  simp only [next?, hb, hk]
  rw [if_pos ⟨hl, c.valid⟩, Char.ofNat_toNat]

theorem toNat_lt_max (c : Char) : c.toNat < 0x110000 := by
  have hvalid : c.toNat.isValidChar := c.valid
  simp only [Nat.isValidChar] at hvalid
  omega

theorem next?_utf8EncodeChar (c : Char) (s : List UInt8) :
    next? (String.utf8EncodeChar c ++ s) = some (c, s) := by
  have hmax := toNat_lt_max c
  have h0 : c.toNat % 64 < 0x40 := by omega
  have h1 : c.toNat / 64 % 64 < 0x40 := by omega
  have h2 : c.toNat / 4096 % 64 < 0x40 := by omega
  simp only [String.utf8EncodeChar, Char.toNat_val]
  split
  · refine next?_of_lead 0 c.toNat 0 ?_ rfl (Nat.zero_le _)
    rw [lead?_ofNat (by omega), if_pos (by omega)]
  split
  · refine next?_of_lead 1 (c.toNat / 64 % 32) 0x80 ?_ ?_ (by omega)
    · rw [lead?_ofNat (by omega), if_neg (by omega), if_neg (by omega), if_pos (by omega),
        Nat.add_sub_cancel]
    · refine (continue?_cons h0 _ _ _).trans (congrArg some (Prod.ext ?_ rfl))
      simp only
      omega
  split
  · refine next?_of_lead 2 (c.toNat / 4096 % 16) 0x800 ?_ ?_ (by omega)
    · rw [lead?_ofNat (by omega), if_neg (by omega), if_neg (by omega), if_neg (by omega),
        if_pos (by omega), Nat.add_sub_cancel]
    · refine (continue?_cons h1 _ _ _).trans ((continue?_cons h0 _ _ _).trans
        (congrArg some (Prod.ext ?_ rfl)))
      simp only
      omega
  · refine next?_of_lead 3 (c.toNat / 262144 % 8) 0x10000 ?_ ?_ (by omega)
    · rw [lead?_ofNat (by omega), if_neg (by omega), if_neg (by omega), if_neg (by omega),
        if_neg (by omega), if_pos (by omega), Nat.add_sub_cancel]
    · refine (continue?_cons h2 _ _ _).trans ((continue?_cons h1 _ _ _).trans
        ((continue?_cons h0 _ _ _).trans (congrArg some (Prod.ext ?_ rfl))))
      simp only
      omega

/-! ## Texts -/

theorem decode?_cons (c : Char) (s : List UInt8) :
    decode? (String.utf8EncodeChar c ++ s) = (decode? s).map (c :: ·) := by
  have hne : (String.utf8EncodeChar c ++ s).isEmpty = false := by
    simp [String.utf8EncodeChar_ne_nil]
  rw [decode?, hne]
  simp only [Bool.false_eq_true, if_false]
  split
  · rename_i h; rw [next?_utf8EncodeChar] at h; cases h
  · rename_i h
    rw [next?_utf8EncodeChar] at h
    cases h
    rfl

theorem decode?_encode : ∀ cs : List Char, decode? (encode cs) = some cs
  | [] => by rw [decode?]; rfl
  | c :: cs => by
    rw [encode, List.flatMap_cons, decode?_cons, ← encode, decode?_encode cs]
    rfl

theorem mapM_decode?_encode (css : List (List Char)) : (css.map encode).mapM decode? = some css := by
  induction css with
  | nil => rfl
  | cons cs css ih =>
    rw [List.map_cons, List.mapM_cons, decode?_encode, ih]
    rfl

theorem decodeString?_encodeString (s : String) : decodeString? (encodeString s) = some s := by
  rw [decodeString?, encodeString, decode?_encode, Option.map_some, String.ofList_toList]

theorem length_encode_le : ∀ cs : List Char, (encode cs).length ≤ 4 * cs.length
  | [] => Nat.le_refl 0
  | c :: cs => by
    have hc := c.utf8Size_le_four
    have hcs := length_encode_le cs
    rw [encode] at hcs ⊢
    rw [List.flatMap_cons, List.length_append, String.length_utf8EncodeChar, List.length_cons]
    omega

/-! ## ASCII -/

theorem utf8EncodeChar_ascii {c : Char} (h : c.toNat < 0x80) :
    String.utf8EncodeChar c = [UInt8.ofNat c.toNat] := by
  simp only [String.utf8EncodeChar, Char.toNat_val]
  rw [if_pos (by omega)]

theorem le_toNat_ofNat {n k : Nat} (hk : 0x80 ≤ k) (h : n + k < 0x100) :
    0x80 ≤ (UInt8.ofNat (n + k)).toNat := by
  rw [toNat_ofNat h]
  omega

theorem le_of_mem_utf8EncodeChar {c : Char} (h : 0x80 ≤ c.toNat) {b : UInt8}
    (hb : b ∈ String.utf8EncodeChar c) : 0x80 ≤ b.toNat := by
  simp only [String.utf8EncodeChar, Char.toNat_val] at hb
  rw [if_neg (by omega)] at hb
  split at hb
  · simp only [List.mem_cons, List.not_mem_nil, or_false] at hb
    rcases hb with rfl | rfl <;> exact le_toNat_ofNat (by omega) (by omega)
  split at hb
  · simp only [List.mem_cons, List.not_mem_nil, or_false] at hb
    rcases hb with rfl | rfl | rfl <;> exact le_toNat_ofNat (by omega) (by omega)
  · simp only [List.mem_cons, List.not_mem_nil, or_false] at hb
    rcases hb with rfl | rfl | rfl | rfl <;> exact le_toNat_ofNat (by omega) (by omega)

/-- The byte of an ASCII character stands for that character alone. -/
theorem mem_utf8EncodeChar_ascii {a c : Char} (ha : a.toNat < 0x80) :
    UInt8.ofNat a.toNat ∈ String.utf8EncodeChar c ↔ c = a := by
  by_cases hc : c.toNat < 0x80
  · rw [utf8EncodeChar_ascii hc, List.mem_singleton]
    constructor
    · intro h
      have hnat := congrArg UInt8.toNat h
      rw [toNat_ofNat (by omega), toNat_ofNat (by omega)] at hnat
      exact Char.toNat_inj.mp hnat.symm
    · rintro rfl
      rfl
  · constructor
    · intro h
      have hlow := le_of_mem_utf8EncodeChar (Nat.le_of_not_lt hc) h
      rw [toNat_ofNat (by omega)] at hlow
      omega
    · rintro rfl
      exact absurd ha hc

theorem mem_encode_ascii {a : Char} (ha : a.toNat < 0x80) {cs : List Char} :
    UInt8.ofNat a.toNat ∈ encode cs ↔ a ∈ cs := by
  simp [encode, List.mem_flatMap, mem_utf8EncodeChar_ascii ha]

/-- A test that only ASCII passes gives the same for a character and for each of its bytes. -/
theorem test_of_mem_utf8EncodeChar {p : UInt8 → Bool} {q : Char → Bool}
    (hascii : ∀ n < 0x80, p (UInt8.ofNat n) = q (Char.ofNat n)) (hp : ∀ b, p b = true → b.toNat < 0x80)
    (hq : ∀ c, q c = true → c.toNat < 0x80) {c : Char} {b : UInt8} (hb : b ∈ String.utf8EncodeChar c) :
    p b = q c := by
  by_cases hc : c.toNat < 0x80
  · rw [utf8EncodeChar_ascii hc, List.mem_singleton] at hb
    rw [hb, hascii _ hc, Char.ofNat_toNat]
  · have hlow : 0x80 ≤ b.toNat := le_of_mem_utf8EncodeChar (Nat.le_of_not_lt hc) hb
    have hpb : p b ≠ true := fun h => absurd (hp b h) (Nat.not_lt.mpr hlow)
    have hqc : q c ≠ true := fun h => hc (hq c h)
    rw [eq_false_of_ne_true hpb, eq_false_of_ne_true hqc]

end TileTrace.Utf8
