import TileTrace.Json.Quoted
import TileTrace.Proofs.Text.Numeral
import TileTrace.Proofs.Text.Utf8

/-!
# Reading quoted texts

The body of a written string is what stands behind its opening quote. One who wants the text gets it
back from the body, whatever characters it has, and one who passes over the string ends up behind the
closing quote. A body that breaks off is never passed over.
-/

namespace TileTrace.Json.Quoted

open Snapshot

def body (s : String) : List UInt8 :=
  Utf8.encode (s.toList.flatMap escape) ++ [0x22]

theorem encode_write (s : String) : Utf8.encode (write s) = 0x22 :: body s := by
  rw [write, Utf8.encode_append, Utf8.encode_append]
  rfl

/-! ## Plain bytes -/

structure Plain (b : UInt8) : Prop where
  ne_quote : b ≠ 0x22
  ne_backslash : b ≠ 0x5c
  not_control : ¬ b < 0x20

theorem bytes_plain {b : UInt8} (h : Plain b) (s : List UInt8) : bytes (b :: s) = (b :: ·) <$> bytes s := by
  obtain ⟨hq, hb, hc⟩ := h
  rw [bytes]
  · rw [if_neg hc]
  all_goals grind

theorem skip_plain {b : UInt8} (h : Plain b) (s : List UInt8) : skip (b :: s) = skip s := by
  obtain ⟨hq, hb, hc⟩ := h
  rw [skip]
  · rw [if_neg hc]
  all_goals grind

theorem bytes_plain_append (s : List UInt8) : ∀ {bs : List UInt8}, (∀ b ∈ bs, Plain b) →
    bytes (bs ++ s) = (bs ++ ·) <$> bytes s
  | [], _ => by simp
  | b :: bs, h => by
    rw [List.cons_append, bytes_plain (h b List.mem_cons_self),
      bytes_plain_append s fun x hx => h x (List.mem_cons_of_mem _ hx), ← comp_map]
    rfl

theorem skip_plain_append (s : List UInt8) : ∀ {bs : List UInt8}, (∀ b ∈ bs, Plain b) →
    skip (bs ++ s) = skip s
  | [], _ => rfl
  | b :: bs, h => by
    rw [List.cons_append, skip_plain (h b List.mem_cons_self),
      skip_plain_append s fun x hx => h x (List.mem_cons_of_mem _ hx)]

theorem plain_of_le {b : UInt8} (h : 0x80 ≤ b.toNat) : Plain b := by
  have hne : ∀ c : UInt8, c.toNat < 0x80 → b ≠ c := fun c hc e => by rw [e] at h; omega
  refine ⟨hne 0x22 (by decide), hne 0x5c (by decide), fun hlt => ?_⟩
  have : b.toNat < 0x20 := UInt8.lt_iff_toNat_lt.mp hlt
  omega

theorem plain_of_mem {c : Char} (hq : c ≠ '"') (hb : c ≠ '\\') (hc : ¬ c.toNat < 0x20) :
    ∀ b ∈ String.utf8EncodeChar c, Plain b := by
  intro b hmem
  rcases Nat.lt_or_ge c.toNat 0x80 with h | h
  · rw [Utf8.utf8EncodeChar_ascii h, List.mem_singleton] at hmem
    have hn : b.toNat = c.toNat := by rw [hmem]; exact Utf8.toNat_ofNat (by omega)
    have hne : ∀ d : Char, c ≠ d → c.toNat ≠ d.toNat := fun d hd e => hd (Char.toNat_inj.mp e)
    refine ⟨?_, ?_, ?_⟩
    · rintro rfl; exact hne '"' hq hn.symm
    · rintro rfl; exact hne '\\' hb hn.symm
    · intro hlt
      have : b.toNat < 0x20 := UInt8.lt_iff_toNat_lt.mp hlt
      omega
  · exact plain_of_le (Utf8.le_of_mem_utf8EncodeChar h hmem)

/-! ## Escapes -/

def hexByte (d : Nat) : UInt8 := UInt8.ofNat (Numeral.digitChar d).toNat

theorem hex?_hexByte : ∀ d < 16, hex? (hexByte d) = some d := by decide

theorem hex4_hexByte {a b c d : Nat} (ha : a < 16) (hb : b < 16) (hc : c < 16) (hd : d < 16) :
    hex4 (hexByte a) (hexByte b) (hexByte c) (hexByte d) = some ((a * 16 + b) * 256 + c * 16 + d) := by
  simp [hex4, hex?_hexByte a ha, hex?_hexByte b hb, hex?_hexByte c hc, hex?_hexByte d hd]

theorem hex4_digits {n : Nat} (hn : n < 0x10000) :
    hex4 (hexByte (n / 16 / 16 / 16 % 16)) (hexByte (n / 16 / 16 % 16)) (hexByte (n / 16 % 16))
      (hexByte (n % 16)) = some n := by
  rw [hex4_hexByte (by omega) (by omega) (by omega) (by omega)]
  exact congrArg some (by omega)

theorem encode_digitChar {d : Nat} (hd : d < 16) :
    String.utf8EncodeChar (Numeral.digitChar d) = [hexByte d] := by
  refine Utf8.utf8EncodeChar_ascii ?_
  rw [Numeral.toNat_digitChar d hd]
  split <;> omega

theorem encode_control (n : Nat) : Utf8.encode (['\\', 'u'] ++ Numeral.writeFixed 16 4 n) =
    [0x5c, 0x75, hexByte (n / 16 / 16 / 16 % 16), hexByte (n / 16 / 16 % 16), hexByte (n / 16 % 16),
      hexByte (n % 16)] := by
  have h : ∀ m, String.utf8EncodeChar (Numeral.digitChar (m % 16)) = [hexByte (m % 16)] :=
    fun m => encode_digitChar (Nat.mod_lt m (by omega))
  rw [Utf8.encode_append]
  simp only [Numeral.writeFixed, List.nil_append, List.append_assoc, List.cons_append, Utf8.encode,
    List.flatMap_cons, List.flatMap_nil, h]
  rfl

theorem bytes_escape_append (c : Char) (s : List UInt8) :
    bytes (Utf8.encode (escape c) ++ s) = (String.utf8EncodeChar c ++ ·) <$> bytes s := by
  unfold escape
  split
  -- the escapes by a letter
  iterate 7 · simp [Utf8.encode, String.utf8EncodeChar, bytes, letter?]
  rename_i hq hb _ _ _ _ _
  split
  · rename_i hlt
    rw [encode_control]
    simp only [List.cons_append, List.nil_append, bytes, hex4_digits (show c.toNat < 0x10000 by omega)]
    rw [if_pos (by omega), utf8, Char.ofNat_toNat]
  · rename_i hc
    rw [Utf8.encode, List.flatMap_singleton]
    exact bytes_plain_append s (plain_of_mem hq hb hc)

theorem skip_escape_append (c : Char) (s : List UInt8) : skip (Utf8.encode (escape c) ++ s) = skip s := by
  unfold escape
  split
  iterate 7 · simp [Utf8.encode, String.utf8EncodeChar, skip, letter?]
  rename_i hq hb _ _ _ _ _
  split
  · rename_i hlt
    rw [encode_control]
    simp only [List.cons_append, List.nil_append, skip, hex4_digits (show c.toNat < 0x10000 by omega),
      Option.isSome_some, if_true]
  · rename_i hc
    rw [Utf8.encode, List.flatMap_singleton]
    exact skip_plain_append s (plain_of_mem hq hb hc)

/-! ## Bodies -/

theorem bytes_escapes_append (s : List UInt8) : ∀ cs : List Char,
    bytes (Utf8.encode (cs.flatMap escape) ++ s) = (Utf8.encode cs ++ ·) <$> bytes s
  | [] => by simp [Utf8.encode]
  | c :: cs => by
    rw [List.flatMap_cons, Utf8.encode_append, List.append_assoc, bytes_escape_append,
      bytes_escapes_append s cs, ← comp_map]
    simp [Utf8.encode, Function.comp_def]

theorem skip_escapes_append (s : List UInt8) : ∀ cs : List Char,
    skip (Utf8.encode (cs.flatMap escape) ++ s) = skip s
  | [] => rfl
  | c :: cs => by
    rw [List.flatMap_cons, Utf8.encode_append, List.append_assoc, skip_escape_append,
      skip_escapes_append s cs]

theorem skip_body_append (t : String) (s : List UInt8) : skip (body t ++ s) = .ok s := by
  rw [body, List.append_assoc, skip_escapes_append]
  rfl

theorem node_body_append (t : String) (s : List UInt8) : node (body t ++ s) = .text t := by
  have hbytes : bytes (body t ++ s) = .ok (Utf8.encodeString t) := by
    rw [body, List.append_assoc, bytes_escapes_append]
    show Except.ok (Utf8.encode t.toList ++ []) = _
    rw [List.append_nil]
    rfl
  simp only [node, hbytes, Utf8.decodeString?_encodeString]

/-! ## Bodies that break off -/

theorem skip_append {s r : List UInt8} (h : skip s = .ok r) (q : List UInt8) :
    skip (s ++ q) = .ok (r ++ q) := by
  fun_induction skip s with
  | case1 => cases h
  | case2 s => cases h; rfl
  | case3 a b c d s hx ih => simp [skip, hx, ih h]
  | case4 => cases h
  | case5 => cases h
  | case6 b s _ _ hx ih =>
    rw [List.cons_append, List.cons_append, skip]
    · rw [if_pos hx, ih h]
    all_goals grind [letter?]
  | case7 => cases h
  | case8 => cases h
  | case9 => cases h
  | case10 b s hq _ _ hescape hend hc ih =>
    have hb : b ≠ 0x5c := by
      cases s with
      | nil => exact fun e => hend e rfl
      | cons x s => exact fun e => hescape x s e rfl
    rw [List.cons_append, skip_plain ⟨hq, hb, hc⟩, ih h]

theorem skip_cut {t : String} {w q : List UInt8} (h : w ++ q = body t) (hq : q ≠ []) :
    ∃ f, skip w = .error f := by
  cases hw : skip w with
  | error f => exact ⟨f, rfl⟩
  | ok r =>
    have hall := skip_append hw q
    have hbody := skip_body_append t []
    rw [List.append_nil, ← h, hall] at hbody
    exact absurd (List.append_eq_nil_iff.mp (Except.ok.inj hbody)).2 hq

end TileTrace.Json.Quoted
