import TileTrace.MessagePack.Token
import TileTrace.MessagePack.Writer
import TileTrace.Proofs.Text.Utf8

/-!
# MessagePack tokens that were written

A number, a text and the head of a list or map are met as the token they were written for, whichever of
their widths was chosen. A token that is met without a fault is also met with more bytes behind it.
-/

namespace TileTrace.MessagePack

open Snapshot

namespace Token

/-! ## Big endian numbers -/

theorem length_bigEndianBytes : ∀ size n : Nat, (bigEndianBytes size n).length = size
  | 0, _ => rfl
  | size + 1, n => by simp [bigEndianBytes, length_bigEndianBytes size]

theorem bigEndian_bigEndianBytes : ∀ size n : Nat, n < Nat.pow 0x100 size →
    bigEndian (bigEndianBytes size n) = n
  | 0, n, h => by
    have hn : n = 0 := Nat.lt_one_iff.mp h
    rw [hn]
    rfl
  | size + 1, n, h => by
    have hlt : n / 0x100 < Nat.pow 0x100 size := Nat.div_lt_of_lt_mul (by
      rw [Nat.mul_comm]
      exact h)
    have ih := bigEndian_bigEndianBytes size (n / 0x100) hlt
    unfold bigEndian at ih ⊢
    rw [bigEndianBytes, List.foldl_append, ih, List.foldl_cons, List.foldl_nil,
      Utf8.toNat_ofNat (Nat.mod_lt n (by omega))]
    omega

theorem take?_append : ∀ bs s : List UInt8, take? bs.length (bs ++ s) = some (bs, s)
  | [], _ => rfl
  | b :: bs, s => by
    rw [List.length_cons, List.cons_append, take?, take?_append bs s]
    rfl

section
variable {size n : Nat}

theorem take?_bigEndianBytes (s : List UInt8) :
    take? size (bigEndianBytes size n ++ s) = some (bigEndianBytes size n, s) := by
  have h := take?_append (bigEndianBytes size n) s
  rwa [length_bigEndianBytes] at h

theorem number_bigEndianBytes (h : n < Nat.pow 0x100 size) (make : Nat → Node) (s : List UInt8) :
    number size make (bigEndianBytes size n ++ s) = (leaf (make n), s) := by
  simp only [number, take?_bigEndianBytes, bigEndian_bigEndianBytes size n h]

theorem sized_bigEndianBytes (h : n < Nat.pow 0x100 size)
    (make : Nat → List UInt8 → Token × List UInt8) (s : List UInt8) :
    sized size make (bigEndianBytes size n ++ s) = make n s := by
  simp only [sized, take?_bigEndianBytes, bigEndian_bigEndianBytes size n h]

end

/-! ## Tokens that were written -/

def Written (bs : List UInt8) (t : Token) : Prop :=
  ∃ b tail, bs = b :: tail ∧ ∀ s, next b (tail ++ s) = (t, s)

theorem written_small {n : Nat} (h : n < 0x80) : Written [UInt8.ofNat n] (leaf (.word n)) := by
  refine ⟨UInt8.ofNat n, [], rfl, fun s => ?_⟩
  simp only [next, Utf8.toNat_ofNat (show n < 0x100 by omega), if_pos h, List.nil_append]

theorem written_number {size n : Nat} {b : UInt8} (h : n < Nat.pow 0x100 size)
    (hb : ∀ s, next b s = number size .word s) :
    Written (b :: bigEndianBytes size n) (leaf (.word n)) := by
  refine ⟨b, _, rfl, fun s => ?_⟩
  rw [hb, number_bigEndianBytes h]

theorem written_word {n : Nat} (h : n < UInt64.size) : Written (writeWord n) (leaf (.word n)) := by
  unfold writeWord
  split
  · exact written_small ‹_›
  split
  · exact written_number ‹_› fun _ => rfl
  split
  · exact written_number ‹_› fun _ => rfl
  split
  · exact written_number ‹_› fun _ => rfl
  · exact written_number h fun _ => rfl

theorem written_head {size n : Nat} {b : UInt8} {make : Nat → Token} (h : n < Nat.pow 0x100 size)
    (hb : ∀ s, next b s = sized size (fun n s => (make n, s)) s) :
    Written (b :: bigEndianBytes size n) (make n) := by
  refine ⟨b, _, rfl, fun s => ?_⟩
  rw [hb, sized_bigEndianBytes h]

theorem written_list {n : Nat} (h : n < UInt32.size) : Written (listHead n) (list n) := by
  unfold listHead
  split
  · refine ⟨UInt8.ofNat (0x90 + n), [], rfl, fun s => ?_⟩
    simp only [next, Utf8.toNat_ofNat (show 0x90 + n < 0x100 by omega), List.nil_append]
    rw [if_neg (by omega), if_neg (by omega), if_pos (by omega), Nat.add_sub_cancel_left]
  split
  · exact written_head ‹_› fun _ => rfl
  · exact written_head h fun _ => rfl

theorem written_map {n : Nat} (h : n < UInt32.size) : Written (mapHead n) (map n) := by
  unfold mapHead
  split
  · refine ⟨UInt8.ofNat (0x80 + n), [], rfl, fun s => ?_⟩
    simp only [next, Utf8.toNat_ofNat (show 0x80 + n < 0x100 by omega), List.nil_append]
    rw [if_neg (by omega), if_pos (by omega), Nat.add_sub_cancel_left]
  split
  · exact written_head ‹_› fun _ => rfl
  · exact written_head h fun _ => rfl

theorem data_text (t : String) (s : List UInt8) :
    data textNode (Utf8.encodeString t).length (Utf8.encodeString t ++ s) = (leaf (.text t), s) := by
  simp only [data, take?_append, textNode, Utf8.decodeString?_encodeString]

theorem written_sizedText {size : Nat} {t : String} {b : UInt8}
    (h : (Utf8.encodeString t).length < Nat.pow 0x100 size)
    (hb : ∀ s, next b s = sized size (data textNode) s) :
    Written (b :: bigEndianBytes size (Utf8.encodeString t).length ++ Utf8.encodeString t)
      (leaf (.text t)) := by
  refine ⟨b, bigEndianBytes size _ ++ Utf8.encodeString t, rfl, fun s => ?_⟩
  rw [hb, List.append_assoc, sized_bigEndianBytes h, data_text]

theorem written_text {t : String} (h : (Utf8.encodeString t).length < UInt32.size) :
    Written (writeText t) (leaf (.text t)) := by
  simp only [writeText]
  split
  · refine ⟨UInt8.ofNat (0xa0 + (Utf8.encodeString t).length), _, rfl, fun s => ?_⟩
    simp only [next,
      Utf8.toNat_ofNat (show 0xa0 + (Utf8.encodeString t).length < 0x100 by omega)]
    rw [if_neg (by omega), if_neg (by omega), if_neg (by omega), if_pos (by omega),
      Nat.add_sub_cancel_left]
    exact data_text t s
  split
  · exact written_sizedText ‹_› fun _ => rfl
  split
  · exact written_sizedText ‹_› fun _ => rfl
  · exact written_sizedText h fun _ => rfl

/-! ## More bytes behind a token -/

/-- The fault of passing over a token. The items of a list or map are not part of it. -/
def stop? : Token → Option Fault
  | leaf n => n.stop?
  | list _ => none
  | map _ => none
  | extension stop => stop

def Extends (read : List UInt8 → Token × List UInt8) : Prop :=
  ∀ s q, (read s).1.stop? = none → read (s ++ q) = ((read s).1, (read s).2 ++ q)

theorem take?_extends : ∀ {n : Nat} {s bs r : List UInt8}, take? n s = some (bs, r) →
    ∀ q, take? n (s ++ q) = some (bs, r ++ q)
  | 0, s, bs, r, h, q => by
    cases h
    rfl
  | n + 1, [], bs, r, h, q => by cases h
  | n + 1, b :: s, bs, r, h, q => by
    obtain ⟨⟨cs, r'⟩, htake, hcons⟩ := Option.map_eq_some_iff.mp h
    cases hcons
    rw [List.cons_append, take?, take?_extends htake q]
    rfl

theorem extends_number (size : Nat) (make : Nat → Node) : Extends (number size make) := by
  intro s q h
  unfold number at h ⊢
  cases hs : take? size s with
  | none => simp [hs, cut, stop?, Node.stop?] at h
  | some p => simp [take?_extends hs q]

theorem extends_sized (size : Nat) {make : Nat → List UInt8 → Token × List UInt8}
    (hmake : ∀ n, Extends (make n)) : Extends (sized size make) := by
  intro s q h
  unfold sized at h ⊢
  cases hs : take? size s with
  | none => simp [hs, cut, stop?, Node.stop?] at h
  | some p =>
    simp only [hs] at h
    simpa only [take?_extends hs q] using hmake _ p.2 q h

theorem extends_data (make : List UInt8 → Node) (size : Nat) : Extends (data make size) := by
  intro s q h
  unfold data at h ⊢
  cases hs : take? size s with
  | none => simp [hs, cut, stop?, Node.stop?] at h
  | some p => simp [take?_extends hs q]

theorem extends_extended (size : Nat) : Extends (extended size) := by
  intro s q h
  unfold extended at h ⊢
  cases hs : take? (size + 1) s with
  | none => simp [hs, stop?] at h
  | some p => simp [take?_extends hs q]

theorem extends_whole (t : Token) : Extends fun s => (t, s) :=
  fun _ _ _ => rfl

theorem extends_next (b : UInt8) : Extends (next b) := by
  intro s q
  simp only [next]
  generalize b.toNat = n
  split
  · exact extends_whole _ s q
  split
  · exact extends_whole _ s q
  split
  · exact extends_whole _ s q
  split
  · exact extends_data _ _ s q
  split
  · exact extends_whole _ s q
  split
  -- One reader for each way of writing a length or number; a byte that begins nothing is a fault.
  case h_32 =>
    intro h
    cases h
  all_goals first
    | exact extends_whole _ s q
    | exact extends_number _ _ s q
    | exact extends_extended _ s q
    | exact extends_sized _ (extends_data _) s q
    | exact extends_sized _ extends_extended s q
    | exact extends_sized _ (fun _ => extends_whole _) s q

end Token

end TileTrace.MessagePack
