/-!
# UTF-8

Encoding and decoding between characters and bytes. Decoding refuses overlong forms, surrogates and
values beyond the last code point, and tells how many bytes before the first fault are well formed.
-/

namespace TileTrace.Utf8

def encode (cs : List Char) : List UInt8 :=
  cs.flatMap String.utf8EncodeChar

/-- How a character begins: the number of continuation bytes, the payload of the first byte, and the
least code point that may be written with so many bytes. -/
structure Lead where
  more : Nat
  payload : Nat
  least : Nat

def lead? (b : UInt8) : Option Lead :=
  let n := b.toNat
  if n < 0x80 then some ⟨0, n, 0⟩
  else if n < 0xc0 then none
  else if n < 0xe0 then some ⟨1, n - 0xc0, 0x80⟩
  else if n < 0xf0 then some ⟨2, n - 0xe0, 0x800⟩
  else if n < 0xf8 then some ⟨3, n - 0xf0, 0x10000⟩
  else none

def continue? : Nat → Nat → List UInt8 → Option (Nat × List UInt8)
  | 0, acc, s => some (acc, s)
  | _ + 1, _, [] => none
  | k + 1, acc, b :: s =>
    if 0x80 ≤ b.toNat ∧ b.toNat < 0xc0 then continue? k (acc * 0x40 + (b.toNat - 0x80)) s else none

def next? : List UInt8 → Option (Char × List UInt8)
  | [] => none
  | b :: s =>
    match lead? b with
    | none => none
    | some l =>
      match continue? l.more l.payload s with
      | none => none
      | some (n, r) => if l.least ≤ n ∧ n.isValidChar then some (Char.ofNat n, r) else none

theorem continue?_length : ∀ {k acc n : Nat} {s r : List UInt8}, continue? k acc s = some (n, r) →
    s.length = r.length + k
  | 0, _, _, _, _, h => by simp only [continue?, Option.some.injEq, Prod.mk.injEq] at h; rw [h.2]; rfl
  | _ + 1, _, _, [], _, h => by simp [continue?] at h
  | k + 1, acc, n, b :: s, r, h => by
    simp only [continue?] at h
    split at h
    · have := continue?_length h
      simp only [List.length_cons]; omega
    · cases h

theorem next?_length {s r : List UInt8} {c : Char} (h : next? s = some (c, r)) :
    r.length < s.length := by
  cases s with
  | nil => simp [next?] at h
  | cons b s =>
    simp only [next?] at h
    split at h
    · cases h
    split at h
    · cases h
    · rename_i hc
      split at h
      · simp only [Option.some.injEq, Prod.mk.injEq] at h
        have := continue?_length hc
        rw [← h.2]; simp only [List.length_cons]; omega
      · cases h

def decode? (s : List UInt8) : Option (List Char) :=
  if s.isEmpty then some []
  else
    match h : next? s with
    | none => none
    | some (c, r) =>
      have := next?_length h
      (decode? r).map (c :: ·)
termination_by s.length

def validLength (s : List UInt8) : Nat :=
  match h : next? s with
  | none => 0
  | some (_, r) =>
    have := next?_length h
    (s.length - r.length) + validLength r
termination_by s.length

def secondRange (b : UInt8) : Nat × Nat :=
  match b.toNat with
  | 0xe0 => (0xa0, 0xbf)
  | 0xed => (0x80, 0x9f)
  | 0xf0 => (0x90, 0xbf)
  | 0xf4 => (0x80, 0x8f)
  | n => if 0xc2 ≤ n ∧ n < 0xf4 then (0x80, 0xbf) else (1, 0)

/-- How many bytes at the front belong to the first fault: as many as could begin a character. -/
def faultLength : List UInt8 → Nat
  | b :: c :: s =>
    let (low, high) := secondRange b
    if low ≤ c.toNat ∧ c.toNat ≤ high then
      let more := ((lead? b).map (·.more)).getD 1
      2 + ((s.take (more - 1)).takeWhile fun d => 0x80 ≤ d.toNat && d.toNat < 0xc0).length
    else 1
  | _ => 1

def decodeLossyChars (s : List UInt8) : List Char :=
  if hs : s = [] then []
  else
    match h : next? s with
    | some (c, r) =>
      have := next?_length h
      c :: decodeLossyChars r
    | none =>
      have := List.length_pos_iff.mpr hs
      Char.ofNat 0xfffd :: decodeLossyChars (s.drop (max 1 (faultLength s)))
termination_by s.length
decreasing_by
  · assumption
  · rw [List.length_drop]; omega

def decodeLossy (s : List UInt8) : String :=
  String.ofList (decodeLossyChars s)

def decodeString? (s : List UInt8) : Option String :=
  (decode? s).map String.ofList

def encodeString (s : String) : List UInt8 :=
  encode s.toList

end TileTrace.Utf8
