import TileTrace.Proofs.MessagePack.Document

/-!
# The ways to write MessagePack

MessagePack values as their specification has them, except those of their users' types: numbers in any of
the widths that have room for them, sizes too, keys of any type. Whatever is written in this way is met as one
tree, with the bytes behind it left over.
-/

namespace TileTrace.MessagePack

open Snapshot

namespace Token

/-! ## Sizes -/

/-- The ways to write a size in front of bytes or items: so many small sizes have a byte of their own, from
`short` on, and the others stand in so many bytes behind a byte that tells how many these are. -/
structure Sizes where
  short : Nat
  count : Nat
  wide : List (UInt8 × Nat)

namespace Sizes

def text : Sizes := ⟨0xa0, 0x20, [(0xd9, 1), (0xda, 2), (0xdb, 4)]⟩

def bytes : Sizes := ⟨0xc4, 0, [(0xc4, 1), (0xc5, 2), (0xc6, 4)]⟩

def list : Sizes := ⟨0x90, 0x10, [(0xdc, 2), (0xdd, 4)]⟩

def map : Sizes := ⟨0x80, 0x10, [(0xde, 2), (0xdf, 4)]⟩

inductive Writes (z : Sizes) : Nat → List UInt8 → Prop
  | short {n : Nat} (h : n < z.count) : Writes z n [UInt8.ofNat (z.short + n)]
  | wide {b : UInt8} {size n : Nat} (hb : (b, size) ∈ z.wide) (h : n < Nat.pow 0x100 size) :
      Writes z n (b :: bigEndianBytes size n)

structure Begins (z : Sizes) (make : Nat → List UInt8 → Token × List UInt8) : Prop where
  short : ∀ n < z.count, ∀ s, next (UInt8.ofNat (z.short + n)) s = make n s
  wide : ∀ e ∈ z.wide, ∀ s, next e.1 s = sized e.2 make s

theorem Begins.next {z : Sizes} {make : Nat → List UInt8 → Token × List UInt8} (hz : z.Begins make) {n : Nat}
    {head : List UInt8} (h : z.Writes n head) :
    ∃ b tail, head = b :: tail ∧ ∀ s, Token.next b (tail ++ s) = make n s := by
  cases h with
  | short h => exact ⟨_, [], rfl, hz.short n h⟩
  | @wide b size n hb h =>
    refine ⟨b, _, rfl, fun s => ?_⟩
    rw [hz.wide _ hb, sized_bigEndianBytes h]

theorem begins_text : text.Begins (data textNode) := by
  constructor
  · intro n h s
    have hlt : n < 0x20 := h
    simp only [text, Token.next, Utf8.toNat_ofNat (show 0xa0 + n < 0x100 by omega)]
    rw [if_neg (by omega), if_neg (by omega), if_neg (by omega), if_pos (by omega), Nat.add_sub_cancel_left]
  · simp only [text, List.forall_mem_cons]
    exact ⟨fun _ => rfl, fun _ => rfl, fun _ => rfl, List.forall_mem_nil _⟩

theorem begins_bytes : bytes.Begins (data .bytes) := by
  constructor
  · exact nofun
  · simp only [bytes, List.forall_mem_cons]
    exact ⟨fun _ => rfl, fun _ => rfl, fun _ => rfl, List.forall_mem_nil _⟩

theorem begins_list : list.Begins fun n s => (.list n, s) := by
  constructor
  · intro n h s
    have hlt : n < 0x10 := h
    simp only [list, Token.next, Utf8.toNat_ofNat (show 0x90 + n < 0x100 by omega)]
    rw [if_neg (by omega), if_neg (by omega), if_pos (by omega), Nat.add_sub_cancel_left]
  · simp only [list, List.forall_mem_cons]
    exact ⟨fun _ => rfl, fun _ => rfl, List.forall_mem_nil _⟩

theorem begins_map : map.Begins fun n s => (.map n, s) := by
  constructor
  · intro n h s
    have hlt : n < 0x10 := h
    simp only [map, Token.next, Utf8.toNat_ofNat (show 0x80 + n < 0x100 by omega)]
    rw [if_neg (by omega), if_pos (by omega), Nat.add_sub_cancel_left]
  · simp only [map, List.forall_mem_cons]
    exact ⟨fun _ => rfl, fun _ => rfl, List.forall_mem_nil _⟩

/-- Bytes behind their size are a leaf. -/
theorem Begins.written {z : Sizes} {make : List UInt8 → Node} (hz : z.Begins (data make)) {bs head : List UInt8}
    (h : z.Writes bs.length head) : Written (head ++ bs) (leaf (make bs)) := by
  obtain ⟨b, tail, rfl, hnext⟩ := hz.next h
  refine ⟨b, tail ++ bs, rfl, fun s => ?_⟩
  rw [List.append_assoc, hnext]
  simp only [data, take?_append]

end Sizes

/-! ## Numbers -/

def numbers : List (UInt8 × Nat × (Nat → Node)) :=
  [(0xca, 4, fun n => .float (Float32.ofBits (UInt32.ofNat n)).toFloat.toBits),
    (0xcb, 8, fun n => .float (UInt64.ofNat n)),
    (0xcc, 1, .word), (0xcd, 2, .word), (0xce, 4, .word), (0xcf, 8, .word),
    (0xd0, 1, fun n => .signed (twosComplement 0x100 n)),
    (0xd1, 2, fun n => .signed (twosComplement 0x10000 n)),
    (0xd2, 4, fun n => .signed (twosComplement UInt32.size n)),
    (0xd3, 8, fun n => .signed (twosComplement UInt64.size n))]

theorem next_numbers : ∀ e ∈ numbers, ∀ s, next e.1 s = number e.2.1 e.2.2 s := by
  simp only [numbers, List.forall_mem_cons]
  exact ⟨fun _ => rfl, fun _ => rfl, fun _ => rfl, fun _ => rfl, fun _ => rfl, fun _ => rfl, fun _ => rfl,
    fun _ => rfl, fun _ => rfl, fun _ => rfl, nofun⟩

theorem leaf_numbers : ∀ e ∈ numbers, ∀ n, (e.2.2 n).stop? = none ∧ (e.2.2 n).entries = [] := by
  simp [numbers, Node.stop?, Node.entries]

theorem written_numbers {b : UInt8} {size n : Nat} {make : Nat → Node} (hb : (b, size, make) ∈ numbers)
    (h : n < Nat.pow 0x100 size) : Written (b :: bigEndianBytes size n) (leaf (make n)) := by
  refine ⟨b, _, rfl, fun s => ?_⟩
  rw [next_numbers _ hb, number_bigEndianBytes h]

theorem written_negative {n : Nat} (h : 0 < n ∧ n ≤ 0x20) :
    Written [UInt8.ofNat (0x100 - n)] (leaf (.signed (-n))) := by
  refine ⟨UInt8.ofNat (0x100 - n), [], rfl, fun s => ?_⟩
  have hint : ((0x100 - n : Nat) : Int) - 0x100 = -n := by omega
  simp only [next, Utf8.toNat_ofNat (show 0x100 - n < 0x100 by omega), List.nil_append]
  rw [if_neg (by omega), if_neg (by omega), if_neg (by omega), if_neg (by omega), if_pos (by omega), hint]

theorem stop?_textNode (bs : List UInt8) : (textNode bs).stop? = none := by
  unfold textNode
  split <;> rfl

theorem entries_textNode (bs : List UInt8) : (textNode bs).entries = [] := by
  unfold textNode
  split <;> rfl

end Token

/-! ## Values -/

/-- The ways to write a value that is met as a node, with lists and maps nested no deeper than that. -/
inductive Spells : Nat → Node → List UInt8 → Prop
  | absent {d : Nat} : Spells d .absent [0xc0]
  | no {d : Nat} : Spells d (.flag false) [0xc2]
  | yes {d : Nat} : Spells d (.flag true) [0xc3]
  | small {d n : Nat} (h : n < 0x80) : Spells d (.word n) [UInt8.ofNat n]
  | negative {d n : Nat} (h : 0 < n ∧ n ≤ 0x20) : Spells d (.signed (-n)) [UInt8.ofNat (0x100 - n)]
  | number {d : Nat} {b : UInt8} {size n : Nat} {make : Nat → Node} (hb : (b, size, make) ∈ Token.numbers)
      (h : n < Nat.pow 0x100 size) : Spells d (make n) (b :: bigEndianBytes size n)
  | text {d : Nat} {head bs : List UInt8} (h : Token.Sizes.text.Writes bs.length head) :
      Spells d (Token.textNode bs) (head ++ bs)
  | bytes {d : Nat} {head bs : List UInt8} (h : Token.Sizes.bytes.Writes bs.length head) :
      Spells d (.bytes bs) (head ++ bs)
  | list {d : Nat} {head : List UInt8} {vs : List (Node × List UInt8)}
      (hhead : Token.Sizes.list.Writes vs.length head) (h : ∀ v ∈ vs, Spells d v.1 v.2) :
      Spells (d + 1) (.list (some vs.length) (vs.map (·.1)) none) (head ++ vs.flatMap (·.2))
  | map {d : Nat} {head : List UInt8} {es : List ((Node × List UInt8) × Node × List UInt8)}
      (hhead : Token.Sizes.map.Writes es.length head) (hkeys : ∀ e ∈ es, Spells d e.1.1 e.1.2)
      (hvalues : ∀ e ∈ es, Spells d e.2.1 e.2.2) :
      Spells (d + 1) (.map (some es.length) (es.map fun e => (e.1.1, e.2.1)) none)
        (head ++ es.flatMap fun e => e.1.2 ++ e.2.2)

def Reads (read : List UInt8 → Step Node) (n : Node) (s : List UInt8) : Prop :=
  ∀ r, read (s ++ r) = (n, .ok r)

section
variable {read : List UInt8 → Step Node}

theorem readItems_append {vs : List (Node × List UInt8)} (h : ∀ v ∈ vs, Reads read v.1 v.2) (r : List UInt8) :
    readItems read vs.length (vs.flatMap (·.2) ++ r) = (vs.map (·.1), .ok r) := by
  induction vs with
  | nil => rfl
  | cons v vs ih =>
    have hv := h v List.mem_cons_self (vs.flatMap (·.2) ++ r)
    rw [List.flatMap_cons, List.append_assoc, List.length_cons, readItems, hv]
    simp only [ih fun x hx => h x (List.mem_cons_of_mem v hx), List.map_cons]

theorem readEntries_append {es : List ((Node × List UInt8) × Node × List UInt8)}
    (hkeys : ∀ e ∈ es, Reads read e.1.1 e.1.2) (hvalues : ∀ e ∈ es, Reads read e.2.1 e.2.2) (r : List UInt8) :
    readEntries read es.length ((es.flatMap fun e => e.1.2 ++ e.2.2) ++ r) =
      (es.map fun e => (e.1.1, e.2.1), .ok r) := by
  induction es with
  | nil => rfl
  | cons e es ih =>
    have hes := ih (fun x hx => hkeys x (List.mem_cons_of_mem e hx))
      fun x hx => hvalues x (List.mem_cons_of_mem e hx)
    have hvalue := hvalues e List.mem_cons_self ((es.flatMap fun e => e.1.2 ++ e.2.2) ++ r)
    have hkey := hkeys e List.mem_cons_self (e.2.2 ++ ((es.flatMap fun e => e.1.2 ++ e.2.2) ++ r))
    rw [List.flatMap_cons, List.append_assoc, List.append_assoc, List.length_cons, readEntries, hkey]
    simp only [hvalue, hes, List.map_cons]

end

theorem Spells.reads {d : Nat} {n : Node} {s : List UInt8} (h : Spells d n s) : Reads (read d) n s := by
  induction h with
  | absent => exact fun r => read_leaf rfl
  | no => exact fun r => read_leaf rfl
  | yes => exact fun r => read_leaf rfl
  | small h => exact fun r => read_written (Token.written_small h) rfl _ r
  | negative h => exact fun r => read_written (Token.written_negative h) rfl _ r
  | number hb h => exact fun r => read_written (Token.written_numbers hb h) (Token.leaf_numbers _ hb _).1 _ r
  | text h =>
    exact fun r => read_written (Token.Sizes.begins_text.written h) (Token.stop?_textNode _) _ r
  | bytes h => exact fun r => read_written (Token.Sizes.begins_bytes.written h) rfl _ r
  | list hhead _ ih =>
    intro r
    obtain ⟨b, tail, rfl, hnext⟩ := Token.Sizes.begins_list.next hhead
    rw [List.append_assoc, List.cons_append, read_list (hnext _), readItems_append ih]
    rfl
  | map hhead _ _ ihkeys ihvalues =>
    intro r
    obtain ⟨b, tail, rfl, hnext⟩ := Token.Sizes.begins_map.next hhead
    rw [List.append_assoc, List.cons_append, read_map (hnext _), readEntries_append ihkeys ihvalues]
    rfl

theorem Spells.stop? {d : Nat} {n : Node} {s : List UInt8} (h : Spells d n s) : n.stop? = none := by
  cases h with
  | number hb _ => exact (Token.leaf_numbers _ hb _).1
  | text => exact Token.stop?_textNode _
  | _ => rfl

/-- Whoever does not want the value of an entry gets past it. -/
theorem Spells.passable {d : Nat} {n : Node} {s : List UInt8} (h : Spells d n s) :
    ∀ e ∈ n.entries, e.2.stop? = none := by
  cases h with
  | number hb _ => simp [(Token.leaf_numbers _ hb _).2]
  | text => simp [Token.entries_textNode]
  | map _ _ hvalues =>
    simp only [Node.entries, List.forall_mem_map]
    intro e he
    exact (hvalues e he).stop?
  | _ => simp [Node.entries]

theorem Spells.decode {n : Node} {s : List UInt8} (h : Spells maxDepth n s) (r : List UInt8) :
    decode (s ++ r) = n :=
  congrArg Prod.fst (h.reads r)

/-! ## What is written -/

section
variable {n : Nat}

theorem writes_listHead (h : n < UInt32.size) : Token.Sizes.list.Writes n (listHead n) := by
  unfold listHead
  split
  · exact .short ‹_›
  split
  · exact .wide (by simp [Token.Sizes.list]) ‹_›
  · exact .wide (by simp [Token.Sizes.list]) h

theorem writes_mapHead (h : n < UInt32.size) : Token.Sizes.map.Writes n (mapHead n) := by
  unfold mapHead
  split
  · exact .short ‹_›
  split
  · exact .wide (by simp [Token.Sizes.map]) ‹_›
  · exact .wide (by simp [Token.Sizes.map]) h

theorem spells_writeWord (h : n < UInt64.size) (d : Nat) : Spells d (.word n) (writeWord n) := by
  have hwide : ∀ {b : UInt8} {size : Nat}, (b, size) ∈ [((0xcc : UInt8), 1), (0xcd, 2), (0xce, 4), (0xcf, 8)] →
      n < Nat.pow 0x100 size → Spells d (.word n) (b :: bigEndianBytes size n) := by
    intro b size hb hn
    refine @Spells.number d b size n .word ?_ hn
    simp only [List.mem_cons, Prod.mk.injEq, List.not_mem_nil, or_false] at hb
    rcases hb with ⟨rfl, rfl⟩ | ⟨rfl, rfl⟩ | ⟨rfl, rfl⟩ | ⟨rfl, rfl⟩ <;> simp [Token.numbers]
  unfold writeWord
  split
  · exact .small ‹_›
  split
  · exact hwide (by simp) ‹_›
  split
  · exact hwide (by simp) ‹_›
  split
  · exact hwide (by simp) ‹_›
  · exact hwide (by simp) h

theorem spells_writeText {t : String} (h : Fits t) (d : Nat) : Spells d (.text t) (writeText t) := by
  have hnode : Token.textNode (Utf8.encodeString t) = .text t := by
    simp only [Token.textNode, Utf8.decodeString?_encodeString]
  rw [← hnode]
  simp only [writeText]
  apply Spells.text
  split
  · exact .short ‹_›
  split
  · exact .wide (by simp [Token.Sizes.text]) ‹_›
  split
  · exact .wide (by simp [Token.Sizes.text]) ‹_›
  · exact .wide (by simp [Token.Sizes.text]) h

theorem spells_writeKey {k : Key} (h : KeyFits k) (d : Nat) :
    Spells d (Node.ofKey .messagePack k) (writeKey k) := by
  cases k with
  | name t => exact spells_writeText h d
  | number n => exact spells_writeWord n.toNat_lt_size d

end

theorem encodeItems_eq_flatMap (vs : List Value) : encodeItems vs = vs.flatMap encode := by
  induction vs with
  | nil => rw [encodeItems, List.flatMap_nil]
  | cons v vs ih => rw [encodeItems, ih, List.flatMap_cons]

theorem encodeEntries_eq_flatMap (es : List (Key × Value)) :
    encodeEntries es = es.flatMap fun e => writeKey e.1 ++ encode e.2 := by
  induction es with
  | nil => rw [encodeEntries, List.flatMap_nil]
  | cons e es ih => rw [encodeEntries, ih, List.flatMap_cons]

/-- The writer keeps to the grammar. -/
theorem spells_encode {d : Nat} {v : Value} (h : Encodable d v) :
    Spells d (Node.ofValue .messagePack v) (encode v) := by
  induction h with
  | absent =>
    rw [encode, Node.ofValue]
    exact .absent
  | flag b =>
    cases b <;> rw [encode, Node.ofValue] <;> constructor
  | word n =>
    rw [encode, Node.ofValue]
    exact spells_writeWord n.toNat_lt_size _
  | text h =>
    rw [encode, Node.ofValue]
    exact spells_writeText h _
  | @list d vs hsize _ ih =>
    let written (v : Value) := (Node.ofValue .messagePack v, encode v)
    have hhead : Token.Sizes.list.Writes (vs.map written).length (listHead vs.length) := by
      rw [List.length_map]
      exact writes_listHead hsize
    have hspells := Spells.list hhead (List.forall_mem_map.mpr ih)
    rw [List.length_map, List.map_map, List.flatMap_map] at hspells
    rw [encode, Node.ofValue, Node.ofItems_eq_map, encodeItems_eq_flatMap]
    exact hspells
  | @map d es hsize hkeys _ ih =>
    let written (e : Key × Value) :=
      ((Node.ofKey .messagePack e.1, writeKey e.1), Node.ofValue .messagePack e.2, encode e.2)
    have hhead : Token.Sizes.map.Writes (es.map written).length (mapHead es.length) := by
      rw [List.length_map]
      exact writes_mapHead hsize
    rw [List.forall_mem_map] at hkeys ih
    have hspells := Spells.map hhead (List.forall_mem_map.mpr fun e he => spells_writeKey (hkeys e he) d)
      (List.forall_mem_map.mpr ih)
    rw [List.length_map, List.map_map, List.flatMap_map] at hspells
    rw [encode, Node.ofValue, Node.ofEntries_eq_map, encodeEntries_eq_flatMap]
    exact hspells

end TileTrace.MessagePack
