import TileTrace.MessagePack.Document
import TileTrace.Proofs.MessagePack.Token
import TileTrace.Proofs.Snapshot.Tree

/-!
# MessagePack documents that were written

A document is met as the tree of what was written, if its sizes have an encoding and it is not nested
too deeply. A document that breaks off is met as a tree whose end is a fault: whatever is read without a
fault is read with more bytes behind it in the same way, and leaves these bytes.
-/

namespace TileTrace.MessagePack

open Snapshot

/-! ## Documents that have an encoding -/

def Fits (s : String) : Prop := (Utf8.encodeString s).length < UInt32.size

def KeyFits : Key → Prop
  | .name s => Fits s
  | .number _ => True

instance (s : String) : Decidable (Fits s) := inferInstanceAs (Decidable (_ < _))

instance : (k : Key) → Decidable (KeyFits k)
  | .name s => inferInstanceAs (Decidable (Fits s))
  | .number _ => inferInstanceAs (Decidable True)

/-- The sizes of a document have an encoding, and its lists and maps are nested no deeper than that. -/
inductive Encodable : Nat → Value → Prop
  | absent {d : Nat} : Encodable d .absent
  | flag {d : Nat} (b : Bool) : Encodable d (.flag b)
  | word {d : Nat} (n : UInt64) : Encodable d (.word n)
  | text {d : Nat} {s : String} (h : Fits s) : Encodable d (.text s)
  | list {d : Nat} {vs : List Value} (hsize : vs.length < UInt32.size)
      (hitems : ∀ v ∈ vs, Encodable d v) : Encodable (d + 1) (.list vs)
  | map {d : Nat} {es : List (Key × Value)} (hsize : es.length < UInt32.size)
      (hkeys : ∀ k ∈ es.map (·.1), KeyFits k) (hvalues : ∀ v ∈ es.map (·.2), Encodable d v) :
      Encodable (d + 1) (.map es)

section
variable {d : Nat} {κ α : Type}

theorem Encodable.list_map {write : α → Value} {as : List α} (hsize : as.length < UInt32.size)
    (h : ∀ a ∈ as, Encodable d (write a)) : Encodable (d + 1) (.list (as.map write)) := by
  refine .list ?_ ?_
  · rw [List.length_map]
    exact hsize
  · rw [List.forall_mem_map]
    exact h

theorem Encodable.map_map (key : κ → Key) (write : α → Value) {es : List (κ × α)}
    (hsize : es.length < UInt32.size) (hkeys : ∀ e ∈ es, KeyFits (key e.1))
    (hvalues : ∀ e ∈ es, Encodable d (write e.2)) :
    Encodable (d + 1) (.map (es.map fun e => (key e.1, write e.2))) := by
  refine .map ?_ ?_ ?_
  · rw [List.length_map]
    exact hsize
  · rw [List.map_map, List.forall_mem_map]
    exact hkeys
  · rw [List.map_map, List.forall_mem_map]
    exact hvalues

end

/-! ## One token -/

section
variable {b : UInt8} {s r : List UInt8} {d n : Nat}

theorem read_leaf {v : Node} (h : Token.next b s = (.leaf v, r)) :
    read d (b :: s) = (v, passed r v.stop?) := by
  unfold read
  simp only [h]

theorem read_extension {stop : Option Fault} (h : Token.next b s = (.extension stop, r)) :
    read (d + 1) (b :: s) = (.extension stop, passed r stop) := by
  unfold read
  simp only [h]

theorem read_list (h : Token.next b s = (.list n, r)) :
    read (d + 1) (b :: s) =
      (.list (some n) (readItems (read d) n r).1 (stopped (readItems (read d) n r).2),
        (readItems (read d) n r).2) := by
  unfold read
  simp only [h]

theorem read_map (h : Token.next b s = (.map n, r)) :
    read (d + 1) (b :: s) =
      (.map (some n) (readEntries (read d) n r).1 (stopped (readEntries (read d) n r).2),
        (readEntries (read d) n r).2) := by
  unfold read
  simp only [h]

theorem read_tooDeep {t : Token} (h : Token.next b s = (t, r)) (ht : ∀ v, t ≠ .leaf v) :
    read 0 (b :: s) = tooDeep := by
  unfold read
  simp only [h]

end

/-! ## Reading what was written -/

theorem read_written {bs : List UInt8} {n : Node} (h : Token.Written bs (.leaf n)) (hn : n.stop? = none)
    (d : Nat) (s : List UInt8) : read d (bs ++ s) = (n, .ok s) := by
  obtain ⟨b, tail, rfl, hnext⟩ := h
  rw [List.cons_append, read_leaf (hnext s), hn]
  rfl

theorem read_key {k : Key} (h : KeyFits k) (d : Nat) (s : List UInt8) :
    read d (writeKey k ++ s) = (Node.ofKey .messagePack k, .ok s) := by
  cases k with
  | name t => exact read_written (Token.written_text h) rfl d s
  | number n => exact read_written (Token.written_word n.toNat_lt_size) rfl d s

theorem readItems_written {d : Nat} : ∀ {vs : List Value},
    (∀ v ∈ vs, ∀ s, read d (encode v ++ s) = (Node.ofValue .messagePack v, .ok s)) → ∀ s,
    readItems (read d) vs.length (encodeItems vs ++ s) = (Node.ofItems .messagePack vs, .ok s)
  | [], _, s => by rw [encodeItems, Node.ofItems]; rfl
  | v :: vs, h, s => by
    have hv := h v List.mem_cons_self (encodeItems vs ++ s)
    have hvs := readItems_written (fun v hv => h v (List.mem_cons_of_mem _ hv)) s
    rw [encodeItems, Node.ofItems, List.length_cons, List.append_assoc, readItems, hv]
    simp only [hvs]

theorem readEntries_written {d : Nat} : ∀ {es : List (Key × Value)},
    (∀ k ∈ es.map (·.1), ∀ s, read d (writeKey k ++ s) = (Node.ofKey .messagePack k, .ok s)) →
    (∀ v ∈ es.map (·.2), ∀ s, read d (encode v ++ s) = (Node.ofValue .messagePack v, .ok s)) → ∀ s,
    readEntries (read d) es.length (encodeEntries es ++ s) = (Node.ofEntries .messagePack es, .ok s)
  | [], _, _, s => by rw [encodeEntries, Node.ofEntries]; rfl
  | (k, v) :: es, hk, hv, s => by
    have hkey := hk k List.mem_cons_self (encode v ++ (encodeEntries es ++ s))
    have hvalue := hv v List.mem_cons_self (encodeEntries es ++ s)
    have hes := readEntries_written (fun k h => hk k (List.mem_cons_of_mem _ h))
      (fun v h => hv v (List.mem_cons_of_mem _ h)) s
    rw [encodeEntries, Node.ofEntries, List.length_cons, List.append_assoc, List.append_assoc,
      readEntries, hkey]
    simp only [hvalue, hes]

theorem read_encode {d : Nat} {v : Value} (h : Encodable d v) (s : List UInt8) :
    read d (encode v ++ s) = (Node.ofValue .messagePack v, .ok s) := by
  induction h generalizing s with
  | @absent d =>
    rw [encode, Node.ofValue]
    exact read_leaf rfl
  | @flag d b =>
    cases b <;> rw [encode, Node.ofValue] <;> exact read_leaf rfl
  | @word d n =>
    rw [encode, Node.ofValue]
    exact read_written (Token.written_word n.toNat_lt_size) rfl d s
  | @text d t ht =>
    rw [encode, Node.ofValue]
    exact read_written (Token.written_text ht) rfl d s
  | @list d vs hsize _ ih =>
    obtain ⟨b, tail, hb, hnext⟩ := Token.written_list hsize
    rw [encode, Node.ofValue, hb, List.append_assoc, List.cons_append, read_list (hnext _),
      readItems_written ih]
    rfl
  | @map d es hsize hkeys _ ih =>
    obtain ⟨b, tail, hb, hnext⟩ := Token.written_map hsize
    rw [encode, Node.ofValue, hb, List.append_assoc, List.cons_append, read_map (hnext _),
      readEntries_written (fun k hk => read_key (hkeys k hk) d) ih]
    rfl

theorem decode_encode {v : Value} (h : Encodable maxDepth v) :
    decode (encode v) = Node.ofValue .messagePack v := by
  have hread := read_encode h []
  rw [List.append_nil] at hread
  rw [decode, hread]

/-! ## More bytes behind a document -/

/-- What is read without a fault is read in the same way with more bytes behind it. -/
def Extends {α : Type} (read : List UInt8 → Step α) : Prop :=
  ∀ s a r, read s = (a, .ok r) → ∀ q, read (s ++ q) = (a, .ok (r ++ q))

theorem passed_eq_ok {s r : List UInt8} {stop : Option Fault} (h : passed s stop = .ok r) :
    stop = none ∧ s = r := by
  cases stop with
  | none => exact ⟨rfl, Except.ok.inj h⟩
  | some f => cases h

section
variable {read : List UInt8 → Step Node}

theorem Extends.readItems (hread : Extends read) : ∀ n, Extends (readItems read n)
  | 0 => by
    intro s a r h q
    cases h
    rfl
  | n + 1 => by
    intro s a r h q
    unfold MessagePack.readItems at h ⊢
    cases hv : read s with
    | mk v rest =>
      cases rest with
      | error f =>
        rw [hv] at h
        cases h
      | ok s' =>
        rw [hv] at h
        cases hvs : MessagePack.readItems read n s' with
        | mk vs rest' =>
          simp only [hvs] at h
          cases h
          simp only [hread s v s' hv q, hread.readItems n s' vs r hvs q]

theorem Extends.readEntries (hread : Extends read) : ∀ n, Extends (readEntries read n)
  | 0 => by
    intro s a r h q
    cases h
    rfl
  | n + 1 => by
    intro s a r h q
    unfold MessagePack.readEntries at h ⊢
    cases hk : read s with
    | mk k rest =>
      cases rest with
      | error f =>
        rw [hk] at h
        cases h
      | ok s' =>
        simp only [hk] at h
        cases hv : read s' with
        | mk v rest' =>
          cases rest' with
          | error f =>
            rw [hv] at h
            cases h
          | ok s'' =>
            simp only [hv] at h
            cases hes : MessagePack.readEntries read n s'' with
            | mk es rest'' =>
              simp only [hes] at h
              cases h
              simp only [hread s k s' hk q, hread s' v s'' hv q, hread.readEntries n s'' es r hes q]

end

theorem next_append {b : UInt8} {s r : List UInt8} {t : Token} (h : Token.next b s = (t, r))
    (ht : t.stop? = none) (q : List UInt8) : Token.next b (s ++ q) = (t, r ++ q) := by
  have hext := Token.extends_next b s q
  rw [h] at hext
  exact hext ht

theorem read_leaf_append {d : Nat} {b : UInt8} {s s' r : List UInt8} {n a : Node}
    (ht : Token.next b s = (.leaf n, s')) (h : read d (b :: s) = (a, .ok r)) (q : List UInt8) :
    read d (b :: s ++ q) = (a, .ok (r ++ q)) := by
  rw [read_leaf ht] at h
  obtain ⟨rfl, hr⟩ := Prod.mk.inj h
  obtain ⟨hn, rfl⟩ := passed_eq_ok hr
  rw [List.cons_append, read_leaf (next_append ht hn q), hn]
  rfl

theorem extends_read (d : Nat) : Extends (read d) := by
  induction d with
  | zero =>
    rintro (_ | ⟨b, s⟩) a r h q
    · cases h
    cases ht : Token.next b s with
    | mk t s' =>
      cases t with
      | leaf n => exact read_leaf_append ht h q
      | list n => rw [read_tooDeep ht nofun] at h; cases h
      | map n => rw [read_tooDeep ht nofun] at h; cases h
      | extension stop => rw [read_tooDeep ht nofun] at h; cases h
  | succ d ih =>
    rintro (_ | ⟨b, s⟩) a r h q
    · cases h
    cases ht : Token.next b s with
    | mk t s' =>
      cases t with
      | leaf n => exact read_leaf_append ht h q
      | list n =>
        rw [read_list ht] at h
        -- The items are read at a smaller depth, and in the same way by the induction on it.
        obtain ⟨rfl, hr⟩ := Prod.mk.inj h
        have hitems := ih.readItems n s' _ r (Prod.ext rfl hr) q
        rw [List.cons_append, read_list (next_append ht rfl q), hitems, hr]
        rfl
      | map n =>
        rw [read_map ht] at h
        obtain ⟨rfl, hr⟩ := Prod.mk.inj h
        have hentries := ih.readEntries n s' _ r (Prod.ext rfl hr) q
        rw [List.cons_append, read_map (next_append ht rfl q), hentries, hr]
        rfl
      | extension stop =>
        rw [read_extension ht] at h
        obtain ⟨rfl, hr⟩ := Prod.mk.inj h
        obtain ⟨rfl, rfl⟩ := passed_eq_ok hr
        rw [List.cons_append, read_extension (next_append ht rfl q)]
        rfl

/-! ## Documents that break off -/

/-- What a written map of few entries that breaks off looks like: nothing at all, or a map that is not
closed. -/
theorem read_cut {d : Nat} {es : List (Key × Value)} (hes : Encodable (d + 1) (.map es))
    (hsmall : es.length < 0x10) {p q : List UInt8} (h : p ++ q = encode (.map es)) (hq : q ≠ []) :
    (read (d + 1) p).1 = .defect (.fatal .noMarker) ∨
      ∃ ns fault, (read (d + 1) p).1 = .map (some es.length) ns (some fault) := by
  cases p with
  | nil => exact .inl rfl
  | cons b p =>
    refine .inr ?_
    have hhead : encode (.map es) = UInt8.ofNat (0x80 + es.length) :: encodeEntries es := by
      rw [encode, mapHead, if_pos hsmall]
      rfl
    obtain ⟨rfl, -⟩ := List.cons.inj (h.trans hhead)
    have hnext : Token.next (UInt8.ofNat (0x80 + es.length)) p = (.map es.length, p) := by
      simp only [Token.next, Utf8.toNat_ofNat (show 0x80 + es.length < 0x100 by omega)]
      rw [if_neg (by omega), if_pos (by omega), Nat.add_sub_cancel_left]
    have hmap := read_map (d := d) hnext
    cases hrest : (readEntries (read d) es.length p).2 with
    | error f =>
      rw [hrest] at hmap
      exact ⟨_, f, congrArg Prod.fst hmap⟩
    | ok r =>
      -- Were the map closed, the bytes behind the cut would be left over.
      rw [hrest] at hmap
      have hwhole := extends_read (d + 1) _ _ r hmap q
      rw [h] at hwhole
      have hencode := read_encode hes []
      rw [List.append_nil, hwhole] at hencode
      have hnil : r ++ q = [] := Except.ok.inj (congrArg Prod.snd hencode)
      exact absurd (List.append_eq_nil_iff.mp hnil).2 hq

theorem decode_of_cut {es : List (Key × Value)} (hes : Encodable maxDepth (.map es))
    (hsmall : es.length < 0x10) {p q : List UInt8} (h : p ++ q = encode (.map es)) (hq : q ≠ []) :
    decode p = .defect (.fatal .noMarker) ∨
      ∃ ns fault, decode p = .map (some es.length) ns (some fault) :=
  read_cut hes hsmall h hq

end TileTrace.MessagePack
