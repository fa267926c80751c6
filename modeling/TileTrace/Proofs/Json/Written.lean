import TileTrace.Proofs.Json.Grammar

/-!
# What is written is JSON

The writer keeps to the grammar: the text of a document is one of the ways to write its tree.
-/

namespace TileTrace.Json

open Snapshot

/-! ## Leaves -/

namespace Quoted

theorem inside_plain_append {bs s : List UInt8} (hbs : ∀ b ∈ bs, Plain b) (h : Inside s) :
    Inside (bs ++ s) := by
  induction bs with
  | nil => exact h
  | cons b bs ih => exact .plain (hbs b List.mem_cons_self) (ih fun x hx => hbs x (List.mem_cons_of_mem b hx))

theorem inside_escape_append (c : Char) {s : List UInt8} (h : Inside s) :
    Inside (Utf8.encode (escape c) ++ s) := by
  have hhex : ∀ n : Nat, IsHex (hexByte (n % 16)) := by
    intro n
    rw [IsHex, hex?_hexByte _ (Nat.mod_lt n (by omega))]
    rfl
  unfold escape
  split
  -- the escapes by a letter
  iterate 7 · exact .letter (by decide) h
  rename_i hq hb _ _ _ _ _
  split
  · rw [encode_control]
    exact .hex (hhex _) (hhex _) (hhex _) (hhex _) h
  · rename_i hc
    rw [Utf8.encode, List.flatMap_singleton]
    exact inside_plain_append (plain_of_mem hq hb hc) h

theorem inside_escapes (cs : List Char) : Inside (Utf8.encode (cs.flatMap escape)) := by
  induction cs with
  | nil => exact .nil
  | cons c cs ih =>
    rw [List.flatMap_cons, Utf8.encode_append]
    exact inside_escape_append c ih

theorem node_body (s : String) : node (body s) = .text s := by
  have hbody := node_body_append s []
  rwa [List.append_nil] at hbody

end Quoted

theorem spells_text (s : String) : Spells (.text s) (Utf8.encode (Quoted.write s)) := by
  rw [Quoted.encode_write, ← Quoted.node_body]
  exact .quoted (Quoted.inside_escapes s.toList)

theorem Number.isWhole_decimalBytes (n : Nat) : IsWhole (decimalBytes n) := by
  obtain ⟨d, ds, hbytes, hd, hzero⟩ := decimalBytes_head n
  refine ⟨⟨by simp [hbytes], isDigit_of_mem (Numeral.digits_write (by omega) n)⟩, ?_⟩
  intro hhead
  rw [hbytes] at hhead ⊢
  have hfirst : UInt8.ofNat (Numeral.digitChar d).toNat = 0x30 := Option.some.inj hhead
  have htoNat := congrArg UInt8.toNat hfirst
  rw [toNat_digit hd] at htoNat
  rw [hfirst, hzero (Nat.add_left_cancel htoNat)]

theorem spells_word (n : UInt64) : Spells (.word n.toNat) (Number.decimalBytes n.toNat) := by
  have hnode : Number.node ⟨false, Number.decimalBytes n.toNat, [], none⟩ = .word n.toNat := by
    simp [Number.node, Number.fill_decimalBytes n.toNat_lt_size]
  have hspells := Spells.number (.positive (.mk (Number.isWhole_decimalBytes n.toNat) .none .none))
  rwa [hnode, List.append_nil, List.append_nil] at hspells

/-! ## Keys -/

def WrittenKey.ofKey (k : Key) : WrittenKey where
  before := []
  inside := Utf8.encode ((keyText k).toList.flatMap Quoted.escape)
  behind := []
  blank_before := nofun
  inside_quotes := Quoted.inside_escapes _
  blank_behind := nofun

theorem WrittenKey.bytes_ofKey (k : Key) : (WrittenKey.ofKey k).bytes = Utf8.encode (writeKey k) := by
  rw [writeKey_eq, Quoted.encode_write]
  simp [bytes, quoted, ofKey, Quoted.body]

theorem WrittenKey.node_ofKey (k : Key) : (WrittenKey.ofKey k).node = Node.ofKey .json k := by
  have hbody : (WrittenKey.ofKey k).inside ++ [0x22] = Quoted.body (keyText k) := rfl
  rw [node, hbody, Quoted.node_body]
  cases k <;> rfl

/-! ## Lists and maps -/

theorem joined_cons_eq (s : List UInt8) (ss : List (List UInt8)) :
    joined (s :: ss) = s ++ ss.flatMap (0x2c :: ·) := by
  induction ss generalizing s with
  | nil => simp [joined]
  | cons t ss ih => rw [joined, ih, List.flatMap_cons, List.cons_append]

theorem encode_items (vs : List Value) : Utf8.encode (writeItems vs) = (vs.map encode).flatMap (0x2c :: ·) := by
  induction vs with
  | nil => rfl
  | cons v vs ih =>
    rw [writeItems, Utf8.encode_append, Utf8.encode_append, ih]
    rfl

def writtenEntry (e : Key × Value) : WrittenKey × Node × List UInt8 :=
  (.ofKey e.1, Node.ofValue .json e.2, encode e.2)

theorem encode_entry (e : Key × Value) (cs : List Char) :
    Utf8.encode (writeKey e.1 ++ [':'] ++ write e.2 ++ cs) =
    entryBytes (writtenEntry e) ++ Utf8.encode cs := by
  simp only [Utf8.encode_append, entryBytes, writtenEntry, WrittenKey.bytes_ofKey, List.append_assoc]
  rfl

theorem encode_entries (es : List (Key × Value)) :
    Utf8.encode (writeEntries es) = (es.map fun e => entryBytes (writtenEntry e)).flatMap (0x2c :: ·) := by
  induction es with
  | nil => rfl
  | cons e es ih =>
    have hentry := encode_entry e (writeEntries es)
    rw [ih] at hentry
    exact congrArg (0x2c :: ·) hentry

mutual

theorem spells_encode : ∀ v : Value, Spells (Node.ofValue .json v) (encode v)
  | .absent => .absent
  | .flag true => .yes
  | .flag false => .no
  | .word n => by
    rw [Node.ofValue, encode, write]
    exact spells_word n
  | .text s => by
    rw [Node.ofValue, encode, write]
    exact spells_text s
  | .list [] => .emptyList (w := []) nofun
  | .list (v :: vs) => by
    let written (v : Value) := (Node.ofValue .json v, encode v)
    have hspells : Spells (.list none ((written v :: vs.map written).map (·.1)) none)
        (0x5b :: (joined ((written v :: vs.map written).map (·.2)) ++ [0x5d])) :=
      .list (List.forall_mem_cons.mpr ⟨spells_encode v, List.forall_mem_map.mpr (spells_items vs)⟩)
    -- The writer puts a comma in front of all items but the first, the grammar between them.
    have hbytes : encode (.list (v :: vs)) =
        0x5b :: (joined (((v :: vs).map written).map (·.2)) ++ [0x5d]) := by
      rw [encode, write, List.map_cons, List.map_cons, joined_cons_eq, List.map_map]
      simp only [Utf8.encode_append, encode_items, List.append_assoc]
      rfl
    rw [hbytes, Node.ofValue, Node.ofItems_eq_map]
    rw [← List.map_cons, List.map_map] at hspells
    exact hspells
  | .map [] => .emptyMap (w := []) nofun
  | .map ((k, v) :: es) => by
    have hspells : Spells (.map none
        ((writtenEntry (k, v) :: es.map writtenEntry).map fun x => (x.1.node, x.2.1)) none)
        (0x7b :: (joined ((writtenEntry (k, v) :: es.map writtenEntry).map entryBytes) ++ [0x7d])) :=
      .map (List.forall_mem_cons.mpr ⟨spells_encode v, List.forall_mem_map.mpr (spells_entries es)⟩)
    have hbytes : encode (.map ((k, v) :: es)) =
        0x7b :: (joined (((k, v) :: es).map fun e => entryBytes (writtenEntry e)) ++ [0x7d]) := by
      have hentry := encode_entry (k, v) (writeEntries es ++ ['\x7d'])
      rw [Utf8.encode_append _ ['\x7d'], encode_entries] at hentry
      rw [encode, write, List.map_cons, joined_cons_eq]
      simp only [List.append_assoc] at hentry ⊢
      exact congrArg (0x7b :: ·) hentry
    rw [hbytes, Node.ofValue, Node.ofEntries_eq_map]
    rw [← List.map_cons, List.map_map, List.map_map] at hspells
    simp only [Function.comp_def, writtenEntry, WrittenKey.node_ofKey] at hspells
    exact hspells

theorem spells_items : ∀ vs : List Value, ∀ v ∈ vs, Spells (Node.ofValue .json v) (encode v)
  | [] => by simp
  | v :: vs => List.forall_mem_cons.mpr ⟨spells_encode v, spells_items vs⟩

theorem spells_entries : ∀ es : List (Key × Value), ∀ e ∈ es, Spells (Node.ofValue .json e.2) (encode e.2)
  | [] => by simp
  | (k, v) :: es => List.forall_mem_cons.mpr ⟨spells_encode v, spells_entries es⟩

end

end TileTrace.Json
