import TileTrace.Proofs.Json.Document
import TileTrace.Proofs.MessagePack.Document
import TileTrace.Proofs.Snapshot.Payload
import TileTrace.Snapshot.Envelope

/-!
# Snapshots that were written

A snapshot is read as the payload it was written for. JSON has room for every payload. MessagePack counts
the bytes of a text and the items of a list or map in four bytes, and a payload has to fit in there.
-/

namespace TileTrace

/-! ## Payloads that fit -/

def History.Sized (h : History) : Prop :=
  h.events.size < UInt32.size ∧ ∀ e ∈ h.events.entries, MessagePack.Fits e.2.operation

instance (h : History) : Decidable h.Sized := inferInstanceAs (Decidable (_ ∧ _))

def Trace.Sized (t : Trace) : Prop :=
  t.tiles.length < UInt32.size ∧ ∀ h ∈ t.tiles, h.Sized

instance (t : Trace) : Decidable t.Sized := inferInstanceAs (Decidable (_ ∧ _))

def Disassembly.Sized (d : Disassembly) : Prop :=
  d.size < UInt32.size ∧ ∀ e ∈ d.instructions.entries,
    e.2.length < UInt32.size ∧ ∀ s ∈ e.2, MessagePack.Fits s

instance (d : Disassembly) : Decidable d.Sized := inferInstanceAs (Decidable (_ ∧ _))

namespace Snapshot

def Kind.Payload.Sized : {k : Kind} → k.Payload → Prop
  | .trace, t => Trace.Sized t
  | .disassembly, d => Disassembly.Sized d

end Snapshot

theorem Pc.fits_text (pc : Pc) : MessagePack.Fits pc.text := by
  have h := Utf8.length_encode_le (Numeral.writeFixed 16 8 pc.word.toNat)
  rw [Numeral.writeFixed_length] at h
  rw [MessagePack.Fits, Utf8.encodeString, Pc.text, String.toList_ofList]
  exact Nat.lt_of_le_of_lt h (by decide)

namespace Snapshot.Value

open MessagePack

theorem exists_mem_of_forall₂ {α β : Type} {R : α → β → Prop} {as : List α} {bs : List β}
    (h : List.Forall₂ R as bs) : ∀ {b : β}, b ∈ bs → ∃ a ∈ as, R a b := by
  induction h with
  | nil => exact nofun
  | cons hab _ ih =>
    intro b hb
    rcases List.mem_cons.mp hb with rfl | hb
    · exact ⟨_, List.mem_cons_self, hab⟩
    · obtain ⟨a, ha, hr⟩ := ih hb
      exact ⟨a, List.mem_cons_of_mem _ ha, hr⟩

section
variable {d : Nat} {v : Value}

theorem Record.encodable {fs : List (String × Value)} (h : Record fs v) (hsize : fs.length < UInt32.size)
    (hnames : ∀ s ∈ fs.map (·.1), Fits s) (hvalues : ∀ f ∈ fs, Encodable d f.2) : Encodable (d + 1) v := by
  rw [List.forall_mem_map] at hnames
  cases h with
  | named => exact .map_map Key.name id hsize hnames hvalues
  | listed => exact .list_map hsize hvalues

theorem encodable_ofOption (d : Nat) (c : Option UInt64) : Encodable d (ofOption c) := by
  cases c with
  | none => exact .absent
  | some n => exact .word n

theorem encodable_ofGrid (d : Nat) (g : Grid) : Encodable d (ofGrid g) := by
  cases g <;> exact .text (by decide)

theorem LaysWindow.encodable {w : Window} (h : LaysWindow w v) : Encodable (d + 1) v := by
  refine Record.encodable h (show 2 < UInt32.size by decide)
    (show ∀ s ∈ ["start_cycle", "end_cycle"], Fits s by decide) ?_
  simp only [List.forall_mem_cons, List.not_mem_nil]
  exact ⟨encodable_ofOption d _, encodable_ofOption d _, nofun⟩

theorem LaysEvent.encodable {e : Event} (h : LaysEvent e v) (he : Fits e.operation) : Encodable (d + 1) v := by
  refine Record.encodable h (show 2 < UInt32.size by decide)
    (show ∀ s ∈ ["pc", "operation"], Fits s by decide) ?_
  simp only [List.forall_mem_cons, List.not_mem_nil]
  exact ⟨.text e.pc.fits_text, .text he, nofun⟩

theorem LaysHistory.encodable {h : History} (hv : LaysHistory h v) (hh : h.Sized) : Encodable (d + 3) v := by
  obtain ⟨es, hes, hv⟩ := hv
  have hsize : es.length < UInt32.size := hes.length_eq ▸ hh.1
  have hentries : ∀ e ∈ es, KeyFits e.1 ∧ Encodable (d + 1) e.2 := by
    intro e' he'
    obtain ⟨e, he, hkey, hevent⟩ := exists_mem_of_forall₂ hes he'
    exact ⟨hkey ▸ trivial, hevent.encodable (hh.2 e he)⟩
  refine Record.encodable hv (show 2 < UInt32.size by decide)
    (show ∀ s ∈ ["in_range", "events"], Fits s by decide) ?_
  simp only [List.forall_mem_cons, List.not_mem_nil]
  refine ⟨.flag _, .map hsize ?_ ?_, nofun⟩
  · exact List.forall_mem_map.mpr fun e he => (hentries e he).1
  · exact List.forall_mem_map.mpr fun e he => (hentries e he).2

theorem LaysTrace.encodable {t : Trace} (h : LaysTrace t v) (ht : t.Sized) : Encodable (d + 5) v := by
  obtain ⟨w, hs, hw, hhs, hv⟩ := h
  have hsize : hs.length < UInt32.size := hhs.length_eq ▸ ht.1
  refine Record.encodable hv (show 3 < UInt32.size by decide)
    (show ∀ s ∈ ["grid", "window", "tiles"], Fits s by decide) ?_
  simp only [List.forall_mem_cons, List.not_mem_nil]
  refine ⟨encodable_ofGrid _ _, hw.encodable, .list hsize ?_, nofun⟩
  intro v' hv'
  obtain ⟨h, hh, hlays⟩ := exists_mem_of_forall₂ hhs hv'
  exact hlays.encodable (ht.2 h hh)

theorem LaysDisassembly.encodable {a : Disassembly} (h : LaysDisassembly a v) (ha : a.Sized) :
    Encodable (d + 3) v := by
  refine Record.encodable h (show 1 < UInt32.size by decide) (show ∀ s ∈ ["instructions"], Fits s by decide) ?_
  simp only [List.forall_mem_cons, List.not_mem_nil]
  refine ⟨.map_map (fun pc : Pc => .name pc.text) (fun fragments => .list (fragments.map text)) ha.1
    ?_ ?_, nofun⟩
  · intro e _
    exact e.1.fits_text
  · intro e he
    obtain ⟨hlength, hfragments⟩ := ha.2 e he
    refine .list_map hlength ?_
    intro s hs
    exact .text (hfragments s hs)

theorem LaysPayload.encodable {k : Kind} {p : k.Payload} (h : LaysPayload p v) (hp : p.Sized) :
    Encodable (d + 5) v := by
  cases k with
  | trace => exact LaysTrace.encodable h hp
  | disassembly => exact LaysDisassembly.encodable (d := d + 2) h hp

end

end Snapshot.Value

namespace Snapshot

/-! ## Envelopes -/

def envelopeFields (k : Kind) (v : Value) : List (String × Value) :=
  [("version", .word version.toUInt64), ("kind", .text k.name), ("payload", v)]

section
variable {k : Kind} {p : k.Payload} {v root : Value}

theorem record_envelope (p : k.Payload) : Value.Record (envelopeFields k (Value.ofPayload p)) (envelope p) :=
  .named

open MessagePack in
theorem encodable_of_record (hroot : Value.Record (envelopeFields k v) root) (hv : Value.LaysPayload p v)
    (hp : p.Sized) (d : Nat) : Encodable (d + 6) root := by
  refine hroot.encodable (show 3 < UInt32.size by decide)
    (show ∀ s ∈ ["version", "kind", "payload"], Fits s by decide) ?_
  simp only [envelopeFields, List.forall_mem_cons, List.not_mem_nil]
  refine ⟨.word _, .text ?_, hv.encodable hp, nofun⟩
  cases k <;> decide

theorem encodable_envelope (hp : p.Sized) (d : Nat) : MessagePack.Encodable (d + 6) (envelope p) :=
  encodable_of_record (record_envelope p) (Value.laysPayload_ofPayload p) hp d

end

/-! ## The two passes over a snapshot -/

theorem readVersion_version (fmt : Format) :
    Node.readVersion fmt (Node.ofValue fmt (.word version.toUInt64)) = .ok version := by
  have hlt : version.toUInt64.toNat < UInt32.size := by decide
  rw [Node.ofValue, Node.readVersion, Node.readWord_word fmt hlt]
  rfl

/-- The first pass has no interest in the payload. -/
theorem readHeader_named (fmt : Format) (k : Kind) (v : Value) :
    Node.readHeader fmt (Node.ofValue fmt (.map ((envelopeFields k v).map fun f => (.name f.1, f.2)))) =
      .ok (version, k.name) := by
  rw [envelopeFields, Node.readHeader, List.map_cons, List.map_cons, List.map_cons, Node.readRecord_ofValue,
    Node.fillNamed_ofEntries rfl rfl (b := ⟨some version, none⟩),
    Node.fillNamed_ofEntries rfl rfl (b := ⟨some version, some k.name⟩), Node.fillNamed_pass rfl]
  · rfl
  · exact Node.fill_ok (Node.readText_ofValue fmt k.name)
  · exact Node.fill_ok (readVersion_version fmt)

theorem readHeader_envelope (fmt : Format) {k : Kind} (p : k.Payload) :
    Node.readHeader fmt (Node.ofValue fmt (envelope p)) = .ok (version, k.name) :=
  readHeader_named fmt k (Value.ofPayload p)

theorem readEnvelope_record (fmt : Format) {k : Kind} {p : k.Payload} {v root : Value}
    (hroot : Value.Record (envelopeFields k v) root) (hv : Value.LaysPayload p v) :
    Node.readEnvelope fmt k (Node.ofValue fmt root) = .ok (version, k.name, p) := by
  rw [Node.readEnvelope, Node.readRecord_record hroot (b := ⟨some version, some k.name, some p⟩)]
  · rfl
  · exact .cons rfl (Node.fill_ok (readVersion_version fmt))
      (.cons rfl (Node.fill_ok (Node.readText_ofValue fmt k.name))
        (.cons rfl (Node.fill_ok (Node.readPayload_of_lays fmt hv)) .nil))
  · simp

/-- A snapshot whose payload is laid out in whatever way is read as the payload. -/
theorem read_of_lays {fmt : Format} {k : Kind} {p : k.Payload} {v : Value} {s : List UInt8}
    (hv : Value.LaysPayload p v)
    (h : ∀ {α : Type} (r : Node → Except Fault α), decodeWith fmt r s =
      r (Node.ofValue fmt (.map ((envelopeFields k v).map fun f => (.name f.1, f.2))))) :
    read fmt k s = .ok p := by
  simp only [read, decodeEnvelope, h, readHeader_named, readEnvelope_record fmt .named hv, ne_eq, not_true,
    if_false]

theorem read_of_decodeWith {fmt : Format} {k : Kind} {p : k.Payload} {s : List UInt8}
    (h : ∀ {α : Type} (r : Node → Except Fault α),
      decodeWith fmt r s = r (Node.ofValue fmt (envelope p))) : read fmt k s = .ok p :=
  read_of_lays (Value.laysPayload_ofPayload p) h

/-- Whoever reads what was encoded gets its tree, if MessagePack can hold it. -/
theorem decodeWith_encode {fmt : Format} {v : Value}
    (hv : fmt = .messagePack → MessagePack.Encodable MessagePack.maxDepth v) {α : Type}
    (r : Node → Except Fault α) : decodeWith fmt r (encode fmt v) = r (Node.ofValue fmt v) := by
  cases fmt with
  | messagePack => rw [encode, decodeWith, MessagePack.decode_encode (hv rfl)]
  | json =>
    rw [encode, decodeWith, Json.Document.ofBytes_encode]
    cases r (Node.ofValue .json v) <;> rfl

/-! ## Round trips -/

theorem read_write_json {k : Kind} (p : k.Payload) : read .json k (write .json p) = .ok p := by
  refine read_of_decodeWith fun r => ?_
  rw [write, encode, decodeWith, Json.Document.ofBytes_encode]
  cases r (Node.ofValue .json (envelope p)) <;> rfl

theorem read_write_messagePack {k : Kind} {p : k.Payload} (h : p.Sized) :
    read .messagePack k (write .messagePack p) = .ok p := by
  refine read_of_decodeWith fun r => ?_
  rw [write, encode, decodeWith, MessagePack.decode_encode (encodable_envelope h 1017)]

/-- An instruction of two fragments, and one without any. -/
theorem read_write_messagePack_listing :
    let d : Disassembly := ⟨.ofList [(⟨0x1000⟩, ["lw", "a0,0(sp)"]), (⟨0xfffffffc⟩, [])]⟩
    d.Sized ∧ read .messagePack .disassembly (write .messagePack (k := .disassembly) d) = .ok d :=
  ⟨by decide, read_write_messagePack (k := .disassembly) (show Disassembly.Sized _ by decide)⟩

end Snapshot

end TileTrace
