import TileTrace.Proofs.Snapshot.RoundTrip

/-!
# Snapshots that break off

No reader gets anything from a snapshot that was cut short, wherever the cut is: the map of its envelope
is not closed, and the first pass over it ends with the fault at which the map ends.
-/

namespace TileTrace.Snapshot

/-! ## Maps that are not closed -/

/-- What is met of a map that breaks off: nothing of it, or a map that ends with a fault. -/
inductive Node.Broken : Node → Prop
  | defect (d : Defect) : Broken (.defect d)
  | map (announced : Option Nat) (entries : List (Node × Node)) (f : Fault) :
    Broken (.map announced entries (some f))

theorem Node.Broken.readRecord {n : Node} (h : Broken n) (fmt : Format) {σ : Type} (name : String)
    (members : List (Member σ)) (blank : σ) : ∃ f, n.readRecord fmt name members blank = .error f := by
  cases h with
  | defect d => exact ⟨d.wanted, rfl⟩
  | map announced entries f =>
    rw [readRecord_map]
    cases fillNamed members entries blank with
    | error g => exact ⟨g, rfl⟩
    | ok s => exact ⟨f, rfl⟩

theorem Node.Broken.readHeader {n : Node} (h : Broken n) (fmt : Format) :
    ∃ f, n.readHeader fmt = .error f := by
  unfold Node.readHeader
  obtain ⟨f, hf⟩ := h.readRecord fmt "Header" _ _
  rw [hf]
  exact ⟨f, rfl⟩

/-! ## Cutting a snapshot -/

section
variable {k : Kind} {p : k.Payload} {s t : List UInt8}

theorem decodeWith_cut_json (h : s ++ t = write .json p) (ht : t ≠ []) :
    ∃ f, decodeWith .json (Node.readHeader .json) s = .error f := by
  have hbroken : Node.Broken (Json.Document.ofBytes s).root := by
    rcases Json.root_of_cut h ht with hroot | ⟨ns, f, hroot⟩
    · exact hroot ▸ .defect _
    · exact hroot ▸ .map _ _ f
  obtain ⟨f, hf⟩ := hbroken.readHeader .json
  refine ⟨f, ?_⟩
  rw [decodeWith, hf]
  rfl

theorem decodeWith_cut_messagePack (hp : p.Sized) (h : s ++ t = write .messagePack p) (ht : t ≠ []) :
    ∃ f, decodeWith .messagePack (Node.readHeader .messagePack) s = .error f := by
  have hbroken : Node.Broken (MessagePack.decode s) := by
    have hsmall : 3 < 0x10 := by decide
    rcases MessagePack.decode_of_cut (encodable_envelope hp 1017) hsmall h ht with hroot | ⟨ns, f, hroot⟩
    · exact hroot ▸ .defect _
    · exact hroot ▸ .map _ _ f
  exact hbroken.readHeader .messagePack

end

/-- A proper prefix of a snapshot is no snapshot. -/
theorem read_of_cut (fmt : Format) {k : Kind} {p : k.Payload} (hp : fmt = .messagePack → p.Sized)
    {s : List UInt8} (hs : s <+: write fmt p) (hne : s ≠ write fmt p) : ∃ e, read fmt k s = .error e := by
  obtain ⟨t, h⟩ := hs
  have ht : t ≠ [] := by
    rintro rfl
    exact hne (h ▸ (List.append_nil s).symm)
  have hheader : ∃ f, decodeWith fmt (Node.readHeader fmt) s = .error f := by
    cases fmt with
    | json => exact decodeWith_cut_json h ht
    | messagePack => exact decodeWith_cut_messagePack (hp rfl) h ht
  obtain ⟨f, hf⟩ := hheader
  refine ⟨.unreadable fmt f, ?_⟩
  simp only [read, hf]

/-- A trace with an event, cut inside the cycle at which its window starts and inside the label of the event. -/
theorem read_of_cut_event :
    let t : Trace := ⟨.reduced, ⟨some 1234, none⟩, [⟨true, .ofList [(1234, ⟨⟨0x1000⟩, "add"⟩)]⟩]⟩
    let json := write .json (k := .trace) t
    let packed := write .messagePack (k := .trace) t
    (Utf8.encode ":12".toList <:+ json.take 82 ∧ Utf8.encode "34,".toList <+: json.drop 82) ∧
      (Utf8.encode "a".toList <:+ packed.take 131 ∧ Utf8.encode "dd".toList = packed.drop 131) ∧ t.Sized ∧
      (∃ e, read .json .trace (json.take 82) = .error e) ∧
      ∃ e, read .messagePack .trace (packed.take 131) = .error e := by
  intro t json packed
  have hnumber : Utf8.encode ":12".toList <:+ json.take 82 ∧ Utf8.encode "34,".toList <+: json.drop 82 := by
    decide +kernel
  have htext : Utf8.encode "a".toList <:+ packed.take 131 ∧ Utf8.encode "dd".toList = packed.drop 131 := by
    decide +kernel
  have hsized : t.Sized := by decide
  have hcut : json.take 82 ≠ json ∧ packed.take 131 ≠ packed := by decide +kernel
  exact ⟨hnumber, htext, hsized, read_of_cut (k := .trace) (p := t) .json nofun (List.take_prefix _ _) hcut.1,
    read_of_cut (k := .trace) (p := t) .messagePack (fun _ => hsized) (List.take_prefix _ _) hcut.2⟩

end TileTrace.Snapshot
