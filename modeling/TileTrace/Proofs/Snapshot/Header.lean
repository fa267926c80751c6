import TileTrace.Proofs.Json.Grammar
import TileTrace.Proofs.MessagePack.Grammar
import TileTrace.Proofs.Snapshot.Records
import TileTrace.Proofs.Snapshot.RoundTrip

/-!
# The header of a snapshot

Kind and version decide about a snapshot before its payload is looked at, whatever value of the format the
payload is and wherever in the envelope it stands. No snapshot passes for one of the other kind, or for one in
the other format.
-/

namespace TileTrace.Snapshot

/-! ## Documents -/

/-- The ways to write a document in a format. MessagePack is not read where lists and maps are nested more
deeply than `MessagePack.maxDepth`; JSON has no such bound. -/
def Spells : Format → Node → List UInt8 → Prop
  | .json, n, s => Json.Spells n s
  | .messagePack, n, s => MessagePack.Spells MessagePack.maxDepth n s

/-- A map of a version, a kind and a payload, in any order. -/
inductive Headed (n : UInt32) (kind : String) (payload : Node) : Node → Prop
  | map {announced : Option Nat} {entries : List (Node × Node)} {versionKey kindKey payloadKey number : Node}
      (hversion : Node.Names "version" versionKey) (hkind : Node.Names "kind" kindKey)
      (hpayload : Node.Names "payload" payloadKey) (hnumber : Node.IsNumber n.toNat number)
      (hentries : entries.Perm [(versionKey, number), (kindKey, .text kind), (payloadKey, payload)]) :
      Headed n kind payload (.map announced entries none)

section
variable {fmt : Format} {root : Node} {s : List UInt8}

theorem Spells.decodeWith (h : Spells fmt root s) {α : Type} (read : Node → Except Fault α) :
    decodeWith fmt read s = read root := by
  cases fmt with
  | messagePack =>
    have hroot := MessagePack.Spells.decode h []
    rw [List.append_nil] at hroot
    rw [Snapshot.decodeWith, hroot]
  | json =>
    rw [Snapshot.decodeWith, Json.Spells.ofBytes h]
    cases read root <;> rfl

theorem Spells.passable (h : Spells fmt root s) : ∀ e ∈ root.entries, e.2.stop? = none := by
  cases fmt with
  | messagePack => exact MessagePack.Spells.passable h
  | json => exact Json.Spells.passable h

end

/-! ## Reading the header -/

namespace Node

def headerMembers (fmt : Format) : List (Member HeaderFields) := [
  ⟨"version", (·.version.isSome), fun v s => return { s with version := some (← v.readVersion fmt) }⟩,
  ⟨"kind", (·.kind.isSome), fun v s => return { s with kind := some (← v.readText) }⟩]

theorem readHeader_map {fmt : Format} {announced : Option Nat} {entries : List (Node × Node)}
    {stop : Option Fault} {n : UInt32} {kind : String} :
    readHeader fmt (.map announced entries stop) = .ok (n, kind) ↔
      stop = none ∧ fillNamed (headerMembers fmt) entries {} = .ok ⟨some n, some kind⟩ := by
  unfold readHeader
  rw [readRecord_map]
  show (do
    let fields ← (do finish stop (← fillNamed (headerMembers fmt) entries {}))
    return (← require "version" fields.version, ← require "kind" fields.kind)) = _ ↔ _
  cases fillNamed (headerMembers fmt) entries {} with
  | error f => simp [bind, Except.bind]
  | ok fields =>
    obtain ⟨version, kind⟩ := fields
    cases stop <;> cases version <;> cases kind <;>
      simp [finish, require, bind, Except.bind, pure, Except.pure]

def someHeader (n : UInt32) (kind : String) (given : Finset String) : HeaderFields where
  version := if "version" ∈ given then some n else none
  kind := if "kind" ∈ given then some kind else none

theorem fillNamed_headed {fmt : Format} {n : UInt32} {kind : String} {payload root : Node}
    (h : Headed n kind payload root) (hroot : ∀ e ∈ root.entries, e.2.stop? = none) :
    fillNamed (headerMembers fmt) root.entries {} = .ok ⟨some n, some kind⟩ := by
  cases h with
  | @map announced entries versionKey kindKey payloadKey number hversion hkind hpayload hnumber hentries =>
    have hpass : payload.stop? = none := hroot (payloadKey, payload) (hentries.mem_iff.mpr (by simp))
    -- The members in one order, from which theirs is a permutation.
    have hsettles : List.Forall₂ (Settles (headerMembers fmt) (someHeader n kind))
        [(versionKey, number), (kindKey, .text kind), (payloadKey, payload)]
        [some "version", some "kind", none] := by
      apply List.Forall₂.cons
      · apply Settles.field (hversion.member? _)
        · intro done hdone
          simp [someHeader, hdone]
        · intro done
          refine (fill_ok (hnumber.readVersion fmt)).trans ?_
          simp [someHeader]
      apply List.Forall₂.cons
      · apply Settles.field (hkind.member? _)
        · intro done hdone
          simp [someHeader, hdone]
        · intro done
          refine (fill_ok (rfl : readText (.text kind) = .ok kind)).trans ?_
          simp [someHeader]
      exact .cons (.other (hpayload.member? _) hpass) .nil
    exact fillNamed_perm hentries hsettles (by decide)

theorem readHeader_headed {fmt : Format} {n : UInt32} {kind : String} {payload root : Node}
    (h : Headed n kind payload root) (hroot : ∀ e ∈ root.entries, e.2.stop? = none) :
    readHeader fmt root = .ok (n, kind) := by
  have hfill : fillNamed (headerMembers fmt) root.entries {} = .ok ⟨some n, some kind⟩ :=
    fillNamed_headed h hroot
  cases h with
  | map => exact readHeader_map.mpr ⟨rfl, hfill⟩

end Node

/-- Once there is a header, kind and version are asked for in this order. -/
theorem read_of_header {fmt : Format} {k : Kind} {s : List UInt8} {n : UInt32} {found : String}
    (h : decodeWith fmt (Node.readHeader fmt) s = .ok (n, found)) :
    (found ≠ k.name → read fmt k s = .error (.kind k found)) ∧
      (found = k.name → n ≠ version → read fmt k s = .error (.version n)) := by
  constructor
  · intro hkind
    simp only [read, h, if_pos hkind]
  · intro hkind hversion
    simp only [read, h, if_neg (not_not_intro hkind), if_pos hversion]

/-! ## Snapshots of another kind or format -/

theorem decodeHeader_write {fmt : Format} {k : Kind} {p : k.Payload} (hp : fmt = .messagePack → p.Sized) :
    decodeWith fmt (Node.readHeader fmt) (write fmt p) = .ok (version, k.name) :=
  (decodeWith_encode (fun hfmt => encodable_envelope (hp hfmt) 1017) _).trans (readHeader_envelope fmt p)

/-- The brace that begins a JSON snapshot is a number in MessagePack. -/
theorem decodeHeader_json {k : Kind} (p : k.Payload) :
    ∃ f, decodeWith .messagePack (Node.readHeader .messagePack) (write .json p) = .error f := by
  obtain ⟨s, hs⟩ : ∃ s, write .json p = 0x7b :: s := ⟨_, rfl⟩
  have hdecode : MessagePack.decode (0x7b :: s) = .word 0x7b := by
    rw [MessagePack.decode, MessagePack.read_leaf rfl]
    rfl
  rw [hs, decodeWith, hdecode]
  exact ⟨_, rfl⟩

/-- No JSON token begins like the map of a MessagePack snapshot. -/
theorem decodeHeader_messagePack {k : Kind} (p : k.Payload) :
    ∃ f, decodeWith .json (Node.readHeader .json) (write .messagePack p) = .error f := by
  obtain ⟨s, hs⟩ : ∃ s, write .messagePack p = 0x83 :: s := ⟨_, rfl⟩
  have hscan : Json.Token.scan (0x83 :: s) = [.leaf (.defect (.fatal .badSyntax))] := by
    have hnext : Json.Token.next 0x83 s = (.leaf (.defect (.fatal .badSyntax)), []) := rfl
    rw [Json.Token.scan_cons rfl, hnext]
    simp [Json.Token.scan]
  have hroot : (Json.Document.ofBytes (0x83 :: s)).root = .defect (.fatal .badSyntax) := by
    rw [Json.Document.ofBytes, hscan]
    rfl
  rw [hs, decodeWith]
  simp only [hroot]
  exact ⟨_, rfl⟩

theorem read_other_format {f g : Format} (hne : g ≠ f) {j : Kind} (p : j.Payload) (k : Kind) :
    ∃ fault, read g k (write f p) = .error (.unreadable g fault) := by
  have hheader : ∃ fault, decodeWith g (Node.readHeader g) (write f p) = .error fault := by
    cases f <;> cases g
    · exact absurd rfl hne
    · exact decodeHeader_messagePack p
    · exact decodeHeader_json p
    · exact absurd rfl hne
  obtain ⟨fault, h⟩ := hheader
  exact ⟨fault, by simp only [read, h]⟩

/-- Whatever the payload is, a wrong kind is reported first and then a wrong version. So a snapshot is read as
nothing but what it was written as: another kind is told from its header, and the other format is not read. -/
theorem read_by_header :
    (∀ (fmt : Format) (k : Kind) (n : UInt32) (found : String) (payload root : Node) (s : List UInt8),
      Spells fmt root s → Headed n found payload root →
        (found ≠ k.name → read fmt k s = .error (.kind k found)) ∧
          (found = k.name → n ≠ version → read fmt k s = .error (.version n))) ∧
    ∀ (f g : Format) (j k : Kind) (p : j.Payload), (f = .messagePack → p.Sized) →
      ((∃ v, read g k (write f p) = .ok v) → k = j ∧ g = f) ∧
        (g = f → k ≠ j → read g k (write f p) = .error (.kind k j.name)) ∧
        (g ≠ f → ∃ fault, read g k (write f p) = .error (.unreadable g fault)) := by
  constructor
  · intro fmt k n found payload root s hs hroot
    apply read_of_header
    rw [hs.decodeWith, Node.readHeader_headed hroot hs.passable]
  · intro f g j k p hp
    have hkind : g = f → k ≠ j → read g k (write f p) = .error (.kind k j.name) := by
      rintro rfl hne
      apply (read_of_header (decodeHeader_write hp)).1
      intro hname
      apply hne
      revert hname
      cases j <;> cases k <;> simp [Kind.name]
    refine ⟨?_, hkind, fun hne => read_other_format hne p k⟩
    intro ⟨v, hv⟩
    by_cases hformat : g = f
    · by_cases hne : k = j
      · exact ⟨hne, hformat⟩
      · rw [hkind hformat hne] at hv
        cases hv
    · obtain ⟨fault, h⟩ := read_other_format hformat p k
      rw [h] at hv
      cases hv

/-- A list in the place of the payload, in front of a version that is to come; and a disassembly that is taken
for a trace. -/
theorem read_by_header_payload_first :
    let document (kind : String) : Value :=
      .map [(.name "payload", .list [.absent]), (.name "kind", .text kind), (.name "version", .word 9)]
    let root (kind : String) := Node.ofValue .messagePack (document kind)
    let d : Disassembly := ⟨.ofList [(⟨0x1000⟩, ["lw", "a0,0(sp)"])]⟩
    (∀ kind ∈ ["trace", "figure"], Spells .messagePack (root kind) (encode .messagePack (document kind)) ∧
        Headed 9 kind (.list (some 1) [.absent] none) (root kind)) ∧ d.Sized ∧
      read .messagePack .trace (encode .messagePack (document "figure")) = .error (.kind .trace "figure") ∧
      read .messagePack .trace (encode .messagePack (document "trace")) = .error (.version 9) ∧
      read .messagePack .trace (write .messagePack (k := .disassembly) d) =
        .error (.kind .trace "disassembly") ∧
      ∃ fault, read .json .disassembly (write .messagePack (k := .disassembly) d) =
        .error (.unreadable .json fault) := by
  intro document root d
  have hsized : d.Sized := by decide
  have hdocument : ∀ kind ∈ ["trace", "figure"],
      Spells .messagePack (root kind) (encode .messagePack (document kind)) ∧
        Headed 9 kind (.list (some 1) [.absent] none) (root kind) := by
    intro kind hkind
    have hfits : ∀ kind ∈ ["trace", "figure"], MessagePack.Fits kind := by decide
    constructor
    · apply MessagePack.spells_encode
      have hkeys : ∀ k ∈ [Key.name "payload", .name "kind", .name "version"], MessagePack.KeyFits k := by decide
      refine .map (show 3 < UInt32.size by decide) hkeys ?_
      simp only [List.map_cons, List.map_nil, List.forall_mem_cons, List.not_mem_nil]
      refine ⟨.list (show 1 < UInt32.size by decide) ?_, .text (hfits kind hkind), .word 9, nofun⟩
      simp only [List.forall_mem_cons, List.not_mem_nil]
      exact ⟨.absent, nofun⟩
    · exact .map .text .text .text .word (List.reverse_perm _).symm
  obtain ⟨hdecides, hother⟩ := read_by_header
  obtain ⟨hspells, hheaded⟩ := hdocument "figure" (by simp)
  obtain ⟨hspells', hheaded'⟩ := hdocument "trace" (by simp)
  refine ⟨hdocument, hsized, ?_, ?_, ?_, ?_⟩
  · exact (hdecides _ .trace _ _ _ _ _ hspells hheaded).1 (by decide)
  · exact (hdecides _ .trace _ _ _ _ _ hspells' hheaded').2 rfl (by decide)
  · exact (hother .messagePack .messagePack .disassembly .trace d fun _ => hsized).2.1 rfl nofun
  · exact (hother .messagePack .json .disassembly .disassembly d fun _ => hsized).2.2 nofun

end TileTrace.Snapshot
