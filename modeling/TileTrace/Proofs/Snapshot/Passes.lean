import TileTrace.Proofs.Json.Root
import TileTrace.Proofs.MessagePack.Root
import TileTrace.Proofs.Snapshot.Header

/-!
# The two passes over a snapshot

Both passes go over the same tree with different fields in mind. On a map they agree: what the second one reads
as a whole envelope has a header for the first one too, and they find the same version and kind. On a list they
never do: it has the items of a header or those of an envelope.
-/

namespace TileTrace.Snapshot

/-! ## The tree of a document and what is behind it -/

def rootOf : Format → List UInt8 → Node
  | .json, s => (Json.Document.ofBytes s).root
  | .messagePack, s => MessagePack.decode s

def restOf : Format → List UInt8 → Option Fault
  | .json, s => (Json.Document.ofBytes s).rest
  | .messagePack, _ => none

theorem decodeWith_eq_ok {fmt : Format} {α : Type} {read : Node → Except Fault α} {s : List UInt8} {a : α} :
    decodeWith fmt read s = .ok a ↔ read (rootOf fmt s) = .ok a ∧ restOf fmt s = none := by
  cases fmt with
  | messagePack => simp [decodeWith, rootOf, restOf]
  | json =>
    simp only [decodeWith, rootOf, restOf]
    cases read (Json.Document.ofBytes s).root <;> cases (Json.Document.ofBytes s).rest <;>
      simp [Node.finish, bind, Except.bind]

def OpensMap : Format → List UInt8 → Prop
  | .json, s => Json.Opens 0x7b s
  | .messagePack, s => ∃ b r, s = b :: r ∧ MessagePack.OpensMap b

def OpensList : Format → List UInt8 → Prop
  | .json, s => Json.Opens 0x5b s
  | .messagePack, s => ∃ b r, s = b :: r ∧ MessagePack.OpensList b

section
variable {fmt : Format} {s : List UInt8}

theorem OpensMap.root (h : OpensMap fmt s) : (rootOf fmt s).IsPassableMap ∨ ∃ d, rootOf fmt s = .defect d := by
  cases fmt with
  | json => exact .inl (Json.root_of_opensMap h)
  | messagePack =>
    obtain ⟨b, r, rfl, hb⟩ := h
    exact MessagePack.decode_of_opensMap hb r

theorem OpensList.root (h : OpensList fmt s) : (rootOf fmt s).IsNoMap := by
  cases fmt with
  | json => exact Json.root_of_opensList h
  | messagePack =>
    obtain ⟨b, r, rfl, hb⟩ := h
    exact MessagePack.decode_of_opensList hb r

end

namespace Node

/-! ## The fields of both passes -/

section
variable {fmt : Format} {k : Kind}

def envelopeMembers (fmt : Format) (k : Kind) : List (Member (EnvelopeFields k)) := [
  ⟨"version", (·.version.isSome), fun v s => return { s with version := some (← v.readVersion fmt) }⟩,
  ⟨"kind", (·.kind.isSome), fun v s => return { s with kind := some (← v.readText) }⟩,
  ⟨"payload", (·.payload.isSome), fun v s => do
    return { s with payload := some (← v.readPayload fmt k) }⟩]

def EnvelopeFields.header (s : EnvelopeFields k) : HeaderFields where
  version := s.version
  kind := s.kind

theorem readEnvelope_map {announced : Option Nat} {entries : List (Node × Node)} {stop : Option Fault}
    {n : UInt32} {kind : String} {p : k.Payload} :
    readEnvelope fmt k (.map announced entries stop) = .ok (n, kind, p) ↔
      stop = none ∧ fillNamed (envelopeMembers fmt k) entries {} = .ok ⟨some n, some kind, some p⟩ := by
  unfold readEnvelope
  rw [readRecord_map]
  show (do
    let fields ← (do finish stop (← fillNamed (envelopeMembers fmt k) entries {}))
    return (← require "version" fields.version, ← require "kind" fields.kind,
      ← require "payload" fields.payload)) = _ ↔ _
  cases fillNamed (envelopeMembers fmt k) entries {} with
  | error f => simp [bind, Except.bind]
  | ok fields =>
    obtain ⟨version, kind, payload⟩ := fields
    cases stop <;> cases version <;> cases kind <;> cases payload <;>
      simp [finish, require, bind, Except.bind, pure, Except.pure]

theorem find?_members (fmt : Format) (k : Kind) (p : String → Bool) :
    ∃ i : Nat, (headerMembers fmt).find? (fun m => p m.name) = (headerMembers fmt)[i]? ∧
      (envelopeMembers fmt k).find? (fun m => p m.name) = (envelopeMembers fmt k)[i]? := by
  simp only [headerMembers, envelopeMembers, List.find?_cons, List.find?_nil]
  cases p "version" with
  | true => exact ⟨0, rfl, rfl⟩
  | false =>
    cases p "kind" with
    | true => exact ⟨1, rfl, rfl⟩
    | false =>
      cases p "payload" with
      | true => exact ⟨2, rfl, rfl⟩
      | false => exact ⟨3, rfl, rfl⟩

theorem reject_eq_error {α : Type} (n : Node) (expected : String) :
    ∃ f, (n.reject expected : Except Fault α) = .error f := by
  unfold reject
  split <;> exact ⟨_, rfl⟩

/-- A key names the field with the same number in both passes. The payload has none in the first. -/
theorem member?_members (fmt : Format) (k : Kind) (key : Node) :
    (∃ i : Nat, key.member? (headerMembers fmt) = .ok (headerMembers fmt)[i]? ∧
        key.member? (envelopeMembers fmt k) = .ok (envelopeMembers fmt k)[i]?) ∨
      ∃ f, key.member? (envelopeMembers fmt k) = .error f := by
  match key with
  | .text s =>
    obtain ⟨i, hheader, henvelope⟩ := find?_members fmt k fun name => name = s
    exact .inl ⟨i, congrArg Except.ok hheader, congrArg Except.ok henvelope⟩
  | .bytes b =>
    obtain ⟨i, hheader, henvelope⟩ := find?_members fmt k fun name => Utf8.encodeString name = b
    exact .inl ⟨i, congrArg Except.ok hheader, congrArg Except.ok henvelope⟩
  | .word n => exact .inl ⟨n, rfl, rfl⟩
  | .key t _ _ => exact member?_members fmt k t
  | .defect d =>
    by_cases hd : d.wanted = .badText
    · exact .inl ⟨3, by simp [member?, hd, headerMembers], by simp [member?, hd, envelopeMembers]⟩
    · exact .inr ⟨d.wanted, by simp [member?, hd]⟩
  | .absent | .flag _ | .signed _ | .float _ | .octet _ | .list .. | .map .. | .extension _ =>
    exact .inr (reject_eq_error _ _)

/-! ## Agreement on maps -/

theorem bind_eq_ok {α β : Type} {x : Except Fault α} {f : α → Except Fault β} {b : β} :
    (x >>= f) = .ok b ↔ ∃ a, x = .ok a ∧ f a = .ok b := by
  cases x <;> simp [bind, Except.bind]

theorem fillNamed_cons_eq_ok {σ : Type} {members : List (Member σ)} {key v : Node} {es : List (Node × Node)}
    {a c : σ} : fillNamed members ((key, v) :: es) a = .ok c ↔
      (key.member? members = .ok none ∧ v.pass = .ok () ∧ fillNamed members es a = .ok c) ∨
        ∃ m b, key.member? members = .ok (some m) ∧ m.isSet a = false ∧ m.fill v a = .ok b ∧
          fillNamed members es b = .ok c := by
  rw [fillNamed, bind_eq_ok]
  constructor
  · rintro ⟨o, ho, h⟩
    cases o with
    | none =>
      obtain ⟨u, hpass, h⟩ := bind_eq_ok.mp h
      exact .inl ⟨ho, hpass, h⟩
    | some m =>
      refine .inr ⟨m, ?_⟩
      by_cases hset : m.isSet a = true
      · simp [hset] at h
      · simp only [hset] at h
        obtain ⟨b, hfill, h⟩ := bind_eq_ok.mp h
        exact ⟨b, ho, Bool.eq_false_iff.mpr hset, hfill, h⟩
  · rintro (⟨ho, hpass, h⟩ | ⟨m, b, ho, hset, hfill, h⟩)
    · exact ⟨none, ho, bind_eq_ok.mpr ⟨(), hpass, h⟩⟩
    · refine ⟨some m, ho, ?_⟩
      simp only [hset]
      exact bind_eq_ok.mpr ⟨b, hfill, h⟩

/-- What the second pass fills in is filled in by the first in the same way; of the payload the first takes
no notice. -/
theorem fill_members {i : Nat} {me : Member (EnvelopeFields k)} (hi : (envelopeMembers fmt k)[i]? = some me)
    {v : Node} {a b : EnvelopeFields k} (hset : me.isSet a = false) (hfill : me.fill v a = .ok b) :
    (∃ mh, (headerMembers fmt)[i]? = some mh ∧ mh.isSet a.header = false ∧
        mh.fill v a.header = .ok b.header) ∨
      (headerMembers fmt)[i]? = none ∧ b.header = a.header := by
  match i with
  | 0 =>
    cases hi
    obtain ⟨n, hn, hb⟩ := bind_eq_ok.mp hfill
    cases hb
    refine .inl ⟨_, rfl, hset, ?_⟩
    exact bind_eq_ok.mpr ⟨n, hn, rfl⟩
  | 1 =>
    cases hi
    obtain ⟨s, hs, hb⟩ := bind_eq_ok.mp hfill
    cases hb
    refine .inl ⟨_, rfl, hset, ?_⟩
    exact bind_eq_ok.mpr ⟨s, hs, rfl⟩
  | 2 =>
    cases hi
    obtain ⟨p, hp, hb⟩ := bind_eq_ok.mp hfill
    cases hb
    exact .inr ⟨rfl, rfl⟩
  | i + 3 => cases hi

theorem pass_eq_ok {n : Node} : n.pass = .ok () ↔ n.stop? = none := by
  unfold pass
  cases n.stop? <;> simp

theorem fillNamed_other_error {σ : Type} {members : List (Member σ)} {key v : Node}
    {es : List (Node × Node)} {a : σ} (hkey : key.member? members = .ok none) (hstop : v.stop? ≠ none) :
    ∃ f, fillNamed members ((key, v) :: es) a = .error f := by
  obtain ⟨f, hf⟩ := Option.ne_none_iff_exists'.mp hstop
  refine ⟨f, ?_⟩
  rw [fillNamed, hkey]
  show (v.pass >>= fun _ => fillNamed members es a) = _
  rw [pass, hf]
  rfl

/-- What the second pass makes of an entry, the first one makes of it too, unless the entry is the payload and
its value stops the first pass, which only goes over it. -/
theorem fillNamed_header_cons {key v : Node} {es : List (Node × Node)} {a c : EnvelopeFields k}
    (h : fillNamed (envelopeMembers fmt k) ((key, v) :: es) a = .ok c) :
    (∃ b, fillNamed (envelopeMembers fmt k) es b = .ok c ∧
        fillNamed (headerMembers fmt) ((key, v) :: es) a.header = fillNamed (headerMembers fmt) es b.header) ∨
      v.stop? ≠ none ∧ ∃ f, fillNamed (headerMembers fmt) ((key, v) :: es) a.header = .error f := by
  rcases member?_members fmt k key with ⟨i, hheader, henvelope⟩ | ⟨f, hf⟩
  · rcases fillNamed_cons_eq_ok.mp h with ⟨hkey, hpass, hes⟩ | ⟨me, b, hkey, hset, hfill, hes⟩
    · -- The number is none of the three of an envelope, and so none of the two of a header.
      have hnone : (headerMembers fmt)[i]? = none := by
        rw [hkey] at henvelope
        have hle := List.getElem?_eq_none_iff.mp (Except.ok.inj henvelope).symm
        exact List.getElem?_eq_none_iff.mpr (Nat.le_trans (show 2 ≤ 3 by decide) hle)
      rw [hnone] at hheader
      exact .inl ⟨a, hes, fillNamed_other hheader (pass_eq_ok.mp hpass) es _⟩
    · rw [hkey] at henvelope
      rcases fill_members (Except.ok.inj henvelope).symm hset hfill with ⟨mh, hi, hset', hfill'⟩ | ⟨hi, hsame⟩
      · rw [hi] at hheader
        exact .inl ⟨b, hes, fillNamed_field hheader hset' hfill' es⟩
      · -- The payload, which the first pass goes over without a look at its type.
        rw [hi] at hheader
        by_cases hstop : v.stop? = none
        · exact .inl ⟨b, hes, by rw [fillNamed_other hheader hstop, hsame]⟩
        · exact .inr ⟨hstop, fillNamed_other_error hheader hstop⟩
  · rcases fillNamed_cons_eq_ok.mp h with ⟨hkey, -⟩ | ⟨me, b, hkey, -⟩
    · rw [hf] at hkey
      cases hkey
    · rw [hf] at hkey
      cases hkey

/-- Where the second pass gets through a map, the first one does so with the same version and kind, unless a
value stops it that the second one reads. -/
theorem fillNamed_header {es : List (Node × Node)} {a c : EnvelopeFields k}
    (h : fillNamed (envelopeMembers fmt k) es a = .ok c) :
    fillNamed (headerMembers fmt) es a.header = .ok c.header ∨
      (∃ f, fillNamed (headerMembers fmt) es a.header = .error f) ∧ ∃ e ∈ es, e.2.stop? ≠ none := by
  induction es generalizing a with
  | nil =>
    cases h
    exact .inl rfl
  | cons e es ih =>
    obtain ⟨key, v⟩ := e
    rcases fillNamed_header_cons h with ⟨b, hes, hsame⟩ | ⟨hstop, hf⟩
    · rw [hsame]
      exact (ih hes).imp id fun ⟨hf, e, he, hstop⟩ => ⟨hf, e, List.mem_cons_of_mem _ he, hstop⟩
    · exact .inr ⟨hf, (key, v), List.mem_cons_self, hstop⟩

/-- What is a header and an envelope has one version and one kind. -/
theorem header_eq_of_map {announced : Option Nat} {es : List (Node × Node)} {stop : Option Fault}
    {n n' : UInt32} {kind kind' : String} {p : k.Payload}
    (hheader : readHeader fmt (.map announced es stop) = .ok (n, kind))
    (henvelope : readEnvelope fmt k (.map announced es stop) = .ok (n', kind', p)) : n' = n ∧ kind' = kind := by
  obtain ⟨-, hh⟩ := readHeader_map.mp hheader
  obtain ⟨-, he⟩ := readEnvelope_map.mp henvelope
  rcases fillNamed_header he with hsame | ⟨⟨f, hf⟩, -⟩
  · have heq : (HeaderFields.mk (some n) (some kind)) = ⟨some n', some kind'⟩ :=
      Except.ok.inj (hh.symm.trans hsame)
    cases heq
    exact ⟨rfl, rfl⟩
  · have hcontra := hh.symm.trans hf
    cases hcontra

theorem readHeader_of_readEnvelope {root : Node} (hroot : root.IsPassableMap) {n : UInt32} {kind : String}
    {p : k.Payload} (h : readEnvelope fmt k root = .ok (n, kind, p)) : readHeader fmt root = .ok (n, kind) := by
  obtain ⟨announced, es, stop, rfl, hes⟩ := hroot
  obtain ⟨hstop, hfill⟩ := readEnvelope_map.mp h
  rcases fillNamed_header hfill with hsame | ⟨-, e, he, hne⟩
  · exact readHeader_map.mpr ⟨hstop, hsame⟩
  · exact absurd (hes hstop e he) hne

/-! ## Disagreement on lists -/

/-- The number of items that a format asks about: JSON counts them, MessagePack believes what is announced. -/
def itemCount : Format → Option Nat → List Node → Option Nat
  | .json, _, items => some items.length
  | .messagePack, announced, _ => announced

theorem length_of_fillListed {σ : Type} {expected : String} {stop : Option Fault} {members : List (Member σ)} :
    ∀ {count : Nat} {items left : List Node} {a b : σ},
      fillListed expected stop count members items a = .ok (left, b) →
      items.length = members.length + left.length := by
  induction members with
  | nil =>
    intro count items left a b h
    cases h
    simp
  | cons m members ih =>
    intro count items left a b h
    cases items with
    | nil => cases h
    | cons n items =>
      rw [fillListed, bind_eq_ok] at h
      obtain ⟨c, -, h⟩ := h
      simp only [List.length_cons, ih h]
      omega

theorem itemCount_of_readRecord {σ : Type} {name : String} {members : List (Member σ)} {blank s : σ}
    {root : Node} (hroot : root.IsNoMap) (h : readRecord fmt name members blank root = .ok s) :
    ∃ announced items stop, root.listed = .list announced items stop ∧
      itemCount fmt announced items = some members.length := by
  unfold readRecord at h
  split at h
  · rename_i announced es stop hmap
    cases root with
    | map announced' es' stop' => exact absurd rfl (hroot announced' es' stop')
    | _ => cases hmap
  · rename_i announced items stop hlist
    refine ⟨announced, items, stop, hlist, ?_⟩
    obtain ⟨⟨left, c⟩, hfill, h⟩ := bind_eq_ok.mp h
    cases fmt with
    | json =>
      cases left with
      | nil => rw [itemCount, length_of_fillListed hfill, List.length_nil, Nat.add_zero]
      | cons n left => cases h
    | messagePack =>
      by_cases hannounced : announced = some members.length
      · exact hannounced
      · simp [hannounced] at h
  · obtain ⟨f, hf⟩ := reject_eq_error (α := σ) root.listed ("struct " ++ name)
    rw [hf] at h
    cases h

/-- A list has the items of a header or those of an envelope. -/
theorem not_both_of_isNoMap {root : Node} (hroot : root.IsNoMap) {x : UInt32 × String}
    {y : UInt32 × String × k.Payload} (hheader : readHeader fmt root = .ok x)
    (henvelope : readEnvelope fmt k root = .ok y) : False := by
  obtain ⟨h, hh, -⟩ := bind_eq_ok.mp hheader
  obtain ⟨e, he, -⟩ := bind_eq_ok.mp henvelope
  obtain ⟨announced, items, stop, hlist, htwo⟩ := itemCount_of_readRecord hroot hh
  obtain ⟨announced', items', stop', hlist', hthree⟩ := itemCount_of_readRecord hroot he
  rw [hlist] at hlist'
  cases hlist'
  rw [htwo] at hthree
  cases hthree

end

end Node

/-! ## Reading and decoding -/

theorem read_eq_ok {fmt : Format} {k : Kind} {s : List UInt8} {p : k.Payload} :
    read fmt k s = .ok p ↔ decodeWith fmt (Node.readHeader fmt) s = .ok (version, k.name) ∧
      ∃ n kind, decodeEnvelope fmt k s = .ok (n, kind, p) := by
  unfold read
  cases hheader : decodeWith fmt (Node.readHeader fmt) s with
  | error f => simp
  | ok x =>
    obtain ⟨n, found⟩ := x
    by_cases hkind : found = k.name
    · by_cases hversion : n = version
      · cases decodeEnvelope fmt k s with
        | error f => simp [hkind, hversion]
        | ok y =>
          obtain ⟨n', kind', p'⟩ := y
          simp [hkind, hversion]
      · simp [hkind, hversion]
    · simp [hkind]

section
variable {fmt : Format} {k : Kind} {s : List UInt8} {p : k.Payload}

theorem decodeEnvelope_of_read (h : read fmt k s = .ok p) :
    decodeEnvelope fmt k s = .ok (version, k.name, p) := by
  obtain ⟨hheader, n, kind, henvelope⟩ := read_eq_ok.mp h
  obtain ⟨hroot, -⟩ := decodeWith_eq_ok.mp hheader
  obtain ⟨hroot', -⟩ := decodeWith_eq_ok.mp henvelope
  by_cases hno : (rootOf fmt s).IsNoMap
  · exact (Node.not_both_of_isNoMap hno hroot hroot').elim
  · obtain ⟨announced, es, stop, hmap⟩ : ∃ announced es stop, rootOf fmt s = .map announced es stop := by
      simpa [Node.IsNoMap] using hno
    rw [hmap] at hroot hroot'
    obtain ⟨rfl, rfl⟩ := Node.header_eq_of_map hroot hroot'
    exact henvelope

theorem read_of_decodeEnvelope (hs : OpensMap fmt s) (h : decodeEnvelope fmt k s = .ok (version, k.name, p)) :
    read fmt k s = .ok p := by
  obtain ⟨hroot, hrest⟩ := decodeWith_eq_ok.mp h
  rcases hs.root with hmap | ⟨d, hdefect⟩
  · refine read_eq_ok.mpr ⟨decodeWith_eq_ok.mpr ⟨?_, hrest⟩, version, k.name, h⟩
    exact Node.readHeader_of_readEnvelope hmap hroot
  · rw [hdefect] at hroot
    cases hroot

theorem not_read_of_opensList (hs : OpensList fmt s) : ∃ e, read fmt k s = .error e := by
  cases h : read fmt k s with
  | error e => exact ⟨e, rfl⟩
  | ok p =>
    obtain ⟨hheader, n, kind, henvelope⟩ := read_eq_ok.mp h
    exact (Node.not_both_of_isNoMap hs.root (decodeWith_eq_ok.mp hheader).1
      (decodeWith_eq_ok.mp henvelope).1).elim

end

/-- A snapshot that is read is a whole envelope of the right version and kind around what is read. Such an
envelope is read as what it is around if it is a map, and not at all if it is a list, although the records in
it may be lists, and the one that decodes an envelope takes a list for one too. -/
theorem read_refines_decodeEnvelope (fmt : Format) (k : Kind) :
    (∀ s (p : k.Payload), read fmt k s = .ok p → decodeEnvelope fmt k s = .ok (version, k.name, p)) ∧
      (∀ s (p : k.Payload), OpensMap fmt s → decodeEnvelope fmt k s = .ok (version, k.name, p) →
        read fmt k s = .ok p) ∧
      (∀ s, OpensList fmt s → ∃ e, read fmt k s = .error e) ∧
      ∀ (p : k.Payload) v, (fmt = .messagePack → p.Sized) → Value.LaysPayload p v →
        read fmt k (encode fmt (.map ((envelopeFields k v).map fun f => (.name f.1, f.2)))) = .ok p ∧
          decodeEnvelope fmt k (encode fmt (.list ((envelopeFields k v).map (·.2)))) =
            .ok (version, k.name, p) := by
  refine ⟨fun s p => decodeEnvelope_of_read, fun s p => read_of_decodeEnvelope,
    fun s => not_read_of_opensList, ?_⟩
  intro p v hp hv
  have hencodable : ∀ {root : Value}, Value.Record (envelopeFields k v) root → fmt = .messagePack →
      MessagePack.Encodable MessagePack.maxDepth root :=
    fun hroot hfmt => encodable_of_record hroot hv (hp hfmt) 1017
  constructor
  · exact read_of_lays hv (decodeWith_encode (hencodable .named))
  · exact (decodeWith_encode (hencodable .listed) _).trans (readEnvelope_record fmt .listed hv)

/-- A disassembly of one instruction that is written as a list, in an envelope that is a map and in one that is
a list. -/
theorem read_refines_decodeEnvelope_listing :
    let d : Disassembly := ⟨.ofList [(⟨0x1000⟩, ["nop"])]⟩
    let v : Value := .list [.map [(.name "00001000", .list [.text "nop"])]]
    let fields := envelopeFields .disassembly v
    let s := encode .messagePack (.map (fields.map fun f => (.name f.1, f.2)))
    let s' := encode .messagePack (.list (fields.map (·.2)))
    (d.Sized ∧ Value.LaysPayload (k := .disassembly) d v ∧
        OpensMap .messagePack s ∧ OpensList .messagePack s') ∧
      (read .messagePack .disassembly s = .ok d ∧
        decodeEnvelope .messagePack .disassembly s = .ok (version, "disassembly", d)) ∧
      decodeEnvelope .messagePack .disassembly s' = .ok (version, "disassembly", d) ∧
      ∃ e, read .messagePack .disassembly s' = .error e := by
  intro d v fields s s'
  have hsized : d.Sized := by decide
  have hlays : Value.LaysPayload (k := .disassembly) d v := .listed
  have hmap : OpensMap .messagePack s := ⟨0x83, _, rfl, by decide⟩
  have hlist : OpensList .messagePack s' := ⟨0x93, _, rfl, by decide⟩
  obtain ⟨hdecodes, hreads, hlists, hlayouts⟩ := read_refines_decodeEnvelope .messagePack .disassembly
  obtain ⟨hread, hdecode'⟩ := hlayouts d v (fun _ => hsized) hlays
  have hdecode := hdecodes s d hread
  exact ⟨⟨hsized, hlays, hmap, hlist⟩, ⟨hreads s d hmap hdecode, hdecode⟩, hdecode', hlists s' hlist⟩

end TileTrace.Snapshot
