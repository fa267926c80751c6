import TileTrace.Proofs.Json.Written
import TileTrace.Proofs.Snapshot.Passes

/-!
# Snapshots of a schema that grew

A JSON snapshot is read as what it was written for where its records have their members in another order and
further members among them, where a bound that was never met is left out, and where the entries of its maps are
in another order. The further members may have any values; both passes go over them.
-/

namespace TileTrace.Snapshot

namespace Node

/-! ## Records with further members -/

/-- A member of a record: what its value is, and whether it may be missing. -/
structure Field where
  name : String
  value : Node → Prop
  optional : Prop := False

inductive Kept : List Field → List (Node × Node) → Prop
  | nil : Kept [] []
  | member {f : Field} {k v : Node} (hkey : Names f.name k) (hvalue : f.value v) {fs : List Field}
    {es : List (Node × Node)} (h : Kept fs es) : Kept (f :: fs) ((k, v) :: es)
  | dropped {f : Field} (hoptional : f.optional) {fs : List Field} {es : List (Node × Node)} (h : Kept fs es) :
    Kept (f :: fs) es

inductive IsNew (fs : List Field) : Node × Node → Prop
  | member {s : String} {k v : Node} {t : List UInt8} (hkey : Names s k) (hname : ∀ f ∈ fs, f.name ≠ s)
    (hvalue : Json.Spells v t) : IsNew fs (k, v)

/-- A record with its members in any order and new ones among them. -/
inductive Grown (fs : List Field) : Node → Prop
  | map {announced : Option Nat} {kept new entries : List (Node × Node)} (hkept : Kept fs kept)
    (hnew : ∀ e ∈ new, IsNew fs e) (hentries : entries.Perm (kept ++ new)) :
    Grown fs (.map announced entries none)

section
variable {σ : Type} {members : List (Member σ)} {only : Finset String → σ} {fs : List Field}

def Reads (members : List (Member σ)) (only : Finset String → σ) (f : Field) : Prop :=
  ∃ m, members.find? (·.name = f.name) = some m ∧ (∀ done, f.name ∉ done → m.isSet (only done) = false) ∧
    ∀ v, f.value v → ∀ done, m.fill v (only done) = .ok (only (insert f.name done))

theorem Kept.settles {es : List (Node × Node)} (h : Kept fs es) (hreads : ∀ f ∈ fs, Reads members only f) :
    ∃ names : List String, List.Forall₂ (Settles members only) es (names.map some) ∧
      names.Sublist (fs.map (·.name)) ∧ ∀ f ∈ fs, f.name ∉ names → f.optional := by
  induction h with
  | nil => exact ⟨[], .nil, .slnil, by simp⟩
  | @member f k v hkey hvalue fs es _ ih =>
    obtain ⟨names, hsettles, hsub, hoptional⟩ := ih fun g hg => hreads g (List.mem_cons_of_mem f hg)
    obtain ⟨m, hfind, hset, hfill⟩ := hreads f List.mem_cons_self
    refine ⟨f.name :: names, .cons (.field ?_ hset (hfill v hvalue)) hsettles, hsub.cons_cons f.name, ?_⟩
    · rw [hkey.member?, hfind]
    · intro g hg hnot
      rcases List.mem_cons.mp hg with rfl | hg
      · exact absurd List.mem_cons_self hnot
      · exact hoptional g hg fun hmem => hnot (List.mem_cons_of_mem _ hmem)
  | @dropped f hdropped fs es _ ih =>
    obtain ⟨names, hsettles, hsub, hoptional⟩ := ih fun g hg => hreads g (List.mem_cons_of_mem f hg)
    exact ⟨names, hsettles, hsub.cons f.name, List.forall_mem_cons.mpr ⟨fun _ => hdropped, hoptional⟩⟩

theorem IsNew.settles {e : Node × Node} (h : IsNew fs e) (hknown : ∀ m ∈ members, ∃ f ∈ fs, f.name = m.name) :
    Settles members only e none := by
  obtain ⟨hkey, hname, hvalue⟩ := h
  apply Settles.other
  · rw [hkey.member?]
    congr 1
    rw [List.find?_eq_none]
    intro m hm
    obtain ⟨f, hf, hfm⟩ := hknown m hm
    simpa [← hfm] using hname f hf
  · exact hvalue.stop?

/-- A record of which only optional fields are missing is what the reader goes on with. -/
theorem Grown.read (only : Finset String → σ) {n : Node} (h : Grown fs n) (hnodup : (fs.map (·.name)).Nodup)
    (hreads : ∀ f ∈ fs, Reads members only f) (hknown : ∀ m ∈ members, ∃ f ∈ fs, f.name = m.name)
    {fmt : Format} {name : String} {α : Type} {next : σ → Except Fault α} {a : α}
    (hnext : ∀ done, (∀ f ∈ fs, f.name ∉ done → f.optional) → next (only done) = .ok a) :
    (do next (← readRecord fmt name members (only ∅) n)) = .ok a := by
  cases h with
  | @map announced kept new entries hkept hnew hentries =>
    obtain ⟨names, hsettles, hsub, hoptional⟩ := hkept.settles hreads
    have hothers : List.Forall₂ (Settles members only) new (new.map fun _ => none) := by
      rw [List.forall₂_map_right_iff, List.forall₂_same]
      exact fun e he => (hnew e he).settles hknown
    have hreduce : (names.map some ++ new.map fun _ => none).reduceOption = names := by
      simp [List.reduceOption, List.filterMap_append]
    have hall : List.Forall₂ (Settles members only) (kept ++ new) (names.map some ++ new.map fun _ => none) :=
      List.rel_append hsettles hothers
    have hfresh : (names.map some ++ new.map fun _ => none).reduceOption.Nodup := by
      rw [hreduce]
      exact hnodup.sublist hsub
    -- The order of the members does not matter, as no field is among them twice.
    have hfill := fillNamed_perm hentries hall hfresh
    rw [hreduce] at hfill
    rw [readRecord_map, hfill]
    exact hnext _ fun f hf hnot => hoptional f hf fun hmem => hnot (List.mem_toFinset.mpr hmem)

end

/-! ## The records of a snapshot -/

def given {α : Type} (names : Finset String) (name : String) (a : α) : Option α :=
  if name ∈ names then some a else none

section
variable {α : Type} {names : Finset String} {name : String}

@[simp] theorem isSome_given (a : α) : (given names name a).isSome = decide (name ∈ names) := by
  by_cases h : name ∈ names <;> simp [given, h]

@[simp] theorem given_insert_self (a : α) : given (insert name names) name a = some a := by
  simp [given]

@[simp] theorem given_insert {other : String} (hne : name ≠ other) (a : α) :
    given (insert other names) name a = given names name a := by
  simp [given, hne]

theorem require_given (h : ¬ name ∉ names) (a : α) : require name (given names name a) = .ok a := by
  simp [given, not_not.mp h, require]

theorem getD_given {b : Option α} (h : name ∉ names → b = none) : (given names name b).getD none = b := by
  by_cases hmem : name ∈ names
  · simp [given, hmem]
  · simp [given, hmem, h hmem]

theorem reads_field {σ : Type} {members : List (Member σ)} {only : Finset String → σ} {f : Field} {m : Member σ}
    {read : Node → Except Fault α} {put : α → σ → σ} {a : α} (hfind : members.find? (·.name = f.name) = some m)
    (hfill : m.fill = fun v s => do return put (← read v) s) (hread : ∀ v, f.value v → read v = .ok a)
    (hset : ∀ done, f.name ∉ done → m.isSet (only done) = false)
    (hput : ∀ done, put a (only done) = only (insert f.name done)) : Reads members only f := by
  refine ⟨m, hfind, hset, ?_⟩
  intro v hv done
  rw [hfill, ← hput]
  exact fill_ok (hread v hv)

end

def Reordered {κ β : Type} (entry : κ × β → Node × Node → Prop) (es : List (κ × β)) (n : Node) : Prop :=
  ∃ announced gs entries, n = .map announced entries none ∧ gs.Perm es ∧ List.Forall₂ entry gs entries

theorem Reordered.readEntries {κ β : Type} {entry : κ × β → Node × Node → Prop} {es : List (κ × β)} {n : Node}
    (readKey : Node → Except Fault κ) (read : Node → Except Fault β) (h : Reordered entry es n)
    (hentry : ∀ e x, entry e x → readKey x.1 = .ok e.1 ∧ read x.2 = .ok e.2) :
    ∃ gs, gs.Perm es ∧ readEntries readKey read n = .ok gs := by
  obtain ⟨announced, gs, entries, rfl, hperm, hentries⟩ := h
  refine ⟨gs, hperm, ?_⟩
  have hread : entries.mapM (readEntry readKey read) = .ok gs := by
    apply mapM_forall₂
    refine hentries.imp fun e x hx => ?_
    obtain ⟨hkey, hvalue⟩ := hentry e x hx
    rw [readEntry, hkey, hvalue]
    rfl
  rw [Node.readEntries, hread]
  rfl

namespace Field

def ofWindow (w : Window) : List Field := [
  { name := "start_cycle", value := (· = ofValue .json (.ofOption w.start)), optional := w.start = none },
  { name := "end_cycle", value := (· = ofValue .json (.ofOption w.stop)), optional := w.stop = none }]

def ofEvent (e : Event) : List Field := [
  { name := "pc", value := (· = ofValue .json (.text e.pc.text)) },
  { name := "operation", value := (· = ofValue .json (.text e.operation)) }]

def ofHistory (h : History) : List Field := [
  { name := "in_range", value := (· = ofValue .json (.flag h.inRange)) },
  { name := "events", value := Reordered (fun e x => x.1 = ofKey .json (.number e.1) ∧ Grown (ofEvent e.2) x.2)
      h.events.entries }]

def ofTrace (t : Trace) : List Field := [
  { name := "grid", value := (· = ofValue .json (.ofGrid t.grid)) },
  { name := "window", value := Grown (ofWindow t.window) },
  { name := "tiles", value := fun n => ∃ announced items, n = .list announced items none ∧
      List.Forall₂ (fun h item => Grown (ofHistory h) item) t.tiles items }]

def ofDisassembly (d : Disassembly) : List Field := [
  { name := "instructions", value := Reordered (fun e x => x.1 = ofKey .json (.name e.1.text) ∧
      x.2 = ofValue .json (.list (e.2.map .text))) d.instructions.entries }]

def ofPayload : {k : Kind} → k.Payload → List Field
  | .trace, t => ofTrace t
  | .disassembly, d => ofDisassembly d

def ofEnvelope {k : Kind} (p : k.Payload) : List Field := [
  { name := "version", value := (· = ofValue .json (.word version.toUInt64)) },
  { name := "kind", value := (· = ofValue .json (.text k.name)) },
  { name := "payload", value := Grown (ofPayload p) }]

end Field

section
variable {n : Node}

theorem readWindow_grown {w : Window} (h : Grown (Field.ofWindow w) n) : readWindow .json n = .ok w := by
  let only (names : Finset String) : WindowFields :=
    ⟨given names "start_cycle" w.start, given names "end_cycle" w.stop⟩
  refine h.read only (by simp [Field.ofWindow]) ?_ (by simp [Field.ofWindow]) ?_
  · simp only [Field.ofWindow, List.forall_mem_cons, List.not_mem_nil]
    refine ⟨reads_field rfl rfl (a := w.start) ?_ (by simp [only]) (by simp [only]),
      reads_field rfl rfl (a := w.stop) ?_ (by simp [only]) (by simp [only]), nofun⟩
    · rintro v rfl
      exact readOption_ofOption .json w.start
    · rintro v rfl
      exact readOption_ofOption .json w.stop
  · simp only [Field.ofWindow, List.forall_mem_cons, List.not_mem_nil]
    rintro done ⟨hstart, hstop, -⟩
    show Except.ok (Window.mk ((given done "start_cycle" w.start).getD none)
      ((given done "end_cycle" w.stop).getD none)) = _
    rw [getD_given hstart, getD_given hstop]

theorem readEvent_grown {e : Event} (h : Grown (Field.ofEvent e) n) : readEvent .json n = .ok e := by
  let only (names : Finset String) : EventFields := ⟨given names "pc" e.pc, given names "operation" e.operation⟩
  refine h.read only (by simp [Field.ofEvent]) ?_ (by simp [Field.ofEvent]) ?_
  · simp only [Field.ofEvent, List.forall_mem_cons, List.not_mem_nil]
    refine ⟨reads_field rfl rfl (a := e.pc) ?_ (by simp [only]) (by simp [only]),
      reads_field rfl rfl (a := e.operation) ?_ (by simp [only]) (by simp [only]), nofun⟩
    · rintro v rfl
      exact readPc_of_readText (readText_ofValue .json e.pc.text)
    · rintro v rfl
      exact readText_ofValue .json e.operation
  · simp only [Field.ofEvent, List.forall_mem_cons, List.not_mem_nil]
    rintro done ⟨hpc, hoperation, -⟩
    simp only [only, require_given hpc, require_given hoperation]
    rfl

theorem readHistory_grown {h : History} (hn : Grown (Field.ofHistory h) n) : readHistory .json n = .ok h := by
  let only (names : Finset String) : HistoryFields :=
    ⟨given names "in_range" h.inRange, given names "events" h.events⟩
  refine hn.read only (by simp [Field.ofHistory]) ?_ (by simp [Field.ofHistory]) ?_
  · simp only [Field.ofHistory, List.forall_mem_cons, List.not_mem_nil]
    refine ⟨reads_field rfl rfl (a := h.inRange) ?_ (by simp [only]) (by simp [only]),
      ⟨_, rfl, by simp [only], ?_⟩, nofun⟩
    · rintro v rfl
      exact readFlag_ofValue .json h.inRange
    · intro v hv done
      obtain ⟨gs, hperm, hread⟩ := hv.readEntries (readCycleKey .json) (readEvent .json) (by
        rintro e x ⟨hkey, hvalue⟩
        exact ⟨hkey ▸ readCycleKey_ofKey .json e.1, readEvent_grown hvalue⟩)
      refine (fill_ok hread).trans ?_
      simp [only, OrderedMap.ofList_of_perm hperm]
  · simp only [Field.ofHistory, List.forall_mem_cons, List.not_mem_nil]
    rintro done ⟨hinRange, hevents, -⟩
    simp only [only, require_given hinRange, require_given hevents]
    rfl

theorem readTrace_grown {t : Trace} (h : Grown (Field.ofTrace t) n) : readTrace .json n = .ok t := by
  let only (names : Finset String) : TraceFields :=
    ⟨given names "grid" t.grid, given names "window" t.window, given names "tiles" t.tiles⟩
  refine h.read only (by simp [Field.ofTrace]) ?_ (by simp [Field.ofTrace]) ?_
  · simp only [Field.ofTrace, List.forall_mem_cons, List.not_mem_nil]
    refine ⟨reads_field rfl rfl (a := t.grid) ?_ (by simp [only]) (by simp [only]),
      reads_field rfl rfl (a := t.window) ?_ (by simp [only]) (by simp [only]),
      reads_field rfl rfl (a := t.tiles) ?_ (by simp [only]) (by simp [only]), nofun⟩
    · rintro v rfl
      exact readGrid_ofGrid .json t.grid
    · intro v hv
      exact readWindow_grown hv
    · rintro v ⟨announced, items, rfl, hitems⟩
      have hread : items.mapM (readHistory .json) = .ok t.tiles :=
        mapM_forall₂ (hitems.imp fun _ _ => readHistory_grown)
      simp only [readList, listed, hread]
      rfl
  · simp only [Field.ofTrace, List.forall_mem_cons, List.not_mem_nil]
    rintro done ⟨hgrid, hwindow, htiles, -⟩
    simp only [only, require_given hgrid, require_given hwindow, require_given htiles]
    rfl

theorem readDisassembly_grown {d : Disassembly} (h : Grown (Field.ofDisassembly d) n) :
    readDisassembly .json n = .ok d := by
  let only (names : Finset String) : DisassemblyFields := ⟨given names "instructions" d.instructions⟩
  have hfragments : ∀ fragments : List String,
      readList readText (ofValue .json (.list (fragments.map .text))) = .ok fragments := by
    intro fragments
    apply readList_ofValue
    rw [List.forall₂_map_right_iff, List.forall₂_same]
    exact fun s _ => readText_ofValue .json s
  refine h.read only (by simp [Field.ofDisassembly]) ?_ (by simp [Field.ofDisassembly]) ?_
  · simp only [Field.ofDisassembly, List.forall_mem_cons, List.not_mem_nil]
    refine ⟨⟨_, rfl, by simp [only], ?_⟩, nofun⟩
    intro v hv done
    obtain ⟨gs, hperm, hread⟩ := hv.readEntries readPc (readList readText) (by
      rintro e x ⟨hkey, hvalue⟩
      exact ⟨hkey ▸ readPc_ofKey .json e.1, hvalue ▸ hfragments e.2⟩)
    refine (fill_ok hread).trans ?_
    simp [only, OrderedMap.ofList_of_perm hperm]
  · simp only [Field.ofDisassembly, List.forall_mem_cons, List.not_mem_nil]
    rintro done ⟨hinstructions, -⟩
    simp only [only, require_given hinstructions]
    rfl

theorem readPayload_grown {k : Kind} {p : k.Payload} (h : Grown (Field.ofPayload p) n) :
    readPayload .json k n = .ok p := by
  cases k with
  | trace => exact readTrace_grown h
  | disassembly => exact readDisassembly_grown h

theorem readEnvelope_grown {k : Kind} {p : k.Payload} (h : Grown (Field.ofEnvelope p) n) :
    readEnvelope .json k n = .ok (version, k.name, p) := by
  let only (names : Finset String) : EnvelopeFields k :=
    ⟨given names "version" version, given names "kind" k.name, given names "payload" p⟩
  refine h.read only (by simp [Field.ofEnvelope]) ?_ (by simp [Field.ofEnvelope]) ?_
  · simp only [Field.ofEnvelope, List.forall_mem_cons, List.not_mem_nil]
    refine ⟨reads_field rfl rfl (a := version) ?_ (by simp [only]) (by simp [only]),
      reads_field rfl rfl (a := k.name) ?_ (by simp [only]) (by simp [only]),
      reads_field rfl rfl (a := p) ?_ (by simp [only]) (by simp [only]), nofun⟩
    · rintro v rfl
      exact readVersion_version .json
    · rintro v rfl
      exact readText_ofValue .json k.name
    · intro v hv
      exact readPayload_grown hv
  · simp only [Field.ofEnvelope, List.forall_mem_cons, List.not_mem_nil]
    rintro done ⟨hversion, hkind, hpayload, -⟩
    simp only [only, require_given hversion, require_given hkind, require_given hpayload]
    rfl

end

/-! ## Documents that were written -/

def ofEntry (e : Key × Value) : Node × Node :=
  (ofKey .json e.1, ofValue .json e.2)

theorem names_ofKey (s : String) : Names s (ofKey .json (.name s)) :=
  .key _ _

theorem grown_ofValue {fs : List Field} {es : List (Key × Value)} (kept new : List (Key × Value))
    (hkept : Kept fs (kept.map ofEntry))
    (hnew : ∀ e ∈ new, ∃ s, e.1 = .name s ∧ ∀ f ∈ fs, f.name ≠ s) (hes : es.Perm (kept ++ new)) :
    Grown fs (ofValue .json (.map es)) := by
  have hentries : (es.map ofEntry).Perm (kept.map ofEntry ++ new.map ofEntry) := by
    rw [← List.map_append]
    exact hes.map ofEntry
  rw [ofValue, ofEntries_eq_map]
  refine .map hkept ?_ hentries
  rw [List.forall_mem_map]
  rintro ⟨k, v⟩ he
  obtain ⟨s, hk, hname⟩ := hnew _ he
  obtain rfl : k = .name s := hk
  exact .member (names_ofKey s) hname (Json.spells_encode v)

theorem grown_written {fs : List Field} {es : List (Key × Value)} (h : Kept fs (es.map ofEntry)) :
    Grown fs (ofValue .json (.map es)) :=
  grown_ofValue es [] h (by simp) (by simp)

theorem reordered_ofValue {κ β : Type} {entry : κ × β → Node × Node → Prop} {es gs : List (κ × β)}
    {f : κ × β → Key × Value} (hperm : gs.Perm es) (h : ∀ e ∈ gs, entry e (ofEntry (f e))) :
    Reordered entry es (ofValue .json (.map (gs.map f))) := by
  rw [ofValue, ofEntries_eq_map, List.map_map]
  refine ⟨_, gs, _, rfl, hperm, ?_⟩
  rw [List.forall₂_map_right_iff, List.forall₂_same]
  exact h

theorem grown_ofWindow (w : Window) : Grown (Field.ofWindow w) (ofValue .json (.ofWindow w)) :=
  grown_written (.member (names_ofKey _) rfl (.member (names_ofKey _) rfl .nil))

theorem grown_ofEvent (e : Event) : Grown (Field.ofEvent e) (ofValue .json (.ofEvent e)) :=
  grown_written (.member (names_ofKey _) rfl (.member (names_ofKey _) rfl .nil))

theorem grown_ofHistory (h : History) : Grown (Field.ofHistory h) (ofValue .json (.ofHistory h)) := by
  refine grown_written (.member (names_ofKey _) rfl (.member (names_ofKey _) ?_ .nil))
  exact reordered_ofValue (.refl _) fun e _ => ⟨rfl, grown_ofEvent e.2⟩

theorem grown_ofTrace (t : Trace) : Grown (Field.ofTrace t) (ofValue .json (.ofTrace t)) := by
  refine grown_written (.member (names_ofKey _) rfl (.member (names_ofKey _) (grown_ofWindow t.window)
    (.member (names_ofKey _) ?_ .nil)))
  rw [ofValue, ofItems_eq_map, List.map_map]
  refine ⟨_, _, rfl, ?_⟩
  rw [List.forall₂_map_right_iff, List.forall₂_same]
  exact fun h _ => grown_ofHistory h

theorem grown_ofDisassembly (d : Disassembly) :
    Grown (Field.ofDisassembly d) (ofValue .json (.ofDisassembly d)) := by
  refine grown_written (.member (names_ofKey _) ?_ .nil)
  exact reordered_ofValue (.refl _) fun e _ => ⟨rfl, rfl⟩

theorem grown_envelope {k : Kind} (p : k.Payload) :
    Grown (Field.ofEnvelope p) (ofValue .json (envelope p)) := by
  refine grown_written (.member (names_ofKey _) rfl
    (.member (names_ofKey _) rfl (.member (names_ofKey _) ?_ .nil)))
  cases k with
  | trace => exact grown_ofTrace p
  | disassembly => exact grown_ofDisassembly p

end Node

open Node in
/-- A snapshot that grew is still read as the payload that it was written for. The one that is written is one of
those. -/
theorem read_grown {k : Kind} (p : k.Payload) :
    (∃ root, Grown (Field.ofEnvelope p) root ∧ Json.Spells root (write .json p)) ∧
    ∀ root s, Grown (Field.ofEnvelope p) root → Json.Spells root s → read .json k s = .ok p := by
  constructor
  · exact ⟨_, grown_envelope p, Json.spells_encode (envelope p)⟩
  · intro root s hroot hs
    have hspells : Spells .json root s := hs
    have hmap : root.IsPassableMap := by
      obtain ⟨-, -, -⟩ := hroot
      exact ⟨_, _, _, rfl, fun _ => hs.passable⟩
    have henvelope := readEnvelope_grown hroot
    have hheader := readHeader_of_readEnvelope hmap henvelope
    simp only [read, decodeEnvelope, hspells.decodeWith, hheader, henvelope, ne_eq, not_true, if_false]

open Node in
/-- Every record has its members the other way round and a further one, the window has lost the bound that was
never met, and the later event comes first. -/
theorem read_grown_reversed :
    let a : Event := ⟨⟨0x1000⟩, "add"⟩
    let b : Event := ⟨⟨0x1004⟩, "jalr"⟩
    let t : Trace := { grid := .reduced, window := ⟨some 5, none⟩, tiles := [⟨true, .ofList [(5, a), (7, b)]⟩] }
    let event (e : Event) : Value :=
      .map [(.name "note", .list [.absent]), (.name "operation", .text e.operation),
        (.name "pc", .text e.pc.text)]
    let window : Value := .map [(.name "note", .map []), (.name "start_cycle", .word 5)]
    let history : Value := .map [(.name "note", .flag true),
      (.name "events", .map [(.number 7, event b), (.number 5, event a)]),
      (.name "in_range", .flag true)]
    let store : Value := .map [(.name "note", .word 1), (.name "tiles", .list [history]),
      (.name "window", window), (.name "grid", .text "Reduced")]
    let document : Value := .map [(.name "note", .text "payload"), (.name "payload", store),
      (.name "kind", .text "trace"), (.name "version", .word 1)]
    let text := 0x0a :: (Json.encode document ++ [0x20])
    Grown (Field.ofEnvelope (k := .trace) t) (ofValue .json document) ∧
      Json.Spells (ofValue .json document) text ∧ read .json .trace text = .ok t := by
  intro a b t event window history store document text
  have hnew : ∀ (v : Value) (fs : List Field), (∀ f ∈ fs, f.name ≠ "note") →
      ∀ e ∈ [(Key.name "note", v)], ∃ s, e.1 = .name s ∧ ∀ f ∈ fs, f.name ≠ s := by
    intro v fs hfs e he
    obtain rfl := List.mem_singleton.mp he
    exact ⟨"note", rfl, hfs⟩
  have hevent : ∀ e : Event, Grown (Field.ofEvent e) (ofValue .json (event e)) := by
    intro e
    refine grown_ofValue [(.name "pc", .text e.pc.text), (.name "operation", .text e.operation)] [_]
      (.member (names_ofKey _) rfl (.member (names_ofKey _) rfl .nil)) (hnew (.list [.absent]) _ ?_)
      (List.reverse_perm _).symm
    simp [Field.ofEvent]
  have hwindow : Grown (Field.ofWindow t.window) (ofValue .json window) := by
    refine grown_ofValue [(.name "start_cycle", .word 5)] [_]
      (.member (names_ofKey _) rfl (.dropped rfl .nil)) (hnew (.map []) _ ?_) (List.reverse_perm _).symm
    simp [Field.ofWindow]
  have hhistory : ∀ h ∈ t.tiles, Grown (Field.ofHistory h) (ofValue .json history) := by
    intro h hh
    obtain rfl := List.mem_singleton.mp hh
    let es : List (Cycle × Event) := [(5, a), (7, b)]
    have hperm : es.reverse.Perm (OrderedMap.ofList es).entries := by decide
    have hevents : Reordered (fun e x => x.1 = ofKey .json (.number e.1) ∧ Grown (Field.ofEvent e.2) x.2)
        (OrderedMap.ofList es).entries
          (ofValue .json (.map (es.reverse.map fun e => (.number e.1, event e.2)))) :=
      reordered_ofValue hperm fun e _ => ⟨rfl, hevent e.2⟩
    refine grown_ofValue [(.name "in_range", .flag true),
        (.name "events", .map [(.number 7, event b), (.number 5, event a)])] [_]
      (.member (names_ofKey _) rfl (.member (names_ofKey _) hevents .nil)) (hnew (.flag true) _ ?_)
      (List.reverse_perm _).symm
    simp [Field.ofHistory]
  have hstore : Grown (Field.ofTrace t) (ofValue .json store) := by
    refine grown_ofValue [(.name "grid", .text "Reduced"), (.name "window", window),
        (.name "tiles", .list [history])] [_]
      (.member (names_ofKey _) rfl (.member (names_ofKey _) hwindow (.member (names_ofKey _) ?_ .nil)))
      (hnew (.word 1) _ ?_) (List.reverse_perm _).symm
    · exact ⟨_, _, rfl, .cons (hhistory _ List.mem_cons_self) .nil⟩
    · simp [Field.ofTrace]
  have hdocument : Grown (Field.ofEnvelope (k := .trace) t) (ofValue .json document) := by
    refine grown_ofValue [(.name "version", .word 1), (.name "kind", .text "trace"),
      (.name "payload", store)] [_]
      (.member (names_ofKey _) rfl (.member (names_ofKey _) rfl (.member (names_ofKey _) hstore .nil)))
      (hnew (.text "payload") _ ?_) (List.reverse_perm _).symm
    simp [Field.ofEnvelope]
  have htext : Json.Spells (ofValue .json document) text :=
    .spaced (w := [0x0a]) (by simp [Json.IsBlank, Json.Token.isSpace]) (Json.spells_encode document)
      (by simp [Json.IsBlank, Json.Token.isSpace])
  exact ⟨hdocument, htext, (read_grown (k := .trace) t).2 _ _ hdocument htext⟩

end TileTrace.Snapshot
