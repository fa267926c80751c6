import Mathlib.Data.List.Forall2
import TileTrace.Proofs.OrderedMap
import TileTrace.Proofs.Pc
import TileTrace.Proofs.Snapshot.Tree
import TileTrace.Snapshot.Payload

/-!
# Payloads that were written

The readers of traces and disassemblies give back what was written, in either format: whatever tree was
met of a trace is read as that trace. They do so too where records are written as the lists of their fields.
-/

namespace TileTrace

/-! ## Layouts -/

namespace Snapshot.Value

/-- A record is a map from the names of its fields, or the list of what they hold. -/
inductive Record (fs : List (String × Value)) : Value → Prop
  | named : Record fs (.map (fs.map fun f => (.name f.1, f.2)))
  | listed : Record fs (.list (fs.map (·.2)))

def LaysWindow (w : Window) : Value → Prop :=
  Record [("start_cycle", ofOption w.start), ("end_cycle", ofOption w.stop)]

def LaysEvent (e : Event) : Value → Prop :=
  Record [("pc", .text e.pc.text), ("operation", .text e.operation)]

def LaysHistory (h : History) (v : Value) : Prop :=
  ∃ es : List (Key × Value),
    List.Forall₂ (fun e e' => e'.1 = .number e.1 ∧ LaysEvent e.2 e'.2) h.events.entries es ∧
      Record [("in_range", .flag h.inRange), ("events", .map es)] v

def LaysTrace (t : Trace) (v : Value) : Prop :=
  ∃ w hs, LaysWindow t.window w ∧ List.Forall₂ LaysHistory t.tiles hs ∧
    Record [("grid", ofGrid t.grid), ("window", w), ("tiles", .list hs)] v

def LaysDisassembly (d : Disassembly) : Value → Prop :=
  Record [("instructions",
    .map (d.instructions.entries.map fun (pc, fragments) => (.name pc.text, .list (fragments.map .text))))]

def LaysPayload : {k : Kind} → k.Payload → Value → Prop
  | .trace, t => LaysTrace t
  | .disassembly, d => LaysDisassembly d

theorem laysHistory_ofHistory (h : History) : LaysHistory h (ofHistory h) := by
  refine ⟨_, ?_, .named⟩
  rw [List.forall₂_map_right_iff, List.forall₂_same]
  exact fun e _ => ⟨rfl, .named⟩

/-- The layout that is written has names everywhere. -/
theorem laysPayload_ofPayload {k : Kind} (p : k.Payload) : LaysPayload p (ofPayload p) := by
  cases k with
  | disassembly => exact .named
  | trace =>
    refine ⟨_, _, .named, ?_, .named⟩
    rw [List.forall₂_map_right_iff, List.forall₂_same]
    exact fun h _ => laysHistory_ofHistory h

end Snapshot.Value

namespace Snapshot.Node

/-! ## Keys and leaves -/

section
variable (fmt : Format)

theorem readText_ofKey (s : String) : readText (ofKey fmt (.name s)) = .ok s := by
  cases fmt with
  | messagePack => rw [ofKey, readText]
  | json => rw [ofKey, readText, readText, Json.keyText]

theorem readPc_of_readText {n : Node} {pc : Pc} (h : n.readText = .ok pc.text) : readPc n = .ok pc := by
  simp only [readPc, h, bind, Except.bind, Pc.parse_text, pure, Except.pure]

theorem readWord_word {n bound : Nat} (h : n < bound) (name : String) :
    readWord fmt bound name (word n) = .ok n := by
  rw [readWord, readWord.within, if_pos ⟨Int.natCast_nonneg n, Int.ofNat_lt.mpr h⟩, Int.toNat_natCast]

theorem readCycle_word (n : UInt64) : readCycle fmt (word n.toNat) = .ok n := by
  rw [readCycle, readWord_word fmt n.toNat_lt_size]
  exact congrArg Except.ok UInt64.ofNat_toNat

theorem readPc_ofKey (pc : Pc) : readPc (ofKey fmt (.name pc.text)) = .ok pc :=
  readPc_of_readText (readText_ofKey fmt pc.text)

theorem readCycleKey_ofKey (n : UInt64) : readCycleKey fmt (ofKey fmt (.number n)) = .ok n := by
  cases fmt with
  | messagePack =>
    rw [ofKey, readCycleKey, readCycle_word]
    intro t number rest h
    cases h
  | json =>
    simp only [ofKey, Json.Token.quotedNumber_keyText]
    rw [readCycleKey, readCycle_word]
    rfl

theorem readOption_ofOption (c : Option UInt64) :
    readOption (readCycle fmt) (ofValue fmt (Value.ofOption c)) = .ok c := by
  cases c with
  | none => rfl
  | some n =>
    rw [Value.ofOption, ofValue, readOption, readCycle_word]
    · rfl
    · intro h
      cases h
    · intro b h
      cases h

theorem readGrid_ofGrid (g : Grid) :
    readChoice fmt "GridSize" Value.gridNames (ofValue fmt (Value.ofGrid g)) = .ok g := by
  cases g <;> cases fmt <;> rfl

theorem stop?_ofValue (v : Value) : (ofValue fmt v).stop? = none := by
  cases v <;> rw [ofValue] <;> rfl

end

/-! ## Lists and maps -/

theorem mapM_forall₂ {α β ε : Type} {read : β → Except ε α} {as : List α} {bs : List β}
    (h : List.Forall₂ (fun a b => read b = .ok a) as bs) : bs.mapM read = .ok as := by
  induction h with
  | nil => rfl
  | cons ha _ ih =>
    rw [List.mapM_cons, ha, ih]
    rfl

section
variable {fmt : Format} {α κ : Type}

theorem readList_ofValue {read : Node → Except Fault α} {as : List α} {vs : List Value}
    (h : List.Forall₂ (fun a v => read (ofValue fmt v) = .ok a) as vs) :
    readList read (ofValue fmt (.list vs)) = .ok as := by
  have hitems : (vs.map (ofValue fmt)).mapM read = .ok as :=
    mapM_forall₂ (List.forall₂_map_right_iff.mpr h)
  rw [ofValue, readList, listed]
  · simp only [ofItems_eq_map, hitems]
    rfl
  · intro bs h
    cases h

theorem readEntries_ofValue {readKey : Node → Except Fault κ} {read : Node → Except Fault α}
    {es : List (κ × α)} {vs : List (Key × Value)}
    (h : List.Forall₂ (fun e v => readKey (ofKey fmt v.1) = .ok e.1 ∧ read (ofValue fmt v.2) = .ok e.2) es vs) :
    readEntries readKey read (ofValue fmt (.map vs)) = .ok es := by
  have hentries : (vs.map fun v => (ofKey fmt v.1, ofValue fmt v.2)).mapM (readEntry readKey read) =
      .ok es := by
    apply mapM_forall₂
    rw [List.forall₂_map_right_iff]
    refine h.imp fun e v hev => ?_
    rw [readEntry, hev.1, hev.2]
    rfl
  rw [ofValue, readEntries, ofEntries_eq_map, hentries]
  rfl

end

/-! ## Records -/

section
variable {fmt : Format} {σ : Type} {members : List (Member σ)}

theorem member?_ofKey (fmt : Format) (members : List (Member σ)) (s : String) :
    (ofKey fmt (.name s)).member? members = .ok (members.find? (·.name = s)) := by
  cases fmt <;> rw [ofKey, member?]
  rw [member?, Json.keyText]

theorem readRecord_map (fmt : Format) (name : String) (members : List (Member σ)) (blank : σ)
    (announced : Option Nat) (entries : List (Node × Node)) (stop : Option Fault) :
    readRecord fmt name members blank (map announced entries stop) =
      (do finish stop (← fillNamed members entries blank)) :=
  rfl

theorem readRecord_ofValue (fmt : Format) (name : String) (members : List (Member σ)) (blank : σ)
    (es : List (Key × Value)) :
    readRecord fmt name members blank (ofValue fmt (.map es)) =
      fillNamed members (ofEntries fmt es) blank := by
  rw [ofValue, readRecord_map]
  cases fillNamed members (ofEntries fmt es) blank <;> rfl

theorem fillNamed_field {k v : Node} {m : Member σ} {a b : σ} (hkey : k.member? members = .ok (some m))
    (hset : m.isSet a = false) (hfill : m.fill v a = .ok b) (es : List (Node × Node)) :
    fillNamed members ((k, v) :: es) a = fillNamed members es b := by
  rw [fillNamed, hkey]
  show (if m.isSet a = true then .error (.mismatch (.duplicateField m.name))
    else m.fill v a >>= fillNamed members es) = _
  rw [hset, if_neg Bool.false_ne_true, hfill]
  rfl

theorem fillNamed_other {k v : Node} (hkey : k.member? members = .ok none) (hpass : v.stop? = none)
    (es : List (Node × Node)) (a : σ) : fillNamed members ((k, v) :: es) a = fillNamed members es a := by
  rw [fillNamed, hkey]
  show (v.pass >>= fun _ => fillNamed members es a) = _
  rw [pass, hpass]
  rfl

theorem fillNamed_ofEntries {s : String} {v : Value} {es : List (Key × Value)} {m : Member σ} {a b : σ}
    (hfind : members.find? (·.name = s) = some m) (hset : m.isSet a = false)
    (hfill : m.fill (ofValue fmt v) a = .ok b) :
    fillNamed members (ofEntries fmt ((.name s, v) :: es)) a = fillNamed members (ofEntries fmt es) b := by
  have hkey : (ofKey fmt (.name s)).member? members = .ok (some m) := by rw [member?_ofKey, hfind]
  rw [ofEntries, fillNamed_field hkey hset hfill]

theorem fillNamed_pass {s : String} {v : Value} {es : List (Key × Value)} {a : σ}
    (hfind : members.find? (·.name = s) = none) :
    fillNamed members (ofEntries fmt ((.name s, v) :: es)) a = fillNamed members (ofEntries fmt es) a := by
  have hkey : (ofKey fmt (.name s)).member? members = .ok none := by rw [member?_ofKey, hfind]
  rw [ofEntries, fillNamed_other hkey (stop?_ofValue fmt v)]

inductive Fills (fmt : Format) : List (Member σ) → List (String × Value) → σ → σ → Prop
  | nil {a : σ} : Fills fmt [] [] a a
  | cons {m : Member σ} {ms : List (Member σ)} {v : Value} {fs : List (String × Value)} {a b c : σ}
      (hset : m.isSet a = false) (hfill : m.fill (ofValue fmt v) a = .ok b) (h : Fills fmt ms fs b c) :
      Fills fmt (m :: ms) ((m.name, v) :: fs) a c

section
variable {fs : List (String × Value)} {ms : List (Member σ)} {a b : σ}

theorem Fills.fillNamed (h : Fills fmt ms fs a b)
    (hfind : ∀ m ∈ ms, members.find? (·.name = m.name) = some m) :
    fillNamed members (ofEntries fmt (fs.map fun f => (.name f.1, f.2))) a = .ok b := by
  induction h with
  | nil => rfl
  | @cons m ms v fs a b c hset hfill _ ih =>
    rw [List.map_cons, fillNamed_ofEntries (hfind m List.mem_cons_self) hset hfill]
    exact ih fun m' hm => hfind m' (List.mem_cons_of_mem m hm)

theorem Fills.fillListed (h : Fills fmt ms fs a b) (expected : String) (stop : Option Fault) :
    ∀ count, fillListed expected stop count ms (ofItems fmt (fs.map (·.2))) a = .ok ([], b) := by
  induction h with
  | nil => exact fun count => rfl
  | cons hset hfill _ ih =>
    intro count
    rw [List.map_cons, ofItems, Node.fillListed, hfill]
    exact ih (count + 1)

theorem Fills.length (h : Fills fmt ms fs a b) : fs.length = ms.length := by
  induction h with
  | nil => rfl
  | cons _ _ _ ih => rw [List.length_cons, List.length_cons, ih]

/-- A record is filled from its fields in either of its layouts. -/
theorem readRecord_record {v : Value} (hv : Value.Record fs v) (h : Fills fmt members fs a b)
    (hfind : ∀ m ∈ members, members.find? (·.name = m.name) = some m) (name : String) :
    readRecord fmt name members a (ofValue fmt v) = .ok b := by
  cases hv with
  | named => rw [readRecord_ofValue, h.fillNamed hfind]
  | listed =>
    have hlength : (fs.map (·.2)).length = members.length := by rw [List.length_map, h.length]
    rw [ofValue, readRecord, listed]
    · simp only [h.fillListed, hlength]
      cases fmt with
      | json => rfl
      | messagePack =>
        show (if some members.length = some members.length then _ else _) = _
        rw [if_pos rfl]
        rfl
    · intro bs h
      cases h

end

end

/-! ## Traces and disassemblies -/

theorem fill_ok {α β : Type} {x : Except Fault α} {a : α} {f : α → β} (h : x = .ok a) :
    (do return f (← x)) = .ok (f a) := by
  rw [h]
  rfl

section
variable (fmt : Format) {v : Value}

theorem readText_ofValue (s : String) : readText (ofValue fmt (.text s)) = .ok s := by
  rw [ofValue, readText]

theorem readFlag_ofValue (b : Bool) : readFlag fmt (ofValue fmt (.flag b)) = .ok b := by
  rw [ofValue, readFlag]

theorem readWindow_of_lays {w : Window} (h : Value.LaysWindow w v) :
    readWindow fmt (ofValue fmt v) = .ok w := by
  rw [readWindow, readRecord_record h (b := ⟨some w.start, some w.stop⟩)]
  · rfl
  · exact .cons rfl (fill_ok (readOption_ofOption fmt w.start))
      (.cons rfl (fill_ok (readOption_ofOption fmt w.stop)) .nil)
  · simp

theorem readEvent_of_lays {e : Event} (h : Value.LaysEvent e v) : readEvent fmt (ofValue fmt v) = .ok e := by
  rw [readEvent, readRecord_record h (b := ⟨some e.pc, some e.operation⟩)]
  · rfl
  · exact .cons rfl (fill_ok (readPc_of_readText (readText_ofValue fmt e.pc.text)))
      (.cons rfl (fill_ok (readText_ofValue fmt e.operation)) .nil)
  · simp

theorem readHistory_of_lays {h : History} (hv : Value.LaysHistory h v) :
    readHistory fmt (ofValue fmt v) = .ok h := by
  obtain ⟨es, hes, hv⟩ := hv
  have hevents : readEntries (readCycleKey fmt) (readEvent fmt) (ofValue fmt (.map es)) =
      .ok h.events.entries := by
    apply readEntries_ofValue
    refine hes.imp fun e e' he => ⟨?_, readEvent_of_lays fmt he.2⟩
    rw [he.1, readCycleKey_ofKey]
  rw [readHistory, readRecord_record hv (b := ⟨some h.inRange, some h.events⟩)]
  · rfl
  · refine .cons rfl (fill_ok (readFlag_ofValue fmt h.inRange)) (.cons rfl ?_ .nil)
    refine (fill_ok hevents).trans ?_
    rw [OrderedMap.ofList_entries]
  · simp

theorem readTrace_of_lays {t : Trace} (h : Value.LaysTrace t v) : readTrace fmt (ofValue fmt v) = .ok t := by
  obtain ⟨w, hs, hw, hhs, hv⟩ := h
  have htiles : readList (readHistory fmt) (ofValue fmt (.list hs)) = .ok t.tiles :=
    readList_ofValue (hhs.imp fun _ _ hh => readHistory_of_lays fmt hh)
  rw [readTrace, readRecord_record hv (b := ⟨some t.grid, some t.window, some t.tiles⟩)]
  · rfl
  · exact .cons rfl (fill_ok (readGrid_ofGrid fmt t.grid)) (.cons rfl (fill_ok (readWindow_of_lays fmt hw))
      (.cons rfl (fill_ok htiles) .nil))
  · simp

theorem readDisassembly_of_lays {d : Disassembly} (h : Value.LaysDisassembly d v) :
    readDisassembly fmt (ofValue fmt v) = .ok d := by
  have hfragments : ∀ fragments : List String,
      readList readText (ofValue fmt (.list (fragments.map .text))) = .ok fragments := by
    intro fragments
    apply readList_ofValue
    rw [List.forall₂_map_right_iff, List.forall₂_same]
    exact fun s _ => readText_ofValue fmt s
  have hinstructions : readEntries readPc (readList readText) (ofValue fmt (.map (d.instructions.entries.map
      fun (pc, fragments) => (.name pc.text, .list (fragments.map .text))))) = .ok d.instructions.entries := by
    apply readEntries_ofValue
    rw [List.forall₂_map_right_iff, List.forall₂_same]
    exact fun e _ => ⟨readPc_ofKey fmt e.1, hfragments e.2⟩
  rw [readDisassembly, readRecord_record h (b := ⟨some d.instructions⟩)]
  · rfl
  · refine .cons rfl ?_ .nil
    refine (fill_ok hinstructions).trans ?_
    rw [OrderedMap.ofList_entries]
  · simp

theorem readPayload_of_lays {k : Kind} {p : k.Payload} (h : Value.LaysPayload p v) :
    readPayload fmt k (ofValue fmt v) = .ok p := by
  cases k with
  | trace => exact readTrace_of_lays fmt h
  | disassembly => exact readDisassembly_of_lays fmt h

end

end Snapshot.Node

end TileTrace
