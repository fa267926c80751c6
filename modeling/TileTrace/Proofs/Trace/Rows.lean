import TileTrace.Proofs.Csv.Written
import TileTrace.Proofs.Pc
import TileTrace.Trace.Builder

/-!
# Records that were written

Comma separated text with a row for each record, whose columns stand in any order among others that do not
count, is read as the records. A byte order mark in front of the text is not part of its first heading.
-/

namespace TileTrace.Trace.Rows

open Text

/-! ## Fields -/

def isAsciiBlankChar (c : Char) : Bool :=
  c == ' ' || c == '\t' || c == '\n' || c == '\x0c' || c == '\r'

theorem isBlank_of_isAsciiBlankChar {c : Char} (h : isAsciiBlankChar c = true) : isBlank c = true := by
  simp only [isAsciiBlankChar, Bool.or_eq_true, beq_iff_eq] at h
  rcases h with (((rfl | rfl) | rfl) | rfl) | rfl <;> rfl

theorem isAsciiBlank_of_mem (c : Char) {b : UInt8} (hb : b ∈ String.utf8EncodeChar c) :
    isAsciiBlank b = isAsciiBlankChar c := by
  apply Utf8.test_of_mem_utf8EncodeChar (by decide) _ _ hb
  · intro b h
    simp only [isAsciiBlank, Bool.or_eq_true, beq_iff_eq] at h
    rcases h with (((rfl | rfl) | rfl) | rfl) | rfl <;> decide
  · intro c h
    simp only [isAsciiBlankChar, Bool.or_eq_true, beq_iff_eq] at h
    rcases h with (((rfl | rfl) | rfl) | rfl) | rfl <;> decide

theorem trimBytes_encode (cs : List Char) :
    trimBytes (Utf8.encode cs) = Utf8.encode (strip isAsciiBlankChar cs) :=
  strip_flatMap (fun _ => String.utf8EncodeChar_ne_nil) (fun c _ hb => isAsciiBlank_of_mem c hb) cs

/-- The texts of the fields that were written, without white space around them. -/
theorem texts_encode (ts : List (List Char)) (i : Nat) :
    texts i (ts.map Utf8.encode) = .ok (ts.map fun t => String.ofList (trim t)) := by
  induction ts generalizing i with
  | nil => rfl
  | cons t ts ih =>
    have htrim : trim (strip isAsciiBlankChar t) = trim t :=
      strip_strip (fun _ => isBlank_of_isAsciiBlankChar) t
    rw [List.map_cons, texts]
    simp only [trimBytes_encode, Utf8.decode?_encode, ih, htrim]
    rfl

/-! ## Headings -/

section
variable {names : List (List Char)}

def heading? (name : List Char) : Option Column :=
  Column.ofName? (String.ofList (trim name))

def IsHeader (names : List (List Char)) : Prop :=
  (names.filterMap heading?).Perm Column.all

instance (names : List (List Char)) : Decidable (IsHeader names) :=
  inferInstanceAs (Decidable (List.Perm _ _))

theorem filterMap_headings (names : List (List Char)) :
    (names.map heading?).filterMap id = names.filterMap heading? := by
  rw [List.filterMap_map]
  rfl

theorem IsHeader.of_map_eq {names' : List (List Char)} (h : IsHeader names')
    (hmap : names.map heading? = names'.map heading?) : IsHeader names := by
  unfold IsHeader
  rw [← filterMap_headings, hmap, filterMap_headings]
  exact h

theorem IsHeader.two_le (h : IsHeader names) : 2 ≤ names.length := by
  have hlength := h.length_eq
  have hle := List.length_filterMap_le heading? names
  have hall : Column.all.length = 5 := rfl
  omega

end

theorem heading?_mark (name : List Char) : heading? ('\uFEFF' :: name) = none := by
  obtain ⟨front, back, hname, hfront, hback⟩ := exists_strip isBlank ('\uFEFF' :: name)
  have hmark : isBlank '\uFEFF' = false := by decide
  -- Trimming leaves the mark in front, as it is no white space.
  obtain ⟨rest, hrest⟩ : ∃ rest, trim ('\uFEFF' :: name) = '\uFEFF' :: rest := by
    rw [trim_eq_strip]
    cases front with
    | cons c front =>
      have hblank := hfront c List.mem_cons_self
      rw [← (List.cons.inj hname).1, hmark] at hblank
      cases hblank
    | nil =>
      cases hstrip : strip isBlank ('\uFEFF' :: name) with
      | cons c rest =>
        rw [hstrip] at hname
        exact ⟨rest, by rw [(List.cons.inj hname).1]⟩
      | nil =>
        rw [hstrip] at hname
        have hblank := hback '\uFEFF' (by rw [← show _ = back from hname]; exact List.mem_cons_self)
        rw [hmark] at hblank
        cases hblank
  unfold heading?
  rw [hrest]
  cases hcolumn : Column.ofName? (String.ofList ('\uFEFF' :: rest)) with
  | none => rfl
  | some c =>
    have hc := List.find?_some hcolumn
    have htext : c.name.toList = '\uFEFF' :: rest := by
      rw [of_decide_eq_true hc, String.toList_ofList]
    -- No column has a name that begins with the mark.
    have hhead : c.name.toList.head? ≠ some '\uFEFF' := by cases c <;> decide
    rw [htext] at hhead
    exact absurd rfl hhead

/-! ## Values -/

/-- The decimal numeral of a number, with zeros in front of it or not. -/
def IsDecimal (n : Nat) (s : List Char) : Prop :=
  ∃ k, s = List.replicate k '0' ++ Numeral.write 10 n

def Holds (r : Record) : Column → List Char → Prop
  | .x, s => IsDecimal r.tile.x s
  | .y, s => IsDecimal r.tile.y s
  | .cycle, s => IsDecimal r.cycle.toNat s
  | .pc, s => Pc.parse (String.ofList s) = .ok r.pc
  | .operation, s => s = r.operation.toList

theorem IsDecimal.digits {n : Nat} {s : List Char} (h : IsDecimal n s) : Numeral.Digits 10 s ∧ s ≠ [] := by
  obtain ⟨k, rfl⟩ := h
  have hwrite := Numeral.digits_write (by omega : 2 ≤ 10) n
  constructor
  · intro c hc
    rcases List.mem_append.mp hc with hc | hc
    · exact ⟨0, by omega, (List.mem_replicate.mp hc).2⟩
    · exact hwrite c hc
  · intro hnil
    have hempty := (List.append_eq_nil_iff.mp hnil).2
    rw [Numeral.write] at hempty
    split at hempty <;> simp at hempty

theorem isDecimal_digit {n : Nat} (h : n < 10) (k : Nat) :
    IsDecimal n (List.replicate k '0' ++ [Numeral.digitChar n]) :=
  ⟨k, by rw [Numeral.write_of_lt h]⟩

/-- A decimal numeral has no radix mark. -/
theorem number_decimal {n : Nat} {s : List Char} (h : IsDecimal n s) (hn : n < UInt64.size) :
    number (String.ofList (trim s)) = .ok n := by
  obtain ⟨hdigits, hne⟩ := h.digits
  have hmark : 'x' ∉ s := by
    intro hx
    obtain ⟨d, hd, hc⟩ := hdigits 'x' hx
    exact Numeral.digitChar_ne (by omega) (c := 'x') rfl hc.symm
  have hread : Numeral.read 10 UInt64.size s = .ok n := by
    obtain ⟨k, rfl⟩ := h
    rw [Numeral.read_digits hne (hdigits.any (by omega)), Numeral.readDigits_zeros (by omega) (by decide),
      Numeral.readDigits_write (by omega) (by omega) hn]
  rw [trim_of_noBlank (hdigits.any (by omega)).noBlank]
  unfold number
  rw [String.toList_ofList]
  split
  · simp at hmark
  · exact hread

theorem read_of_parse {s : List Char} {pc : Pc} (h : Pc.parse (String.ofList s) = .ok pc) :
    ∃ n, Numeral.read 16 UInt32.size (Pc.stripRadix (trim s)) = .ok n ∧ pc = ⟨UInt32.ofNat n⟩ := by
  unfold Pc.parse at h
  rw [String.toList_ofList] at h
  cases hread : Numeral.read 16 UInt32.size (Pc.stripRadix (trim s)) with
  | ok n =>
    rw [hread] at h
    exact ⟨n, rfl, (Except.ok.inj h).symm⟩
  | error f =>
    rw [hread] at h
    cases h

theorem parse_trim {s : List Char} {pc : Pc} (h : Pc.parse (String.ofList s) = .ok pc) :
    Pc.parse (String.ofList (trim s)) = .ok pc := by
  obtain ⟨n, hread, rfl⟩ := read_of_parse h
  unfold Pc.parse
  rw [String.toList_ofList, trim_trim, hread]

/-! ## Characters of program counters -/

theorem isSome_of_readDigits {radix bound acc n : Nat} {cs : List Char}
    (h : Numeral.readDigits radix bound acc cs = .ok n) : ∀ c ∈ cs, (Numeral.digit? radix c).isSome = true := by
  induction cs generalizing acc with
  | nil => exact nofun
  | cons c cs ih =>
    rw [Numeral.readDigits] at h
    cases hc : Numeral.digit? radix c with
    | none =>
      rw [hc] at h
      cases h
    | some d =>
      simp only [hc] at h
      split at h
      · simp only [List.forall_mem_cons, hc, Option.isSome_some, true_and]
        exact ih h
      · cases h

theorem isSome_of_read {radix bound n : Nat} {cs : List Char} (h : Numeral.read radix bound cs = .ok n) :
    ∀ c ∈ cs, c = '+' ∨ (Numeral.digit? radix c).isSome = true := by
  unfold Numeral.read at h
  split at h
  · exact nofun
  · cases h
  · intro c hc
    rcases List.mem_cons.mp hc with rfl | hc
    · exact .inl rfl
    · exact .inr (isSome_of_readDigits h c hc)
  · intro c hc
    exact .inr (isSome_of_readDigits h c hc)

theorem mem_stripRadix {cs : List Char} {c : Char} (h : c ∈ cs) :
    c = '0' ∨ c = 'x' ∨ c = 'X' ∨ c ∈ Pc.stripRadix cs := by
  unfold Pc.stripRadix
  split
  · simp only [List.mem_cons] at h
    tauto
  · simp only [List.mem_cons] at h
    tauto
  · exact .inr (.inr (.inr h))

/-- What is read as a program counter is white space, a radix mark, a sign and digits. -/
theorem mem_of_parse {s : List Char} {pc : Pc} (h : Pc.parse (String.ofList s) = .ok pc) {c : Char}
    (hc : c ∈ s) : isBlank c = true ∨ c ∈ ['+', '0', 'x', 'X'] ∨ (Numeral.digit? 16 c).isSome = true := by
  obtain ⟨n, hread, -⟩ := read_of_parse h
  obtain ⟨front, back, hs, hfront, hback⟩ := exists_strip isBlank s
  rw [hs] at hc
  rcases List.mem_append.mp hc with hc | hc
  · rcases List.mem_append.mp hc with hc | hc
    · exact .inl (hfront c hc)
    · rcases mem_stripRadix hc with rfl | rfl | rfl | hc
      · exact .inr (.inl (by simp))
      · exact .inr (.inl (by simp))
      · exact .inr (.inl (by simp))
      · rcases isSome_of_read hread c hc with rfl | hdigit
        · exact .inr (.inl (by simp))
        · exact .inr (.inr hdigit)
  · exact .inl (hback c hc)

theorem plain_of_parse {s : List Char} {pc : Pc} (h : Pc.parse (String.ofList s) = .ok pc) (hline : '\n' ∉ s)
    (hreturn : '\r' ∉ s) : ∀ c ∈ s, Csv.isSpecial c = false := by
  intro c hc
  simp only [Csv.isSpecial, Bool.or_eq_false_iff, beq_eq_false_iff_ne]
  refine ⟨⟨⟨?_, ?_⟩, ?_⟩, ?_⟩
  · rintro rfl
    exact absurd (mem_of_parse h hc) (by decide)
  · rintro rfl
    exact absurd (mem_of_parse h hc) (by decide)
  · rintro rfl
    exact hline hc
  · rintro rfl
    exact hreturn hc

/-! ## Rows -/

/-- A written field of a record. Whatever is read as its program counter can stand without quotes if it
does not break the line. -/
inductive Cell (r : Record) : Option Column → List Char → Prop
  | other {s w : List Char} (hw : Csv.Spells s w) : Cell r none w
  | named {c : Column} {s w : List Char} (h : Holds r c s) (hw : Csv.Spells s w) : Cell r (some c) w
  | barePc {s : List Char} (h : Holds r .pc s) (hline : '\n' ∉ s) (hreturn : '\r' ∉ s) (i j : Nat) :
    Cell r (some .pc) (Csv.spaced i j s)

/-- A record whose numbers are words and whose label is no other when it is trimmed. -/
structure Printable (r : Record) : Prop where
  x : r.tile.x < UInt64.size
  y : r.tile.y < UInt64.size
  operation : String.ofList (trim r.operation.toList) = r.operation

namespace Partial

def put (r : Record) (p : Partial) (c : Column) : Partial :=
  match c with
  | .x => { p with x := some r.tile.x }
  | .y => { p with y := some r.tile.y }
  | .cycle => { p with cycle := some r.cycle }
  | .pc => { p with pc := some r.pc }
  | .operation => { p with operation := some r.operation }

theorem has_put (r : Record) (p : Partial) (c c' : Column) :
    (p.put r c).has c' = (decide (c' = c) || p.has c') := by
  cases c <;> cases c' <;> rfl

theorem put_put (r : Record) (p : Partial) (c c' : Column) : (p.put r c).put r c' = (p.put r c').put r c := by
  cases c <;> cases c' <;> rfl

end Partial

def Sets (r : Record) (c : Column) (s : String) : Prop :=
  ∀ (p : Partial) (i : Nat), p.set c i s = .ok (p.put r c)

theorem Holds.sets {r : Record} {c : Column} {s : List Char} (hr : Printable r) (h : Holds r c s) :
    Sets r c (String.ofList (trim s)) := by
  intro p i
  cases c with
  | x =>
    simp only [Partial.set, number_decimal h hr.x, Except.mapError, bind, Except.bind, pure, Except.pure,
      Partial.put]
  | y =>
    simp only [Partial.set, number_decimal h hr.y, Except.mapError, bind, Except.bind, pure, Except.pure,
      Partial.put]
  | cycle =>
    simp only [Partial.set, number_decimal h r.cycle.toNat_lt_size, Except.mapError, bind, Except.bind, pure,
      Except.pure, Partial.put, UInt64.ofNat_toNat]
  | pc =>
    simp only [Partial.set, parse_trim h, Except.mapError, bind, Except.bind, pure, Except.pure, Partial.put]
  | operation =>
    obtain rfl : s = r.operation.toList := h
    simp only [Partial.set, hr.operation, pure, Except.pure, Partial.put]

theorem Cell.field {r : Record} {column : Option Column} {w : List Char} (hr : Printable r)
    (h : Cell r column w) : ∃ t, Csv.Reader.Field (Utf8.encode t) (Utf8.encode w) ∧
      ∀ c, column = some c → Sets r c (String.ofList (trim t)) := by
  have hnamed : ∀ {c : Column} {s : List Char}, Holds r c s → Csv.Spells s w →
      ∃ t, Csv.Reader.Field (Utf8.encode t) (Utf8.encode w) ∧
        ∀ c', some c = some c' → Sets r c' (String.ofList (trim t)) := by
    intro c s hs hw
    obtain ⟨t, hfield, htrim⟩ := hw.field
    refine ⟨t, hfield, ?_⟩
    intro c' hc
    rw [htrim, ← Option.some.inj hc]
    exact hs.sets hr
  cases h with
  | other hw =>
    obtain ⟨t, hfield, -⟩ := hw.field
    exact ⟨t, hfield, nofun⟩
  | named hs hw => exact hnamed hs hw
  | barePc hs hline hreturn i j => exact hnamed hs (.bare (plain_of_parse hs hline hreturn) i j)

/-- Fields under columns that do not repeat are all put into their columns. -/
theorem fill_eq_ok {r : Record} {columns : List (Option Column)} {ss : List String}
    (h : List.Forall₂ (fun column s => ∀ c, column = some c → Sets r c s) columns ss) {p : Partial}
    (hnodup : (columns.filterMap id).Nodup) (hp : ∀ c ∈ columns.filterMap id, p.has c = false) (i : Nat) :
    fill i (columns.zip ss) p = .ok ((columns.filterMap id).foldl (Partial.put r) p) := by
  induction h generalizing p i with
  | nil => rfl
  | @cons column s columns ss hs h ih =>
    cases column with
    | none => exact ih hnodup hp (i + 1)
    | some c =>
      simp only [List.filterMap_cons, id_eq, List.nodup_cons] at hnodup
      have hfree : p.has c = false := hp c (by simp)
      have hnext : ∀ c' ∈ columns.filterMap id, (p.put r c).has c' = false := by
        intro c' hc'
        have hne : c' ≠ c := fun heq => hnodup.1 (heq ▸ hc')
        rw [Partial.has_put, hp c' (List.mem_cons_of_mem c hc'), decide_eq_false hne]
        rfl
      rw [List.zip_cons_cons, fill, hs c rfl p i]
      simp only [hfree, Bool.false_eq_true, if_false, List.filterMap_cons, id_eq, List.foldl_cons]
      exact ih hnodup.2 hnext (i + 1)

theorem record_eq_ok {r : Record} {names : List (List Char)} {ss : List String} (hnames : IsHeader names)
    (h : List.Forall₂ (fun column s => ∀ c, column = some c → Sets r c s) (names.map heading?) ss) :
    record (some (names.map heading?)) ss = .ok r := by
  have hcolumns := filterMap_headings names
  have hnodup : (names.filterMap heading?).Nodup := hnames.nodup_iff.mpr (by decide)
  have hfill := fill_eq_ok (p := {}) h (hcolumns ▸ hnodup) (fun c _ => by cases c <;> rfl) 0
  rw [hcolumns, hnames.foldl_eq' (fun c _ c' _ p => Partial.put_put r p c c')] at hfill
  unfold record
  simp only [hfill, bind, Except.bind]
  rfl

def Fits (r : Record) (columns : List (Option Column)) (ts : List (List Char)) : Prop :=
  List.Forall₂ (fun column t => ∀ c, column = some c → Sets r c (String.ofList (trim t))) columns ts

theorem ofRow_eq_ok {r : Record} {names : List (List Char)} {ts : List (List Char)} {row : Csv.Row}
    (hnames : IsHeader names) (hrow : row.fields = ts.map Utf8.encode)
    (h : Fits r (names.map heading?) ts) : ofRow names.length (some (names.map heading?)) row = .ok r := by
  have hlength : row.fields.length = names.length := by
    rw [hrow, List.length_map, ← h.length_eq, List.length_map]
  have htexts : texts 0 row.fields = .ok (ts.map fun t => String.ofList (trim t)) := by
    rw [hrow, texts_encode]
  have hrecord : record (some (names.map heading?)) (ts.map fun t => String.ofList (trim t)) = .ok r :=
    record_eq_ok hnames (List.forall₂_map_right_iff.mpr h)
  unfold ofRow
  simp only [hlength, htexts, hrecord, ne_eq, not_true, if_false, bind, Except.bind, Except.mapError]

end TileTrace.Trace.Rows
