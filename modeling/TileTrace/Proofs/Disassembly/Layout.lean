import Mathlib.Data.List.TakeWhile
import TileTrace.Proofs.Disassembly
import TileTrace.Proofs.Disassembly.Lines
import TileTrace.Proofs.Pc
import TileTrace.Proofs.Text.Words

/-!
# Layouts of a listing

A dictionary can be laid out as a listing in many ways: its entries in any order, addresses in either case and
with leading zeros, any gaps between the pieces of an instruction, other lines in between, and either end
behind a line. All of them are read as the dictionary. Nothing else than a dictionary of this kind is read
from a listing.
-/

namespace TileTrace.Disassembly

open Text (isBlank words)
open Utf8 (encode)

/-! ## Addresses -/

section
variable {column digits : List Char} {pc : Pc}

def Marks (digits column : List Char) : Prop :=
  digits ≠ [] ∧ Numeral.AnyDigits 16 digits ∧ ∃ front back, column = front ++ (digits ++ ':' :: back) ∧
    (∀ c ∈ front, isBlank c = true) ∧ ∀ c ∈ back, isBlank c = true

def IsAddress (column : List Char) : Prop := ∃ digits, Marks digits column

theorem Marks.colon_mem (h : Marks digits column) : ':' ∈ column := by
  obtain ⟨-, -, front, back, rfl, -⟩ := h
  simp

theorem Marks.address? (h : Marks digits column) :
    address? column = (Pc.parse (String.ofList digits)).toOption := by
  obtain ⟨hne, hdigits, front, back, rfl, hfront, hback⟩ := h
  obtain ⟨c, cs, rfl⟩ := List.exists_cons_of_ne_nil hne
  have htrim : Text.trimLeft (front ++ (c :: cs ++ ':' :: back)) = c :: cs ++ ':' :: back := by
    rw [Text.trimLeft, List.dropWhile_append_of_pos hfront]
    simp [hdigits.noBlank c List.mem_cons_self]
  have hspan : (c :: cs ++ ':' :: back).span (fun c => (Numeral.digit? 16 c).isSome) =
      (c :: cs, ':' :: back) := by
    rw [List.span_eq_takeWhile_dropWhile, List.takeWhile_append_of_pos hdigits,
      List.dropWhile_append_of_pos hdigits]
    simp [Numeral.digit?]
  simp only [Disassembly.address?, htrim, hspan]
  rw [if_pos (List.all_eq_true.mpr hback)]

theorem isAddress_of_address? (h : address? column = some pc) : IsAddress column := by
  rw [address?, List.span_eq_takeWhile_dropWhile] at h
  dsimp only at h
  split at h
  · rename_i c cs back hdigits hrest
    split at h
    · rename_i hback
      refine ⟨c :: cs, List.cons_ne_nil _ _, ?_, column.takeWhile isBlank, back, ?_, ?_,
        List.all_eq_true.mp hback⟩
      · rw [← hdigits]
        intro x hx
        have hdigit := List.mem_takeWhile_imp hx
        exact hdigit
      · rw [← hrest, ← hdigits, List.takeWhile_append_dropWhile]
        exact List.takeWhile_append_dropWhile.symm
      · intro x hx
        exact List.mem_takeWhile_imp hx
    · cases h
  · cases h

/-- A program counter in hexadecimal, in any case and with any number of leading zeros. -/
def Spells (pc : Pc) (digits : List Char) : Prop :=
  ∃ zeros, digits.map Char.toLower = List.replicate zeros '0' ++ Numeral.write 16 pc.word.toNat

theorem spells_write (pc : Pc) : Spells pc (Numeral.write 16 pc.word.toNat) := by
  have hlower : ∀ d < 16, (Numeral.digitChar d).toLower = Numeral.digitChar d := by decide
  refine ⟨0, ?_⟩
  conv => rhs; rw [List.replicate_zero, List.nil_append, ← List.map_id (Numeral.write 16 pc.word.toNat)]
  apply List.map_congr_left
  intro c hc
  obtain ⟨d, hd, rfl⟩ := Numeral.digits_write (by omega) _ c hc
  exact hlower d hd

theorem Spells.anyDigits (h : Spells pc digits) : Numeral.AnyDigits 16 digits := by
  obtain ⟨zeros, h⟩ := h
  have hwritten : Numeral.AnyDigits 16 (Numeral.write 16 pc.word.toNat) :=
    (Numeral.digits_write (by omega) _).any (Nat.le_refl _)
  rw [← Numeral.anyDigits_toLower, h]
  intro c hc
  rcases List.mem_append.mp hc with hc | hc
  · rw [List.eq_of_mem_replicate hc]
    rfl
  · exact hwritten c hc

theorem Spells.ne_nil (h : Spells pc digits) : digits ≠ [] := by
  obtain ⟨zeros, h⟩ := h
  intro hnil
  have hne : Numeral.write 16 pc.word.toNat ≠ [] := by
    rw [Numeral.write]
    split <;> simp
  rw [hnil] at h
  exact hne (List.append_eq_nil_iff.mp h.symm).2

theorem Spells.parse (h : Spells pc digits) : Pc.parse (String.ofList digits) = .ok pc := by
  apply Pc.parse_digits h.anyDigits h.ne_nil
  obtain ⟨zeros, h⟩ := h
  rw [← Numeral.readDigits_toLower, h, Numeral.readDigits_zeros (by omega) (by decide)]
  exact Numeral.readDigits_write (by omega) (by omega) pc.word.toNat_lt_size

end

/-! ## Lines -/

section
variable {first encoding l : List Char} {pc : Pc} {fragments : List String}

theorem instruction?_columns (hfirst : '\t' ∉ first) (hencoding : '\t' ∉ encoding) (rest : List Char) :
    instruction? (first ++ '\t' :: (encoding ++ '\t' :: rest)) = (address? first).bind fun pc =>
      if (words rest).isEmpty then none else some (pc, (words rest).map String.ofList) := by
  have hfragments : (Text.splitAt '\t' rest).flatMap (fun c => (words c).map String.ofList) =
      (words rest).map String.ofList := by
    rw [← List.map_flatMap, Text.flatMap_words_splitAt (by decide)]
  simp only [instruction?, Text.splitAt_cons_of_not_mem hfirst, Text.splitAt_cons_of_not_mem hencoding,
    hfragments, List.isEmpty_map]
  rfl

theorem instruction?_of_not_isAddress (h : ¬ IsAddress (l.takeWhile (· ≠ '\t'))) : instruction? l = none := by
  have hhead := Text.head?_splitAt '\t' l
  unfold instruction?
  split
  · rename_i first encoding columns hcolumns
    rw [hcolumns] at hhead
    obtain rfl := Option.some.inj hhead
    cases haddress : address? (l.takeWhile (· ≠ '\t')) with
    | none => rfl
    | some pc => exact absurd (isAddress_of_address? haddress) h
  · rfl

/-- A carriage return in front of the line feed belongs to the gap behind the last piece. -/
theorem instruction?_return (l : List Char) : instruction? (l ++ ['\r']) = instruction? l := by
  obtain ⟨columns, last, hl, hreturn⟩ := Text.splitAt_snoc (show '\r' ≠ '\t' by decide) l
  unfold instruction?
  rw [hl, hreturn]
  match columns with
  | [] => rfl
  | [first] => rfl
  | first :: encoding :: columns =>
    have hwords : words (last ++ ['\r']) = words last := Text.words_snoc (by decide) last
    simp only [List.cons_append, List.flatMap_append, List.flatMap_singleton, hwords]

theorem entriesOf_returns {ls ms : List (List Char)}
    (h : List.Forall₂ (fun l m => l = m ∨ l = m ++ ['\r']) ls ms) :
    entriesOf ms = entriesOf ls := by
  induction h with
  | nil => rfl
  | cons hl _ ih =>
    simp only [entriesOf, List.filterMap_cons] at ih ⊢
    rcases hl with rfl | rfl
    · rw [ih]
    · rw [ih, instruction?_return]

def IsInstruction (fragments : List String) : Prop :=
  fragments ≠ [] ∧ ∀ s ∈ fragments, IsFragment s

/-- The pieces of an instruction with spaces or tabs between them. -/
inductive Spaced : List String → List Char → Prop
  | last (s : String) : Spaced [s] s.toList
  | cons (s : String) (gap : List Char) (hne : gap ≠ []) (hgap : ∀ c ∈ gap, c = ' ' ∨ c = '\t')
    {ss : List String} {cs : List Char} (h : Spaced ss cs) : Spaced (s :: ss) (s.toList ++ (gap ++ cs))

/-- A line with an entry: its address, anything for an encoding, and its instruction. -/
inductive Lays : Pc × List String → List Char → Prop
  | line {pc : Pc} {fragments : List String} (front digits encoding : List Char) {written : List Char}
    (hfront : ∀ c ∈ front, isBlank c = true ∧ c ≠ '\t' ∧ c ≠ '\n') (hdigits : Spells pc digits)
    (hencoding : '\t' ∉ encoding ∧ '\n' ∉ encoding) (hwritten : Spaced fragments written) :
    Lays (pc, fragments) (front ++ (digits ++ [':']) ++ '\t' :: (encoding ++ '\t' :: written))

theorem Spaced.words_eq {ss : List String} {cs : List Char} (h : Spaced ss cs) (hss : ∀ s ∈ ss, IsFragment s) :
    words cs = ss.map String.toList := by
  have hne : ∀ s ∈ ss, s.toList ≠ [] := fun s hs hnil => (hss s hs).1 (String.toList_eq_nil_iff.mp hnil)
  induction h with
  | last s => exact Text.words_single (hne s List.mem_cons_self) (hss s List.mem_cons_self).2
  | @cons s gap hgapne hgap ss cs _ ih =>
    have hblank : ∀ c ∈ gap, isBlank c = true := by
      intro c hc
      rcases hgap c hc with rfl | rfl <;> rfl
    rw [Text.words_cons (hne s List.mem_cons_self) (hss s List.mem_cons_self).2 hblank hgapne, List.map_cons,
      ih (fun t ht => hss t (List.mem_cons_of_mem s ht)) fun t ht => hne t (List.mem_cons_of_mem s ht)]

theorem Spaced.lineFeed_not_mem {ss : List String} {cs : List Char} (h : Spaced ss cs)
    (hss : ∀ s ∈ ss, IsFragment s) : '\n' ∉ cs := by
  have hpiece : ∀ s ∈ ss, '\n' ∉ s.toList := fun s hs hmem => Bool.false_ne_true ((hss s hs).2 _ hmem).symm
  induction h with
  | last s => exact hpiece s List.mem_cons_self
  | @cons s gap _ hgap ss cs _ ih =>
    have hgap' : '\n' ∉ gap := fun hmem => by simpa using hgap _ hmem
    have hrest := ih (fun t ht => hss t (List.mem_cons_of_mem s ht)) fun t ht =>
      hpiece t (List.mem_cons_of_mem s ht)
    simp [hpiece s List.mem_cons_self, hgap', hrest]

theorem Lays.instruction? {e : Pc × List String} (h : Lays e l) (he : IsInstruction e.2) :
    instruction? l = some e := by
  obtain ⟨front, digits, encoding, hfront, hdigits, hencoding, hwritten⟩ := h
  rename_i pc fragments written
  have hmarks : Marks digits (front ++ (digits ++ [':'])) :=
    ⟨hdigits.ne_nil, hdigits.anyDigits, front, [], rfl, fun c hc => (hfront c hc).1, nofun⟩
  have hfirst : '\t' ∉ front ++ (digits ++ [':']) := by
    have hfront' : '\t' ∉ front := fun hmem => (hfront _ hmem).2.1 rfl
    simp [hfront', hdigits.anyDigits.not_mem (c := '\t') rfl]
  have hwords : words written = fragments.map String.toList := hwritten.words_eq he.2
  have hfragments : (fragments.map String.toList).map String.ofList = fragments := by
    simp [Function.comp_def]
  rw [instruction?_columns hfirst hencoding.1, hmarks.address?, hdigits.parse, hwords, hfragments]
  simpa [Except.toOption] using he.1

theorem Lays.lineFeed_not_mem {e : Pc × List String} (h : Lays e l) (he : IsInstruction e.2) : '\n' ∉ l := by
  obtain ⟨front, digits, encoding, hfront, hdigits, hencoding, hwritten⟩ := h
  have hfront' : '\n' ∉ front := fun hmem => (hfront _ hmem).2.2 rfl
  simp [hfront', hdigits.anyDigits.not_mem (c := '\n') rfl, hencoding.2, hwritten.lineFeed_not_mem he.2]

end

/-! ## Listings -/

/-- Lines for the entries in this order, with other lines among them. -/
inductive Listed : List (Pc × List String) → List (List Char) → Prop
  | nil : Listed [] []
  | entry {e : Pc × List String} {l : List Char} (he : Lays e l) {es : List (Pc × List String)}
    {ls : List (List Char)} (h : Listed es ls) : Listed (e :: es) (l :: ls)
  | other {l : List Char} (hl : '\n' ∉ l) (hother : ¬ IsAddress (l.takeWhile (· ≠ '\t')))
    {es : List (Pc × List String)} {ls : List (List Char)} (h : Listed es ls) : Listed es (l :: ls)

section
variable {es : List (Pc × List String)} {ls : List (List Char)}

theorem Listed.entriesOf (h : Listed es ls) (hes : ∀ e ∈ es, IsInstruction e.2) :
    entriesOf ls = es := by
  induction h with
  | nil => rfl
  | @entry e l he es ls _ ih =>
    have hrest := ih fun x hx => hes x (List.mem_cons_of_mem e hx)
    have hline := he.instruction? (hes e List.mem_cons_self)
    rw [Disassembly.entriesOf, List.filterMap_cons, hline, ← Disassembly.entriesOf, hrest]
  | @other l _ hother es ls _ ih =>
    rw [Disassembly.entriesOf, List.filterMap_cons, instruction?_of_not_isAddress hother]
    exact ih hes

theorem Listed.lineFeed_not_mem (h : Listed es ls) (hes : ∀ e ∈ es, IsInstruction e.2) :
    ∀ l ∈ ls, '\n' ∉ l := by
  induction h with
  | nil => simp
  | @entry e l he es ls _ ih =>
    exact List.forall_mem_cons.mpr ⟨he.lineFeed_not_mem (hes e List.mem_cons_self),
      ih fun x hx => hes x (List.mem_cons_of_mem e hx)⟩
  | other hl _ _ ih => exact List.forall_mem_cons.mpr ⟨hl, ih hes⟩

theorem exists_lays (pc : Pc) {fragments : List String} (hne : fragments ≠ []) :
    ∃ l, Lays (pc, fragments) l := by
  have hwritten : ∃ written, Spaced fragments written := by
    induction fragments with
    | nil => exact absurd rfl hne
    | cons s ss ih =>
      by_cases hss : ss = []
      · rw [hss]
        exact ⟨s.toList, .last s⟩
      · obtain ⟨cs, h⟩ := ih hss
        exact ⟨_, .cons s [' '] (by simp) (by simp) h⟩
  obtain ⟨written, hwritten⟩ := hwritten
  exact ⟨_, .line [] _ [] nofun (spells_write pc) ⟨nofun, nofun⟩ hwritten⟩

theorem exists_listed (hes : ∀ e ∈ es, e.2 ≠ []) : ∃ ls cs, Listed es ls ∧ Text.Joins ls cs := by
  induction es with
  | nil => exact ⟨[], [], .nil, .nil⟩
  | cons e es ih =>
    obtain ⟨l, hl⟩ := exists_lays e.1 (hes e List.mem_cons_self)
    obtain ⟨ls, cs, hls, hcs⟩ := ih fun x hx => hes x (List.mem_cons_of_mem e hx)
    exact ⟨l :: ls, _, .entry hl hls, .lineFeed l hcs⟩

end

/-- What is read from a text is well formed, and every well-formed dictionary is read from each of its
layouts, of which there is always one. -/
theorem ofListing_exactly_wellFormed :
    (∀ cs, ∃ (d : Disassembly) (k : Nat), ofListing (encode cs) = ⟨[.parsed d.size k], .ok d⟩ ∧ d.WellFormed) ∧
    ∀ d : Disassembly, d.WellFormed →
      (∃ ls cs, Listed d.instructions.entries ls ∧ Text.Joins ls cs) ∧
      ∀ es ls cs, es.Perm d.instructions.entries → Listed es ls → Text.Joins ls cs →
        ∃ k, ofListing (encode cs) = ⟨[.parsed d.size k], .ok d⟩ ∧ d.size + k = ls.length := by
  constructor
  · intro cs
    obtain ⟨ls, hls⟩ := Text.exists_lines_encode cs
    have hwell := wellFormed_ofLines ls
    rw [ofLines_eq] at hwell
    exact ⟨_, _, ofListing_of_lines hls, hwell⟩
  · intro d hd
    have hentries : ∀ e ∈ d.instructions.entries, IsInstruction e.2 :=
      fun e he => hd e.1 e.2 (OrderedMap.mem_entries.mp he)
    refine ⟨exists_listed fun e he => (hentries e he).1, ?_⟩
    intro es ls cs hperm hlisted hjoins
    have hes : ∀ e ∈ es, IsInstruction e.2 := fun e he => hentries e (hperm.mem_iff.mp he)
    obtain ⟨ms, hms, hreturns⟩ := hjoins.exists_lines (hlisted.lineFeed_not_mem hes)
    -- Carriage returns and other lines make no difference to the entries.
    have hread : entriesOf ms = es := (entriesOf_returns hreturns).trans (hlisted.entriesOf hes)
    have hreport := ofListing_of_lines hms
    have hcount := length_entriesOf ms
    rw [hread, OrderedMap.ofList_of_perm hperm] at hreport
    rw [hread, hperm.length_eq, ← hreturns.length_eq] at hcount
    exact ⟨skippedIn ms, hreport, hcount⟩

/-- The greater address comes first, both are spelled in another way than they are written, and the last line
has no end. -/
theorem ofListing_exactly_wellFormed_respelled :
    let d : Disassembly := ⟨.ofList [(⟨0x1f⟩, ["li", "a0,1"]), (⟨0xa⟩, ["ret"])]⟩
    let text := "\n\u00a01F:\t0513 \tli\t a0,1\r\n\t...\n000A:\t\tret".toList
    d.WellFormed ∧ ofListing (encode text) = ⟨[.parsed 2 2], .ok d⟩ := by
  intro d text
  let li := ['\u00a0'] ++ (['1', 'F'] ++ [':']) ++ '\t' :: (['0', '5', '1', '3', ' '] ++
    '\t' :: ("li".toList ++ (['\t', ' '] ++ "a0,1".toList)))
  let ret := [] ++ (['0', '0', '0', 'A'] ++ [':']) ++ '\t' :: ([] ++ '\t' :: "ret".toList)
  have hentries : d.instructions.entries.all (fun e => !e.2.isEmpty && e.2.all fun s =>
      decide (s ≠ "") && s.toList.all fun c => !isBlank c) = true := by decide
  have hd : d.WellFormed := by
    intro pc fragments h
    simpa [IsFragment] using List.all_eq_true.mp hentries (pc, fragments) (OrderedMap.mem_entries.mpr h)
  have hcolumn : ∀ column, ':' ∉ column → ¬ IsAddress column := by
    intro column hcolon h
    obtain ⟨digits, h⟩ := h
    exact hcolon h.colon_mem
  have hwritten : Numeral.write 16 0x1f = ['1', 'f'] ∧ Numeral.write 16 0xa = ['a'] := by
    simp [Numeral.write, Numeral.digitChar]
  have hli : Lays (⟨0x1f⟩, ["li", "a0,1"]) li :=
    .line _ _ _ (by simp [isBlank]) ⟨0, hwritten.1 ▸ by decide⟩ (by decide)
      (.cons "li" _ (List.cons_ne_nil _ _) (by simp) (.last "a0,1"))
  have hret : Lays (⟨0xa⟩, ["ret"]) ret :=
    .line _ _ _ (by simp) ⟨3, hwritten.2 ▸ by decide⟩ (by decide) (.last "ret")
  have hlisted : Listed d.instructions.entries.reverse [[], li, ['\t', '.', '.', '.'], ret] :=
    .other (by decide) (hcolumn _ (by decide)) <| .entry hli <|
      .other (by decide) (hcolumn _ (by decide)) <| .entry hret .nil
  have hjoins : Text.Joins [[], li, ['\t', '.', '.', '.'], ret] text := by
    have htext : text = [] ++ '\n' :: (li ++ '\r' :: '\n' :: (['\t', '.', '.', '.'] ++ '\n' :: ret)) := by
      decide +kernel
    rw [htext]
    exact .lineFeed _ (.returned _ (.lineFeed _ (.last (List.cons_ne_nil _ _))))
  obtain ⟨k, hread, hcount⟩ :=
    (ofListing_exactly_wellFormed.2 d hd).2 _ _ text (List.reverse_perm _) hlisted hjoins
  obtain rfl : k = 2 := Nat.add_left_cancel hcount
  exact ⟨hd, hread⟩

end TileTrace.Disassembly
