import TileTrace.Proofs.Trace.Rows

/-!
# Layouts of a trace

However the records of a trace are laid out as comma separated text, the trace that is built of the text is
the one that is built of the records. The exception is a byte order mark in front of a heading that is one
of the columns without it: then this column is there twice.
-/

namespace TileTrace.Trace.Rows

open Text

/-- Text with a line of headings, and a line for each record. -/
def Lays (names : List (List Char)) (rs : List Record) (text : List Char) : Prop :=
  ∃ header rows, List.Forall₂ Csv.Spells names header ∧
    List.Forall₂ (fun r row => List.Forall₂ (Cell r) (names.map heading?) row) rs rows ∧
      Csv.Joins ((header :: rows).map fun ws => [','].intercalate ws) text

/-! ## Lines -/

theorem exists_forall₂ {α β γ : Type} {p : α → β → Prop} {q : α → γ → Prop} {r : γ → β → Prop}
    {as : List α} {bs : List β} (h : ∀ a ∈ as, ∀ b, p a b → ∃ c, q a c ∧ r c b) (hp : List.Forall₂ p as bs) :
    ∃ cs, List.Forall₂ q as cs ∧ List.Forall₂ r cs bs := by
  induction hp with
  | nil => exact ⟨[], .nil, .nil⟩
  | @cons a b as bs hab hp ih =>
    obtain ⟨c, hq, hr⟩ := h a List.mem_cons_self b hab
    obtain ⟨cs, hqs, hrs⟩ := ih fun a ha => h a (List.mem_cons_of_mem _ ha)
    exact ⟨c :: cs, .cons hq hqs, .cons hr hrs⟩

theorem line_of_header {names header : List (List Char)} (hnames : IsHeader names)
    (h : List.Forall₂ Csv.Spells names header) :
    ∃ ts, Csv.IsLine ts ([','].intercalate header) ∧ ts.map trim = names.map trim := by
  obtain ⟨ts, htrim, hfields⟩ := exists_forall₂ (q := fun n t => trim n = trim t)
    (fun n _ w hw => by
      obtain ⟨t, hfield, htrim⟩ := Csv.Spells.field hw
      exact ⟨t, htrim.symm, hfield⟩) h
  refine ⟨ts, ⟨htrim.length_eq ▸ hnames.two_le, header, hfields, rfl⟩, ?_⟩
  rw [← List.forall₂_eq_eq_eq, List.forall₂_map_left_iff, List.forall₂_map_right_iff]
  exact htrim.flip.imp fun _ _ h => h.symm

theorem line_of_row {r : Record} (hr : Printable r) {names row : List (List Char)} (hnames : IsHeader names)
    (h : List.Forall₂ (Cell r) (names.map heading?) row) :
    ∃ ts, Fits r (names.map heading?) ts ∧ Csv.IsLine ts ([','].intercalate row) := by
  obtain ⟨ts, hsets, hfields⟩ := exists_forall₂
    (q := fun column t => ∀ c, column = some c → Sets r c (String.ofList (trim t)))
    (fun _ _ w hw => by
      obtain ⟨t, hfield, hsets⟩ := hw.field hr
      exact ⟨t, hsets, hfield⟩) h
  have hlength := hsets.length_eq
  rw [List.length_map] at hlength
  exact ⟨ts, hsets, hlength ▸ hnames.two_le, row, hfields, rfl⟩

theorem columns_of_header {names ts : List (List Char)} {header : Csv.Row}
    (hheader : header.fields = ts.map Utf8.encode) (htrim : ts.map trim = names.map trim) :
    columns header = some (names.map heading?) := by
  have hnames : names.map heading? = (names.map trim).map fun n => Column.ofName? (String.ofList n) := by
    rw [List.map_map]
    rfl
  unfold columns
  rw [hheader, texts_encode, hnames, ← htrim]
  simp [Function.comp_def]

theorem ofRow_rows {names : List (List Char)} (hnames : IsHeader names) {rs : List Record}
    {tss : List (List (List Char))} {rows : List Csv.Row}
    (h : List.Forall₂ (fun r ts => Fits r (names.map heading?) ts) rs tss)
    (hrows : rows.map (·.fields) = tss.map (·.map Utf8.encode)) :
    rows.map (ofRow names.length (some (names.map heading?))) = rs.map .ok := by
  induction h generalizing rows with
  | nil =>
    obtain rfl : rows = [] := by simpa using hrows
    rfl
  | @cons r ts rs tss hts h ih =>
    cases rows with
    | nil => cases hrows
    | cons row rows =>
      obtain ⟨hrow, hrest⟩ := List.cons.inj hrows
      rw [List.map_cons, List.map_cons, ih hrest, ofRow_eq_ok hnames hrow hts]

theorem rows_of_lays {names : List (List Char)} (hnames : IsHeader names) {rs : List Record}
    (hrs : ∀ r ∈ rs, Printable r) {text : List Char} (h : Lays names rs text) {reader : Csv.Reader}
    (hreader : reader.BeginsRow) : ∃ header rows, reader.rows (Utf8.encode text) = header :: rows ∧
      header.fields.length = names.length ∧ columns header = some (names.map heading?) ∧
        rows.map (ofRow names.length (some (names.map heading?))) = rs.map .ok := by
  obtain ⟨header, lines, hheader, hlines, htext⟩ := h
  obtain ⟨ts, hline, htrim⟩ := line_of_header hnames hheader
  obtain ⟨tss, hfits, hrest⟩ :=
    exists_forall₂ (fun r hr row hrow => line_of_row (hrs r hr) hnames hrow) hlines
  have hrows := Csv.rows_of_joins htext (.cons hline (List.forall₂_map_right_iff.mpr hrest)) hreader
  obtain ⟨header', rows, hcons, hfields, htail⟩ := List.map_eq_cons_iff.mp hrows
  refine ⟨header', rows, hcons, ?_, columns_of_header hfields htrim, ofRow_rows hnames hfits htail⟩
  rw [hfields, List.length_map]
  simpa using congrArg List.length htrim

/-! ## Byte order marks -/

theorem rows_mark (text : List Char) :
    Csv.rows (Utf8.encode ('\uFEFF' :: text)) = Csv.Reader.rows { byte := 3 } (Utf8.encode text) :=
  rfl

theorem rows_of_no_mark {text : List Char} (h : text.head? ≠ some '\uFEFF') :
    Csv.rows (Utf8.encode text) = Csv.Reader.rows {} (Utf8.encode text) := by
  unfold Csv.rows
  split
  · rename_i s heq
    cases text with
    | nil => cases heq
    | cons c text =>
      have hnext := Utf8.next?_utf8EncodeChar c (Utf8.encode text)
      have hmark := Utf8.next?_utf8EncodeChar '\uFEFF' s
      have hbytes : String.utf8EncodeChar c ++ Utf8.encode text = String.utf8EncodeChar '\uFEFF' ++ s := heq
      rw [hbytes, hmark] at hnext
      rw [← (Prod.mk.inj (Option.some.inj hnext)).1] at h
      exact absurd rfl h
  · rfl

theorem spells_mark {n w : List Char} (h : Csv.Spells n ('\uFEFF' :: w)) :
    ∃ n', n = '\uFEFF' :: n' ∧ Csv.Spells n' w := by
  generalize hw : '\uFEFF' :: w = written at h
  cases h with
  | quoted => cases (List.cons.inj hw).1
  | bare hplain i j =>
    cases i with
    | succ i =>
      rw [Csv.spaced, List.replicate_succ] at hw
      cases (List.cons.inj hw).1
    | zero =>
      -- No spaces are in front, so that the mark is the first character of the text.
      cases n with
      | nil =>
        cases j with
        | zero => cases hw
        | succ j =>
          rw [Csv.spaced, List.replicate_succ] at hw
          cases (List.cons.inj hw).1
      | cons c n =>
        obtain ⟨rfl, rfl⟩ := List.cons.inj hw
        exact ⟨n, rfl, .bare (fun c hc => hplain c (List.mem_cons_of_mem _ hc)) 0 j⟩

theorem joins_tail {c : Char} {l : List Char} {ls : List (List Char)} {text : List Char}
    (h : Csv.Joins ((c :: l) :: ls) text) : ∃ text', text = c :: text' ∧ Csv.Joins (l :: ls) text' := by
  cases h with
  | unclosed => exact ⟨l, rfl, .unclosed l⟩
  | closed _ he => exact ⟨_, rfl, .closed l he⟩
  | cons _ he h => exact ⟨_, rfl, .cons l he h⟩

/-- A mark in front of the text is read off its first heading. -/
theorem Lays.drop_mark {names : List (List Char)} (hnames : IsHeader names) {rs : List Record}
    {text : List Char} (h : Lays names rs ('\uFEFF' :: text)) : ∃ name rest,
      names = ('\uFEFF' :: name) :: rest ∧ (heading? name = none →
        (name :: rest).map heading? = names.map heading? ∧ Lays (name :: rest) rs text) := by
  obtain ⟨header, rows, hheader, hrows, htext⟩ := h
  have htwo := hnames.two_le
  cases hheader with
  | nil => cases htwo
  | @cons n w names ws hw hws =>
    cases hws with
    | nil => simp at htwo
    | @cons n' w' names ws hw' hws =>
      rw [List.map_cons, List.intercalate_cons_cons] at htext
      -- The mark is in the first heading: behind an empty one there would be a comma.
      cases w with
      | nil =>
        obtain ⟨text', hcomma, -⟩ := joins_tail htext
        cases (List.cons.inj hcomma).1
      | cons c w =>
        obtain ⟨text', hmark, hjoins⟩ := joins_tail htext
        obtain ⟨rfl, rfl⟩ := List.cons.inj hmark
        obtain ⟨name, rfl, hname⟩ := spells_mark hw
        refine ⟨name, n' :: names, rfl, ?_⟩
        intro hnone
        have hcolumns : (name :: n' :: names).map heading? =
            (('\uFEFF' :: name) :: n' :: names).map heading? := by
          simp only [List.map_cons, hnone, heading?_mark]
        refine ⟨hcolumns, w :: w' :: ws, rows, .cons hname (.cons hw' hws), hcolumns ▸ hrows, ?_⟩
        rwa [List.map_cons, List.intercalate_cons_cons]

/-! ## Whole texts -/

theorem ofBytes_of_rows {names : List (List Char)} (hnames : IsHeader names) {rs : List Record}
    (hrs : ∀ r ∈ rs, Printable r) {text : List Char} (h : Lays names rs text) {reader : Csv.Reader}
    (hreader : reader.BeginsRow) {bytes : List UInt8}
    (hbytes : Csv.rows bytes = reader.rows (Utf8.encode text)) :
    ofBytes bytes = rs.map .ok := by
  obtain ⟨header, rows, hrows, hlength, hnamed, hrecords⟩ := rows_of_lays hnames hrs h hreader
  unfold ofBytes
  rw [hbytes, hrows]
  simp only [hlength, hnamed, hrecords]

theorem ofBytes_of_lays {names : List (List Char)} (hnames : IsHeader names) {rs : List Record}
    (hrs : ∀ r ∈ rs, Printable r) {text : List Char} (h : Lays names rs text)
    (hmark : text.head? = some '\uFEFF' →
      ∀ name, names.head? = some ('\uFEFF' :: name) → heading? name = none) :
    ofBytes (Utf8.encode text) = rs.map .ok := by
  have hstart : ∀ byte, ({ byte := byte } : Csv.Reader).BeginsRow := fun _ => .inl ⟨rfl, rfl, rfl⟩
  by_cases hhead : text.head? = some '\uFEFF'
  · obtain ⟨text, rfl⟩ : ∃ text', text = '\uFEFF' :: text' := by
      cases text with
      | nil => cases hhead
      | cons c text => exact ⟨text, by rw [Option.some.inj hhead]⟩
    obtain ⟨name, rest, rfl, hdropped⟩ := h.drop_mark hnames
    obtain ⟨hcolumns, hlays⟩ := hdropped (hmark hhead name rfl)
    exact ofBytes_of_rows (hnames.of_map_eq hcolumns) hrs hlays (hstart 3) (rows_mark text)
  · exact ofBytes_of_rows hnames hrs h (hstart 0) (rows_of_no_mark hhead)

end TileTrace.Trace.Rows

namespace TileTrace.Trace

open Rows

/-- The trace of a text is the trace of its records, however they are laid out in it, unless the heading
behind a byte order mark in front of the text is one of the columns. -/
theorem ofCsv_of_lays (s : Selection) {names : List (List Char)} (hnames : IsHeader names) {rs : List Record}
    (hrs : ∀ r ∈ rs, Printable r) {text : List Char} (h : Lays names rs text)
    (hmark : text.head? = some '\uFEFF' →
      ∀ name, names.head? = some ('\uFEFF' :: name) → heading? name = none) :
    ofCsv s (Utf8.encode text) = build s (rs.map .ok) := by
  unfold ofCsv
  rw [ofBytes_of_lays hnames hrs h hmark, List.map_map]
  rfl

/-- The heading behind the mark is no column, the others are in another order, and the label has a comma, a
quote and a line feed in it. -/
theorem ofCsv_of_lays_reordered :
    let s : Selection := ⟨.any, .any, .reduced⟩
    let names := ["\uFEFFnote", "pc", "operation", "cycle", "y", "x"].map String.toList
    let r : Record := ⟨⟨0, 3⟩, 1, ⟨0x1000⟩, "st\"all,\n1"⟩
    let rs := [r]
    let text := "\uFEFFnote,pc, operation ,cycle,y,x\r\n\"a,\"\"b\n\", 0x1000 ,\"st\"\"all,\n1\",01,3,0".toList
    IsHeader names ∧ (∀ r ∈ rs, Printable r) ∧ Lays names rs text ∧
      (text.head? = some '\uFEFF' → ∀ name, names.head? = some ('\uFEFF' :: name) → heading? name = none) ∧
      ofCsv s (Utf8.encode text) = build s (rs.map .ok) := by
  intro s names r rs text
  have hnames : IsHeader names := by decide
  have hrs : ∀ r ∈ rs, Printable r := by
    intro _ hr
    obtain rfl := List.mem_singleton.mp hr
    exact ⟨by decide, by decide, by decide⟩
  have hcolumns : names.map heading? = [none, some .pc, some .operation, some .cycle, some .y, some .x] := by
    decide
  have hpc : Holds r .pc "0x1000".toList :=
    (by decide : Pc.parse "0x1000" = .ok ⟨0x1000⟩)
  have hlabel : Csv.Spells "st\"all,\n1".toList "\"st\"\"all,\n1\"".toList := .quoted
  have hlays : Lays names rs text := by
    let header := ["\uFEFFnote", "pc", " operation ", "cycle", "y", "x"].map String.toList
    let row := ["\"a,\"\"b\n\"", " 0x1000 ", "\"st\"\"all,\n1\"", "01", "3", "0"].map String.toList
    refine ⟨header, [row], ?_, ?_, ?_⟩
    · exact .cons (.plain rfl) (.cons (.plain rfl) (.cons (.bare (Csv.isSpecial_of_any rfl) 1 1)
        (.cons (.plain rfl) (.cons (.plain rfl) (.cons (.plain rfl) .nil)))))
    · rw [hcolumns]
      refine .cons (.cons (.other (s := "a,\"b\n".toList) .quoted) (.cons ?_ (.cons (.named rfl hlabel)
        (.cons (.named ?_ (.plain rfl)) (.cons (.named ?_ (.plain rfl))
        (.cons (.named ?_ (.plain rfl)) .nil)))))) .nil
      · exact .barePc hpc (by decide) (by decide) 1 1
      · exact isDecimal_digit (n := 1) (by decide) 1
      · exact isDecimal_digit (n := 3) (by decide) 0
      · exact isDecimal_digit (n := 0) (by decide) 0
    · exact .cons _ (.inr rfl) (.unclosed _)
  have hmark : text.head? = some '\uFEFF' →
      ∀ name, names.head? = some ('\uFEFF' :: name) → heading? name = none := by
    intro _ name hname
    obtain rfl := (List.cons.inj (Option.some.inj hname)).2
    decide
  exact ⟨hnames, hrs, hlays, hmark, ofCsv_of_lays s hnames hrs hlays hmark⟩

/-- A mark in front of a heading that is a column without it: the record is refused. -/
theorem ofCsv_mark_before_column :
    let s : Selection := ⟨.any, .any, .reduced⟩
    let names := ["\uFEFFx", "x", "y", "cycle", "pc", "operation"].map String.toList
    let rs : List Record := [⟨⟨0, 0⟩, 1, ⟨0x1000⟩, "add"⟩]
    let text := "\uFEFFx,x,y,cycle,pc,operation\n7,0,0,1,1000,add\n".toList
    IsHeader names ∧ (∀ r ∈ rs, Printable r) ∧ Lays names rs text ∧
      (ofCsv s (Utf8.encode text)).result = .error (.rows ⟨⟨1, 2, 28⟩, .record (.duplicate .x)⟩) ∧
      ofCsv s (Utf8.encode text) ≠ build s (rs.map .ok) := by
  intro s names rs text
  have hnames : IsHeader names := by decide
  have hrs : ∀ r ∈ rs, Printable r := by
    intro r hr
    obtain rfl := List.mem_singleton.mp hr
    exact ⟨by decide, by decide, by decide⟩
  have hcolumns : names.map heading? = [none, some .x, some .y, some .cycle, some .pc, some .operation] := by
    decide
  have hplain : ∀ n ∈ names, n.any Csv.isSpecial = false := by decide
  have hlays : Lays names rs text := by
    refine ⟨names, [["7", "0", "0", "1", "1000", "add"].map String.toList], ?_, ?_, ?_⟩
    · exact List.forall₂_same.mpr fun n hn => .plain (hplain n hn)
    · rw [hcolumns]
      refine .cons (.cons (.other (.plain rfl)) (.cons (.named ?_ (.plain rfl))
        (.cons (.named ?_ (.plain rfl)) (.cons (.named ?_ (.plain rfl))
        (.cons (.named ?_ (.plain rfl)) (.cons (.named rfl (.plain rfl)) .nil)))))) .nil
      · exact isDecimal_digit (n := 0) (by decide) 0
      · exact isDecimal_digit (n := 0) (by decide) 0
      · exact isDecimal_digit (n := 1) (by decide) 0
      · exact rfl
    · exact .cons _ (.inl rfl) (.closed _ (.inl rfl))
  have hresult : (ofCsv s (Utf8.encode text)).result =
      .error (.rows ⟨⟨1, 2, 28⟩, .record (.duplicate .x)⟩) := by
    decide +kernel
  refine ⟨hnames, hrs, hlays, hresult, ?_⟩
  intro heq
  rw [heq] at hresult
  exact absurd hresult (by decide +kernel)

end TileTrace.Trace
