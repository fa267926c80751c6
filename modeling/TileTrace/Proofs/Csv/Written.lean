import TileTrace.Proofs.Csv.Reader
import TileTrace.Proofs.Text.Blank
import TileTrace.Proofs.Text.Utf8

/-!
# Comma separated text

How rows of texts are written: each text as it is, with spaces around it, or between quotes; commas between
the fields of a row; and a line feed behind a row, with a carriage return in front of it or not. The last
row need not be ended. Such text is read as the rows that were written.
-/

namespace TileTrace.Csv

/-! ## Writing -/

def isSpecial (c : Char) : Bool :=
  c == ',' || c == '"' || c == '\n' || c == '\r'

def spaced (i j : Nat) (s : List Char) : List Char :=
  List.replicate i ' ' ++ s ++ List.replicate j ' '

def quoted (s : List Char) : List Char :=
  '"' :: (s.flatMap fun c => if c = '"' then ['"', '"'] else [c]) ++ ['"']

/-- The ways to write a text as a field. -/
inductive Spells (s : List Char) : List Char → Prop
  | bare (h : ∀ c ∈ s, isSpecial c = false) (i j : Nat) : Spells s (spaced i j s)
  | quoted : Spells s (quoted s)

theorem isSpecial_of_any {s : List Char} (h : s.any isSpecial = false) : ∀ c ∈ s, isSpecial c = false := by
  intro c hc
  rw [List.any_eq_false] at h
  exact Bool.eq_false_iff.mpr (h c hc)

theorem Spells.plain {s : List Char} (h : s.any isSpecial = false) : Spells s s := by
  have hbare := Spells.bare (isSpecial_of_any h) 0 0
  rwa [spaced, List.replicate_zero, List.nil_append, List.append_nil] at hbare

def IsLineEnd (e : List Char) : Prop :=
  e = ['\n'] ∨ e = ['\r', '\n']

/-- The text of some lines, each with an end of its own, which the last one may lack. -/
inductive Joins : List (List Char) → List Char → Prop
  | unclosed (l : List Char) : Joins [l] l
  | closed (l : List Char) {e : List Char} (he : IsLineEnd e) : Joins [l] (l ++ e)
  | cons (l : List Char) {e : List Char} (he : IsLineEnd e) {ls : List (List Char)} {text : List Char}
    (h : Joins ls text) : Joins (l :: ls) (l ++ e ++ text)

/-! ## Fields in bytes -/

section
variable {s w : List Char}

theorem isSpecial_of_mem (c : Char) {b : UInt8} (hb : b ∈ String.utf8EncodeChar c) :
    Reader.isSpecial b = isSpecial c := by
  apply Utf8.test_of_mem_utf8EncodeChar (by decide) _ _ hb
  · intro b h
    simp only [Reader.isSpecial, Bool.or_eq_true, beq_iff_eq] at h
    rcases h with ((rfl | rfl) | rfl) | rfl <;> decide
  · intro c h
    simp only [isSpecial, Bool.or_eq_true, beq_iff_eq] at h
    rcases h with ((rfl | rfl) | rfl) | rfl <;> decide

theorem field_of_plain (h : ∀ c ∈ s, isSpecial c = false) :
    Reader.Field (Utf8.encode s) (Utf8.encode s) := by
  apply Reader.Field.bare
  intro b hb
  obtain ⟨c, hc, hb⟩ := List.mem_flatMap.mp hb
  rw [isSpecial_of_mem c hb, h c hc]

theorem isQuote_of_mem (c : Char) {b : UInt8} (hb : b ∈ String.utf8EncodeChar c) :
    (b == Reader.quote) = (c == '"') := by
  apply Utf8.test_of_mem_utf8EncodeChar (p := (· == Reader.quote)) (q := (· == '"')) (by decide) _ _ hb
  · intro b h
    rw [beq_iff_eq.mp h]
    decide
  · intro c h
    rw [beq_iff_eq.mp h]
    decide

/-- Quotes are doubled in the bytes of a text as they are in the text. -/
theorem encode_doubled (c : Char) : Utf8.encode (if c = '"' then ['"', '"'] else [c]) =
    (String.utf8EncodeChar c).flatMap fun b => if b = Reader.quote then [Reader.quote, Reader.quote]
      else [b] := by
  by_cases hc : c = '"'
  · subst hc
    decide
  · have hbytes : ∀ b ∈ String.utf8EncodeChar c,
        (if b = Reader.quote then [Reader.quote, Reader.quote] else [b]) = [b] := by
      intro b hb
      have hb := isQuote_of_mem c hb
      rw [beq_eq_false_iff_ne.mpr hc, beq_eq_false_iff_ne] at hb
      rw [if_neg hb]
    rw [if_neg hc, List.flatMap_congr hbytes, List.flatMap_singleton']
    simp [Utf8.encode]

theorem encode_quoted (s : List Char) : Utf8.encode (quoted s) =
    Reader.quote :: ((Utf8.encode s).flatMap fun b => if b = Reader.quote then [Reader.quote, Reader.quote]
      else [b]) ++ [Reader.quote] := by
  have hquote : Utf8.encode ['"'] = [Reader.quote] := by decide
  have hinside : Utf8.encode (s.flatMap fun c => if c = '"' then ['"', '"'] else [c]) =
      (Utf8.encode s).flatMap fun b => if b = Reader.quote then [Reader.quote, Reader.quote] else [b] := by
    unfold Utf8.encode
    rw [List.flatMap_assoc, List.flatMap_assoc]
    exact List.flatMap_congr fun c _ => encode_doubled c
  show Utf8.encode (['"'] ++ (s.flatMap fun c => if c = '"' then ['"', '"'] else [c]) ++ ['"']) = _
  rw [Utf8.encode_append, Utf8.encode_append, hquote, hinside]
  rfl

theorem field_quoted (s : List Char) : Reader.Field (Utf8.encode s) (Utf8.encode (quoted s)) := by
  rw [encode_quoted]
  exact .quoted _

/-- What is read of a field is the text that was written, with the spaces around it. -/
theorem Spells.field (h : Spells s w) :
    ∃ t, Reader.Field (Utf8.encode t) (Utf8.encode w) ∧ Text.trim t = Text.trim s := by
  cases h with
  | bare h i j =>
    refine ⟨spaced i j s, field_of_plain ?_, ?_⟩
    · intro c hc
      simp only [spaced, List.mem_append, List.mem_replicate] at hc
      rcases hc with (⟨-, rfl⟩ | hc) | ⟨-, rfl⟩
      · rfl
      · exact h c hc
      · rfl
    · apply Text.strip_append
      · intro c hc
        rw [(List.mem_replicate.mp hc).2]
        rfl
      · intro c hc
        rw [(List.mem_replicate.mp hc).2]
        rfl
  | quoted => exact ⟨s, field_quoted s, rfl⟩

end

/-! ## Lines -/

theorem encode_intercalate (ws : List (List Char)) :
    Utf8.encode ([','].intercalate ws) = [Reader.comma].intercalate (ws.map Utf8.encode) := by
  have hcomma : Utf8.encode [','] = [Reader.comma] := by decide
  induction ws with
  | nil => rfl
  | cons w ws ih =>
    cases ws with
    | nil => simp
    | cons w' ws =>
      rw [List.intercalate_cons_cons, Utf8.encode_append, Utf8.encode_append, ih, hcomma]
      simp only [List.map_cons, List.intercalate_cons_cons]

/-- A line of fields from which these texts are read. There is more than one, so that the line is not
empty. -/
def IsLine (ts : List (List Char)) (l : List Char) : Prop :=
  2 ≤ ts.length ∧ ∃ ws, List.Forall₂ (fun t w => Reader.Field (Utf8.encode t) (Utf8.encode w)) ts ws ∧
    [','].intercalate ws = l

section
variable {r : Reader} {ts : List (List Char)} {l e : List Char}

theorem IsLine.goes (h : IsLine ts l) (hr : r.BeginsRow) :
    ∃ r', Reader.Goes r (Utf8.encode l) r' ∧ r'.EndsRow (ts.map Utf8.encode).reverse := by
  obtain ⟨hts, ws, hws, rfl⟩ := h
  rw [encode_intercalate]
  apply hr.goes_row
  · rwa [List.length_map]
  · rwa [List.forall₂_map_left_iff, List.forall₂_map_right_iff]

theorem rows_lineEnd (he : IsLineEnd e) {fs : List (List UInt8)} (hr : r.EndsRow fs) :
    ∃ (row : Row) (r' : Reader), row.fields = fs.reverse ∧ r'.BeginsRow ∧
      ∀ rest, r.rows (Utf8.encode e ++ rest) = row :: r'.rows rest := by
  rcases he with rfl | rfl
  · obtain ⟨row, r', hstep, hfields, hbegins⟩ := hr.rows_lineFeed
    refine ⟨row, r', hfields, hbegins, ?_⟩
    intro rest
    show r.rows (Reader.lineFeed :: rest) = _
    rw [Reader.rows, hstep]
  · obtain ⟨row, r', hstep, hfields, hat⟩ := hr.rows_return
    have hfeed : r'.step Reader.lineFeed = (none, { r'.advance Reader.lineFeed with place := .start }) := by
      simp [Reader.step, hat.place]
    refine ⟨row, { r'.advance Reader.lineFeed with place := .start }, hfields,
      .inl ⟨rfl, hat.field, hat.fields⟩, ?_⟩
    intro rest
    show r.rows (Reader.carriageReturn :: Reader.lineFeed :: rest) = _
    rw [Reader.rows, hstep]
    simp only [Reader.rows, hfeed]

/-- The rows of a text are those of its lines, however they end. -/
theorem rows_of_joins {ls : List (List Char)} {text : List Char} (h : Joins ls text)
    {tss : List (List (List Char))} (hls : List.Forall₂ IsLine tss ls) (hr : r.BeginsRow) :
    (r.rows (Utf8.encode text)).map (·.fields) = tss.map (·.map Utf8.encode) := by
  induction h generalizing r tss with
  | unclosed l =>
    obtain ⟨ts, tss, hl, hnil, rfl⟩ := List.forall₂_cons_right_iff.mp hls
    obtain rfl := List.forall₂_nil_right_iff.mp hnil
    obtain ⟨r', hgoes, hends⟩ := hl.goes hr
    have hrows := hgoes []
    rw [List.append_nil] at hrows
    rw [hrows, hends.rows_nil, List.reverse_reverse]
    rfl
  | closed l he =>
    obtain ⟨ts, tss, hl, hnil, rfl⟩ := List.forall₂_cons_right_iff.mp hls
    obtain rfl := List.forall₂_nil_right_iff.mp hnil
    obtain ⟨r', hgoes, hends⟩ := hl.goes hr
    obtain ⟨row, r'', hfields, hbegins, hend⟩ := rows_lineEnd he hends
    have hrows := hend []
    rw [List.append_nil] at hrows
    rw [Utf8.encode_append, hgoes, hrows, hbegins.rows_nil, List.map_singleton, hfields, List.reverse_reverse]
    rfl
  | cons l he h ih =>
    obtain ⟨ts, tss, hl, hrest, rfl⟩ := List.forall₂_cons_right_iff.mp hls
    obtain ⟨r', hgoes, hends⟩ := hl.goes hr
    obtain ⟨row, r'', hfields, hbegins, hend⟩ := rows_lineEnd he hends
    rw [Utf8.encode_append, Utf8.encode_append, List.append_assoc, hgoes, hend, List.map_cons, hfields,
      List.reverse_reverse, ih hrest hbegins]
    rfl

end

end TileTrace.Csv
