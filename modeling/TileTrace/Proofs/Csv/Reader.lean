import Mathlib.Data.List.Forall2
import TileTrace.Csv.Row

/-!
# Reading rows that were written

What the reader makes of written fields, of rows of them and of lines. A field is written as it is if none
of its bytes means anything to the reader, and between quotes in any case. Where the rows were found is
left aside.
-/

namespace TileTrace.Csv.Reader

def isSpecial (b : UInt8) : Bool :=
  b == comma || b == quote || b == lineFeed || b == carriageReturn

inductive Field : List UInt8 → List UInt8 → Prop
  | bare {s : List UInt8} (h : ∀ b ∈ s, isSpecial b = false) : Field s s
  | quoted (s : List UInt8) :
    Field s (quote :: (s.flatMap fun b => if b = quote then [quote, quote] else [b]) ++ [quote])

/-! ## Bytes inside a row -/

/-- From one state to another over some bytes, without the end of a row. -/
def Goes (r : Reader) (w : List UInt8) (r' : Reader) : Prop :=
  ∀ rest, r.rows (w ++ rest) = r'.rows rest

theorem Goes.nil (r : Reader) : Goes r [] r :=
  fun _ => rfl

theorem Goes.append {r r' r'' : Reader} {v w : List UInt8} (h : Goes r v r') (h' : Goes r' w r'') :
    Goes r (v ++ w) r'' := by
  intro rest
  rw [List.append_assoc, h, h']

theorem Goes.cons {r r' r'' : Reader} {b : UInt8} {w : List UInt8} (h : r.step b = (none, r'))
    (h' : Goes r' w r'') : Goes r (b :: w) r'' := by
  intro rest
  rw [List.cons_append, rows, h]
  exact h' rest

theorem Goes.single {r r' : Reader} {b : UInt8} (h : r.step b = (none, r')) : Goes r [b] r' :=
  Goes.cons h (Goes.nil r')

/-- A state, apart from where it is in the text. -/
structure At (r : Reader) (place : Place) (field : List UInt8) (fields : List (List UInt8)) : Prop where
  place : r.place = place
  field : r.field = field
  fields : r.fields = fields

section
variable {r : Reader} {place : Place} {f s w : List UInt8} {fs : List (List UInt8)}

/-! ## Fields -/

theorem At.goes_bare (h : At r .field f fs) (hs : ∀ b ∈ s, isSpecial b = false) :
    ∃ r', Goes r s r' ∧ At r' .field (s.reverse ++ f) fs := by
  induction s generalizing r f with
  | nil => exact ⟨r, Goes.nil r, h⟩
  | cons b s ih =>
    have hb := hs b List.mem_cons_self
    simp only [isSpecial, Bool.or_eq_false_iff, beq_eq_false_iff_ne] at hb
    obtain ⟨⟨⟨hcomma, -⟩, hline⟩, hreturn⟩ := hb
    have hstep : r.step b = (none, { r.advance b with place := .field, field := b :: r.field }) := by
      simp [step, h.place, stepPlain, hcomma, hline, hreturn, keep, advance]
    have hat : At { r.advance b with place := .field, field := b :: r.field } .field (b :: f) fs :=
      ⟨rfl, congrArg (b :: ·) h.field, h.fields⟩
    obtain ⟨r', hgoes, hat'⟩ := ih hat fun b hb => hs b (List.mem_cons_of_mem _ hb)
    refine ⟨r', Goes.cons hstep hgoes, ?_⟩
    rwa [List.reverse_cons, List.append_assoc]

theorem At.goes_quoted (h : At r .quoted f fs) :
    ∃ r', Goes r (s.flatMap fun b => if b = quote then [quote, quote] else [b]) r' ∧
      At r' .quoted (s.reverse ++ f) fs := by
  induction s generalizing r f with
  | nil => exact ⟨r, Goes.nil r, h⟩
  | cons b s ih =>
    obtain ⟨r₁, hfirst, hat⟩ : ∃ r₁, Goes r (if b = quote then [quote, quote] else [b]) r₁ ∧
        At r₁ .quoted (b :: f) fs := by
      by_cases hb : b = quote
      · rw [if_pos hb]
        have hstep : r.step quote = (none, { r.advance quote with place := .afterQuote }) := by
          simp [step, h.place]
        refine ⟨_, Goes.cons hstep (Goes.single rfl), rfl, ?_, h.fields⟩
        rw [hb]
        exact congrArg (quote :: ·) h.field
      · rw [if_neg hb]
        have hstep : r.step b = (none, { r.advance b with place := .quoted, field := b :: r.field }) := by
          simp [step, h.place, hb, keep, advance]
        exact ⟨_, Goes.single hstep, rfl, congrArg (b :: ·) h.field, h.fields⟩
    obtain ⟨r', hrest, hat'⟩ := ih hat
    refine ⟨r', ?_, ?_⟩
    · rw [List.flatMap_cons]
      exact hfirst.append hrest
    · rwa [List.reverse_cons, List.append_assoc]

def BeginsField (place : Place) : Prop :=
  place = .start ∨ place = .afterReturn ∨ place = .fieldStart

theorem At.step_ordinary {b : UInt8} (h : At r place [] fs) (hplace : BeginsField place)
    (hb : isSpecial b = false) : ∃ r', r.step b = (none, r') ∧ At r' .field [b] fs := by
  simp only [isSpecial, Bool.or_eq_false_iff, beq_eq_false_iff_ne] at hb
  obtain ⟨⟨⟨hcomma, hquote⟩, hline⟩, hreturn⟩ := hb
  refine ⟨{ r.advance b with place := .field, field := b :: r.field }, ?_, rfl, congrArg (b :: ·) h.field,
    h.fields⟩
  rcases hplace with rfl | rfl | rfl
  · simp [step, h.place, isBreak, stepStart, stepPlain, hcomma, hquote, hline, hreturn, keep, advance]
  · simp [step, h.place, stepStart, stepPlain, hcomma, hquote, hline, hreturn, keep, advance]
  · simp [step, h.place, stepStart, stepPlain, hcomma, hquote, hline, hreturn, keep, advance]

theorem At.step_quote (h : At r place [] fs) (hplace : BeginsField place) :
    ∃ r', r.step quote = (none, r') ∧ At r' .quoted [] fs := by
  have hbreak : isBreak quote = false := by decide
  have hreturn : ¬ (quote = lineFeed ∨ quote = carriageReturn) := by decide
  refine ⟨{ r.advance quote with place := .quoted }, ?_, rfl, h.field, h.fields⟩
  rcases hplace with rfl | rfl | rfl
  · simp [step, h.place, hbreak, stepStart]
  · simp [step, h.place, hreturn, stepStart]
  · simp [step, h.place, stepStart]

theorem At.goes_field (h : At r place [] fs) (hplace : BeginsField place) (hw : Field s w) :
    ∃ r' place', Goes r w r' ∧ At r' place' s.reverse fs ∧
      (place' = place ∨ place' = .field ∨ place' = .afterQuote) := by
  cases hw with
  | bare hs =>
    cases s with
    | nil => exact ⟨r, place, Goes.nil r, h, .inl rfl⟩
    | cons b s =>
      obtain ⟨r₁, hstep, hat⟩ := h.step_ordinary hplace (hs b List.mem_cons_self)
      obtain ⟨r', hgoes, hat'⟩ := hat.goes_bare fun b hb => hs b (List.mem_cons_of_mem _ hb)
      rw [← List.reverse_cons] at hat'
      exact ⟨r', .field, Goes.cons hstep hgoes, hat', .inr (.inl rfl)⟩
  | quoted =>
    obtain ⟨r₁, hopen, hat⟩ := h.step_quote hplace
    obtain ⟨r₂, hgoes, hat'⟩ := hat.goes_quoted (s := s)
    rw [List.append_nil] at hat'
    have hclose : r₂.step quote = (none, { r₂.advance quote with place := .afterQuote }) := by
      simp [step, hat'.place]
    refine ⟨_, .afterQuote, (Goes.cons hopen hgoes).append (Goes.single hclose), ?_, .inr (.inr rfl)⟩
    exact ⟨rfl, hat'.field, hat'.fields⟩

/-! ## Rows -/

theorem At.step_comma (h : At r place f fs) (hplace : place ≠ .quoted) :
    ∃ r', r.step comma = (none, r') ∧ At r' .fieldStart [] (f.reverse :: fs) := by
  have hquote : comma ≠ quote := by decide
  have hbreak : isBreak comma = false := by decide
  have hreturn : ¬ (comma = lineFeed ∨ comma = carriageReturn) := by decide
  refine ⟨(r.advance comma).endField, ?_, rfl, rfl, ?_⟩
  · cases place with
    | quoted => exact absurd rfl hplace
    | start => simp [step, h.place, hbreak, stepStart, hquote, stepPlain]
    | afterReturn => simp [step, h.place, hreturn, stepStart, hquote, stepPlain]
    | fieldStart => simp [step, h.place, stepStart, hquote, stepPlain]
    | field => simp [step, h.place, stepPlain]
    | afterQuote => simp [step, h.place, hquote, stepPlain]
  · show (r.advance comma).field.reverse :: (r.advance comma).fields = _
    rw [← h.field, ← h.fields]
    rfl

/-- The last field of a row has been read, and the fields with it are these, the last one first. -/
def EndsRow (r : Reader) (fs : List (List UInt8)) : Prop :=
  (r.place = .fieldStart ∨ r.place = .field ∨ r.place = .afterQuote) ∧ r.field.reverse :: r.fields = fs

theorem At.goes_fields (h : At r .fieldStart [] fs) {ss ws : List (List UInt8)} (hne : ss ≠ [])
    (hws : List.Forall₂ Field ss ws) :
    ∃ r', Goes r ([comma].intercalate ws) r' ∧ EndsRow r' (ss.reverse ++ fs) := by
  induction hws generalizing r fs with
  | nil => exact absurd rfl hne
  | @cons s w ss ws hw hws ih =>
    obtain ⟨r₁, place, hfirst, hat, hplace⟩ := h.goes_field (.inr (.inr rfl)) hw
    cases hws with
    | nil =>
      refine ⟨r₁, by simpa using hfirst, hat.place ▸ hplace, ?_⟩
      rw [hat.field, hat.fields, List.reverse_reverse]
      rfl
    | @cons s' w' ss ws hw' hws =>
      have hunquoted : place ≠ .quoted := by
        rcases hplace with rfl | rfl | rfl <;> decide
      obtain ⟨r₂, hstep, hat'⟩ := hat.step_comma hunquoted
      rw [List.reverse_reverse] at hat'
      obtain ⟨r', hrest, hends⟩ := ih hat' (List.cons_ne_nil _ _)
      refine ⟨r', ?_, ?_⟩
      · rw [List.intercalate_cons_cons]
        exact (hfirst.append (Goes.single hstep)).append hrest
      · rwa [List.reverse_cons, List.append_assoc]

def BeginsRow (r : Reader) : Prop :=
  At r .start [] [] ∨ At r .afterReturn [] []

/-- A row of more than one field, which is never passed over as an empty line. -/
theorem BeginsRow.goes_row (h : BeginsRow r) {ss ws : List (List UInt8)} (hss : 2 ≤ ss.length)
    (hws : List.Forall₂ Field ss ws) : ∃ r', Goes r ([comma].intercalate ws) r' ∧ EndsRow r' ss.reverse := by
  obtain ⟨place, hplace, hat⟩ : ∃ place, (place = .start ∨ place = .afterReturn) ∧ At r place [] [] := by
    rcases h with h | h
    · exact ⟨_, .inl rfl, h⟩
    · exact ⟨_, .inr rfl, h⟩
  cases hws with
  | nil => cases hss
  | @cons s w ss ws hw hws =>
    have hbegins : BeginsField place := by
      rcases hplace with rfl | rfl
      · exact .inl rfl
      · exact .inr (.inl rfl)
    obtain ⟨r₁, place', hfirst, hat₁, hplace'⟩ := hat.goes_field hbegins hw
    -- Behind a field the reader is outside quotes, so that the comma ends it.
    have hunquoted : place' ≠ .quoted := by
      rcases hplace' with rfl | rfl | rfl
      · rcases hplace with rfl | rfl <;> decide
      · decide
      · decide
    obtain ⟨r₂, hstep, hat₂⟩ := hat₁.step_comma hunquoted
    rw [List.reverse_reverse] at hat₂
    have hne : ss ≠ [] := by
      rintro rfl
      simp at hss
    obtain ⟨r', hrest, hends⟩ := hat₂.goes_fields hne hws
    refine ⟨r', ?_, ?_⟩
    · cases hws with
      | nil => exact absurd rfl hne
      | cons hw' hws =>
        rw [List.intercalate_cons_cons]
        exact (hfirst.append (Goes.single hstep)).append hrest
    · rwa [List.reverse_cons]

/-! ## Ends of rows -/

theorem EndsRow.rows_nil (h : EndsRow r fs) : (r.rows []).map (·.fields) = [fs.reverse] := by
  obtain ⟨hplace, rfl⟩ := h
  have hlast : r.last = [(r.endRow .start).1] := by
    unfold last
    rcases hplace with hplace | hplace | hplace <;> simp [hplace]
  rw [rows, hlast]
  rfl

theorem EndsRow.rows_lineFeed (h : EndsRow r fs) : ∃ row r', r.step lineFeed = (some row, r') ∧
    row.fields = fs.reverse ∧ BeginsRow r' := by
  obtain ⟨hplace, rfl⟩ := h
  refine ⟨((r.advance lineFeed).endRow .start).1, ((r.advance lineFeed).endRow .start).2, ?_, rfl,
    .inl ⟨rfl, rfl, rfl⟩⟩
  have hbyte : lineFeed ≠ quote ∧ lineFeed ≠ comma := by decide
  rcases hplace with hplace | hplace | hplace
  · simp [step, hplace, stepStart, stepPlain, hbyte, Prod.map]
  · simp [step, hplace, stepPlain, hbyte, Prod.map]
  · simp [step, hplace, stepPlain, hbyte, Prod.map]

theorem EndsRow.rows_return (h : EndsRow r fs) : ∃ row r', r.step carriageReturn = (some row, r') ∧
    row.fields = fs.reverse ∧ At r' .afterReturn [] [] := by
  obtain ⟨hplace, rfl⟩ := h
  refine ⟨((r.advance carriageReturn).endRow .afterReturn).1,
    ((r.advance carriageReturn).endRow .afterReturn).2, ?_, rfl, rfl, rfl, rfl⟩
  have hbyte : carriageReturn ≠ quote ∧ carriageReturn ≠ comma ∧ carriageReturn ≠ lineFeed := by decide
  rcases hplace with hplace | hplace | hplace
  · simp [step, hplace, stepStart, stepPlain, hbyte, Prod.map]
  · simp [step, hplace, stepPlain, hbyte, Prod.map]
  · simp [step, hplace, stepPlain, hbyte, Prod.map]

theorem BeginsRow.rows_nil (h : BeginsRow r) : r.rows [] = [] := by
  unfold rows last
  rcases h with h | h <;> rw [h.place]

end

end TileTrace.Csv.Reader
