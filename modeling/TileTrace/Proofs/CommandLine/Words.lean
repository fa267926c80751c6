import TileTrace.CommandLine.Options
import TileTrace.Proofs.Pc

/-!
# Command lines of options

Words that ask for given options, and that they are read as these options. A path that does not begin
with a dash can be given as a word of its own.
-/

namespace TileTrace.CommandLine

/-! ## Words -/

def IsOperand (w : String) : Prop :=
  w ≠ "" ∧ w.toList.head? ≠ some '-'

instance (w : String) : Decidable (IsOperand w) := inferInstanceAs (Decidable (_ ∧ _))

theorem Word.ofString_operand {w : String} (h : IsOperand w) : Word.ofString w = .plain w := by
  unfold Word.ofString
  split
  · simp_all [IsOperand]
  · simp_all [IsOperand]
  · simp_all [IsOperand]
  · rfl

theorem readPath_operand {w : String} (h : IsOperand w) : readPath w = .ok w := by
  unfold readPath
  rw [if_neg h.1]

theorem isOperand_digits {radix : Nat} (hr : radix ≤ 16) {cs : List Char} (hne : cs ≠ [])
    (h : Numeral.Digits radix cs) : IsOperand (String.ofList cs) := by
  obtain ⟨c, rest, rfl⟩ := List.exists_cons_of_ne_nil hne
  obtain ⟨d, hd, rfl⟩ := h c List.mem_cons_self
  have hdash : Numeral.digitChar d ≠ '-' := Numeral.digitChar_ne (by omega) rfl
  constructor
  · intro hempty
    have hnil := congrArg String.toList hempty
    simp at hnil
  · simpa using hdash

theorem write_ne_nil (n : Nat) : Numeral.write 10 n ≠ [] := by
  rw [Numeral.write]
  split
  · simp
  · simp

theorem isOperand_decimal (n : Nat) : IsOperand (Numeral.decimal n) :=
  isOperand_digits (by decide) (write_ne_nil n) (Numeral.digits_write (by omega) n)

/-! ## Values -/

theorem isOperand_markerText (m : Marker) : IsOperand m.text := by
  cases m with
  | any => decide
  | pc p =>
    exact isOperand_digits (Nat.le_refl 16)
      (List.ne_nil_of_length_pos (by rw [Numeral.writeFixed_length]; omega))
      (Numeral.digits_writeFixed (by omega) 8 _)

theorem readMarker_text (m : Marker) : readMarker m.text = .ok m := by
  rw [readMarker, Marker.parse_text]
  rfl

theorem readNumber_decimal {n : Nat} (h : n < UInt64.size) : readNumber (Numeral.decimal n) = .ok n := by
  unfold readNumber Numeral.decimal
  have hdigits : Numeral.AnyDigits 10 (Numeral.write 10 n) :=
    (Numeral.digits_write (by omega) n).any (by omega)
  rw [String.toList_ofList, Numeral.read_digits (write_ne_nil n) hdigits,
    Numeral.readDigits_write (by omega) (by omega) h]
  rfl

theorem readMode_name (m : Mode) : readMode m.name = .ok m := by
  cases m <;> rfl

/-! ## Options -/

section
variable {σ : Type} {flags : List (Flag σ)} {ws : List String} {o : Flag σ} {settings : σ}

theorem words_values {values values' : List String} (hw : ∀ v ∈ values', Word.ofString v = .plain v)
    (ho : values.length + values'.length ≤ o.arity) :
    Scan.words flags (values' ++ ws) ⟨settings, some (o, values)⟩ =
      Scan.words flags ws ⟨settings, some (o, values ++ values')⟩ := by
  induction values' generalizing values with
  | nil => simp
  | cons v values' ih =>
    rw [List.length_cons] at ho
    have hlt : values.length < o.arity := by omega
    rw [List.cons_append, Scan.words, hw v List.mem_cons_self]
    simp only [Scan.value, if_pos hlt, bind, Except.bind]
    rw [ih (fun v hv => hw v (List.mem_cons_of_mem _ hv)) (by simp; omega), List.append_assoc]
    rfl

theorem settle_single {α : Type} {names : List String} {letter : Option Char} {get : σ → Option α}
    {read : String → Except UsageError α} {put : α → σ → σ} {v : String} {a : α} (hget : get settings = none)
    (hread : read v = .ok a) :
    Scan.settle ⟨settings, some (single names letter get read put, [v])⟩ = .ok (put a settings) := by
  simp [Scan.settle, Flag.take, single, hget, hread, bind, Except.bind, pure, Except.pure]

/-- An option behind which its values stand as words is what is read next. -/
theorem words_apart {s : Scan σ} {w name : String} {values : List String}
    (hw : Word.ofString w = .long name none) (ho : flags.find? (·.names.contains name) = some o)
    (harity : o.arity = values.length) (hne : values ≠ [])
    (hvalues : ∀ v ∈ values, Word.ofString v = .plain v) (hs : s.settle = .ok settings) :
    Scan.words flags (w :: (values ++ ws)) s = Scan.words flags ws ⟨settings, some (o, values)⟩ := by
  obtain ⟨n, hn⟩ : ∃ n, o.arity = n + 1 := ⟨values.length - 1, by
    have := List.length_pos_iff.mpr hne
    omega⟩
  rw [Scan.words, hw]
  simp only [ho, Scan.start, hn, hs, bind, Except.bind, pure, Except.pure]
  exact words_values hvalues (by simp [harity])

theorem words_option {s : Scan σ} {w name : String} {values : List String}
    (hw : Word.ofString w = .long name none) (ho : flags.find? (·.names.contains name) = some o)
    (harity : o.arity = values.length) (hne : values ≠ []) (hvalues : ∀ v ∈ values, IsOperand v)
    (hs : s.settle = .ok settings) :
    Scan.words flags (w :: (values ++ ws)) s = Scan.words flags ws ⟨settings, some (o, values)⟩ :=
  words_apart hw ho harity hne (fun v hv => Word.ofString_operand (hvalues v hv)) hs

theorem words_switch {s : Scan σ} {w name : String} {settings' : σ}
    (hw : Word.ofString w = .long name none) (ho : flags.find? (·.names.contains name) = some o)
    (harity : o.arity = 0) (hs : s.settle = .ok settings) (htake : o.take [] settings = .ok settings') :
    Scan.words flags (w :: ws) s = Scan.words flags ws { settings := settings' } := by
  rw [Scan.words, hw]
  simp only [ho, Scan.start, harity, hs, htake, bind, Except.bind, pure, Except.pure]

end

/-! ## Command lines -/

def CompressOptions.words (o : CompressOptions) : List String :=
  "--trace" :: o.trace :: "--startpc" :: o.selection.start.text :: "--endpc" :: o.selection.stop.text ::
    "--output" :: o.output ::
    match o.selection.grid with
    | .full => []
    | .reduced => ["--reduced"]

def CompressAsmOptions.words (o : CompressAsmOptions) : List String :=
  ["--asm", o.asm, "--output", o.output]

theorem parse_compressWords {o : CompressOptions} (htrace : IsOperand o.trace) (houtput : IsOperand o.output) :
    parse ("compress" :: o.words) = .ok (.compress o) := by
  obtain ⟨trace, ⟨start, stop, grid⟩, output⟩ := o
  have hstart : ∀ v ∈ [start.text], IsOperand v := by simpa using isOperand_markerText start
  have hstop : ∀ v ∈ [stop.text], IsOperand v := by simpa using isOperand_markerText stop
  -- The words that every grid has, with whatever is behind them.
  have hwords : ∀ ws, parseFlags compressFlags {} ("--trace" :: ([trace] ++ "--startpc" :: ([start.text] ++
      "--endpc" :: ([stop.text] ++ "--output" :: ([output] ++ ws))))) =
      Scan.words compressFlags ws
        ⟨{ input := some trace, start := some start, stop := some stop }, some (outputFlag, [output])⟩ := by
    intro ws
    refine (words_option rfl rfl rfl (by simp) (by simpa using htrace) rfl).trans ?_
    refine (words_option rfl rfl rfl (by simp) hstart (settle_single rfl (readPath_operand htrace))).trans ?_
    refine (words_option rfl rfl rfl (by simp) hstop (settle_single rfl (readMarker_text start))).trans ?_
    exact words_option rfl rfl rfl (by simp) (by simpa using houtput) (settle_single rfl (readMarker_text stop))
  let settings : CompressSettings := { input := some trace, start := some start, stop := some stop }
  have hsettle : Scan.settle ⟨settings, some (outputFlag, [output])⟩ =
      .ok ⟨some trace, some start, some stop, false, some output⟩ :=
    settle_single rfl (readPath_operand houtput)
  have hparse : ∀ ws, parse ("compress" :: ws) = parseCompress ws := fun _ => rfl
  rw [hparse]
  unfold parseCompress
  cases grid with
  | full =>
    have hflags : parseFlags compressFlags {} (CompressOptions.words ⟨trace, ⟨start, stop, .full⟩, output⟩) =
        .ok ⟨some trace, some start, some stop, false, some output⟩ := (hwords []).trans hsettle
    rw [hflags]
    rfl
  | reduced =>
    have hflags : parseFlags compressFlags {} (CompressOptions.words ⟨trace, ⟨start, stop, .reduced⟩, output⟩) =
        .ok ⟨some trace, some start, some stop, true, some output⟩ :=
      (hwords ["--reduced"]).trans (words_switch rfl rfl rfl hsettle rfl)
    rw [hflags]
    rfl

theorem parse_compressAsmWords {o : CompressAsmOptions} (hasm : IsOperand o.asm)
    (houtput : IsOperand o.output) :
    parse ("compress-asm" :: o.words) = .ok (.compressAsm o) := by
  obtain ⟨asm, output⟩ := o
  have hflags : parseFlags compressAsmFlags {} (CompressAsmOptions.words ⟨asm, output⟩) =
      .ok { input := some asm, output := some output } := by
    show Scan.words compressAsmFlags ("--asm" :: ([asm] ++ "--output" :: ([output] ++ []))) _ = _
    refine (words_option rfl rfl rfl (by simp) (by simpa using hasm) rfl).trans ?_
    refine (words_option rfl rfl rfl (by simp) (by simpa using houtput)
      (settle_single rfl (readPath_operand hasm))).trans ?_
    exact settle_single rfl (readPath_operand houtput)
  have hparse : ∀ ws, parse ("compress-asm" :: ws) = parseCompressAsm ws := fun _ => rfl
  rw [hparse]
  unfold parseCompressAsm
  rw [hflags]
  rfl

end TileTrace.CommandLine
