import Mathlib.Data.List.TakeDrop
import Mathlib.Data.List.TakeWhile
import TileTrace.Proofs.CommandLine.Words

/-!
# The options of a line trace as they are typed

The words behind `print` as a row of options: which words give an option, and that a row of words is accepted
just where it gives options of which none is repeated that may be given once.
-/

namespace TileTrace.CommandLine

/-! ## Words -/

/-- A word that is no option: it has no dash in front, or is nothing else. -/
def IsValue (w : String) : Prop :=
  w = "-" ∨ w.toList.head? ≠ some '-'

theorem Word.ofString_value {w : String} (h : IsValue w) : Word.ofString w = .plain w := by
  unfold Word.ofString
  rcases h with rfl | h
  · rfl
  · split
    · simp_all
    · simp_all
    · simp_all
    · rfl

theorem Word.ofString_eq_plain {w v : String} (h : Word.ofString w = .plain v) : w = v ∧ IsValue w := by
  unfold Word.ofString at h
  split at h
  · cases h
  · split at h <;> cases h
  · cases h
  · rename_i hsep hlong hletters
    cases h
    refine ⟨rfl, ?_⟩
    by_cases hdash : w.toList.head? = some '-'
    · obtain ⟨cs, hcs⟩ : ∃ cs, w.toList = '-' :: cs := by
        cases hw : w.toList with
        | nil => simp [hw] at hdash
        | cons c cs =>
          simp only [hw, List.head?_cons, Option.some.injEq] at hdash
          exact ⟨cs, by rw [hdash]⟩
      cases cs with
      | nil => exact .inl (String.toList_injective hcs)
      | cons c cs => exact absurd hcs (hletters c cs)
    · exact .inr hdash

theorem Word.ofString_eq_separator {w : String} (h : Word.ofString w = .separator) : w = "--" := by
  unfold Word.ofString at h
  split at h
  · rename_i hw
    exact String.toList_injective hw
  · split at h <;> cases h
  · cases h
  · cases h

def longWord (name : String) : Option String → String
  | none => "--" ++ name
  | some v => "--" ++ name ++ "=" ++ v

theorem Word.ofString_eq_long {w name : String} {value : Option String}
    (h : Word.ofString w = .long name value) :
    w = longWord name value := by
  unfold Word.ofString at h
  split at h
  · cases h
  · rename_i cs hsep hw
    have hspan := List.span_eq_takeWhile_dropWhile (fun c => decide (c ≠ '=')) cs
    have happend := List.takeWhile_append_dropWhile (p := fun c => decide (c ≠ '=')) (l := cs)
    split at h
    · rename_i front c back hcs
      rw [hcs] at hspan
      obtain ⟨hfront, hback⟩ := Prod.mk.inj hspan
      -- The name goes up to the first equals sign, which is what stands behind it.
      have hc : c = '=' := by
        have hhead := List.head?_dropWhile_not (p := fun c => decide (c ≠ '=')) cs
        rw [← hback] at hhead
        simpa using hhead
      cases h
      apply String.toList_injective
      rw [← hfront, ← hback, hc] at happend
      simp [longWord, hw, ← happend]
    · rename_i front hcs
      rw [hcs] at hspan
      obtain ⟨hfront, hback⟩ := Prod.mk.inj hspan
      cases h
      apply String.toList_injective
      rw [← hfront, ← hback, List.append_nil] at happend
      simp [longWord, hw, happend]
  · cases h
  · cases h

/-- A name without an equals sign is read up to the end or the sign. -/
theorem Word.ofString_longWord {name : String} (hne : name ≠ "") (hname : '=' ∉ name.toList)
    (value : Option String) : Word.ofString (longWord name value) = .long name value := by
  obtain ⟨c, cs, hcs⟩ : ∃ c cs, name.toList = c :: cs :=
    List.exists_cons_of_ne_nil fun hnil => hne (String.toList_injective hnil)
  have hall : ∀ x ∈ name.toList, decide (x ≠ '=') = true := by
    intro x hx
    simp only [decide_eq_true_eq]
    rintro rfl
    exact hname hx
  cases value with
  | none =>
    have hlist : (longWord name none).toList = '-' :: '-' :: name.toList := by simp [longWord]
    have hspan : name.toList.span (fun c => decide (c ≠ '=')) = (name.toList, []) := by
      rw [List.span_eq_takeWhile_dropWhile, List.takeWhile_eq_self_iff.mpr hall,
        List.dropWhile_eq_nil_iff.mpr hall]
    unfold Word.ofString
    rw [hlist]
    rw [hcs] at hspan ⊢
    simp only [hspan]
    rw [← hcs, String.ofList_toList]
  | some v =>
    have hlist : (longWord name (some v)).toList = '-' :: '-' :: (name.toList ++ '=' :: v.toList) := by
      simp [longWord]
    have hspan : (name.toList ++ '=' :: v.toList).span (fun c => decide (c ≠ '=')) =
        (name.toList, '=' :: v.toList) := by
      rw [List.span_eq_takeWhile_dropWhile, List.takeWhile_append_of_pos hall,
        List.dropWhile_append_of_pos hall]
      simp
    unfold Word.ofString
    rw [hlist]
    rw [hcs, List.cons_append] at hspan ⊢
    simp only [hspan]
    rw [← hcs, String.ofList_toList, String.ofList_toList]

/-! ## Options -/

inductive PrintOption
  | trace (path : String)
  | disassembly (path : String)
  | mode (m : Mode)
  | range (m : Mode) (start stop : Nat)
  deriving DecidableEq

namespace PrintOption

def name : PrintOption → String
  | trace _ => "trace"
  | disassembly _ => "dict"
  | mode _ => "mode"
  | range m _ _ => m.name

inductive Says : PrintOption → List String → Prop
  | trace {v path : String} (h : readPath v = .ok path) : Says (.trace path) [v]
  | disassembly {v path : String} (h : readPath v = .ok path) : Says (.disassembly path) [v]
  | mode {v : String} {m : Mode} (h : readMode v = .ok m) : Says (.mode m) [v]
  | range {v w : String} {m : Mode} {start stop : Nat} (hstart : readNumber v = .ok start)
      (hstop : readNumber w = .ok stop) : Says (.range m start stop) [v, w]

/-- The words that give an option: its values follow as words, or a single one is attached to it. -/
inductive Spells (o : PrintOption) : List String → Prop
  | apart {values : List String} (h : o.Says values) (hvalues : ∀ v ∈ values, IsValue v) :
      Spells o (longWord o.name none :: values)
  | attached {v : String} (h : o.Says [v]) : Spells o [longWord o.name (some v)]

/-- The one of two options repeats the other, where an option may be given once. -/
def Clashes : PrintOption → PrintOption → Prop
  | trace _, trace _ => True
  | disassembly _, disassembly _ => True
  | mode _, mode _ => True
  | _, _ => False

def put : PrintOption → PrintSettings → PrintSettings
  | trace path, s => { s with trace := some path }
  | disassembly path, s => { s with disassembly := some path }
  | mode m, s => { s with mode := some m }
  | range m start stop, s => { s with bounds := s.bounds.push [start, stop] m }

def Fresh : PrintOption → PrintSettings → Prop
  | trace _, s => s.trace = none
  | disassembly _, s => s.disassembly = none
  | mode _, s => s.mode = none
  | range .., _ => True

theorem fresh_put {o o' : PrintOption} {s : PrintSettings} :
    o'.Fresh (o.put s) ↔ o'.Fresh s ∧ ¬ o.Clashes o' := by
  cases o <;> cases o' <;> simp [Fresh, put, Clashes]

def flag : PrintOption → Flag PrintSettings
  | trace _ => traceFlag
  | disassembly _ => printFlags[1]
  | mode _ => printFlags[2]
  | range m _ _ => rangeFlag m

theorem find?_name (o : PrintOption) : printFlags.find? (·.names.contains o.name) = some o.flag := by
  cases o with
  | range m start stop => cases m <;> rfl
  | _ => rfl

theorem name_mem (o : PrintOption) : o.name ∈ ["trace", "dict", "mode", "lo", "mid", "hi", "pc", "full"] := by
  cases o with
  | range m start stop => cases m <;> simp [name, Mode.name]
  | _ => simp [name]

theorem ofString_longWord (o : PrintOption) (value : Option String) :
    Word.ofString (longWord o.name value) = .long o.name value := by
  have hnames : ∀ s ∈ ["trace", "dict", "mode", "lo", "mid", "hi", "pc", "full"], s ≠ "" ∧ '=' ∉ s.toList := by
    decide
  obtain ⟨hne, hsign⟩ := hnames _ o.name_mem
  exact Word.ofString_longWord hne hsign value

theorem Says.arity {o : PrintOption} {values : List String} (h : o.Says values) :
    o.flag.arity = values.length ∧ values ≠ [] := by
  cases h <;> exact ⟨rfl, by simp⟩

theorem take_single {α : Type} {names : List String} {letter : Option Char} {get : PrintSettings → Option α}
    {read : String → Except UsageError α} {write : α → PrintSettings → PrintSettings} {values : List String}
    {s s' : PrintSettings} : (single names letter get read write).take values s = .ok s' ↔
      ∃ v a, values = [v] ∧ read v = .ok a ∧ get s = none ∧ s' = write a s := by
  unfold Flag.take single
  match values with
  | [] => simp
  | [v] =>
    cases hget : get s with
    | some a => simp [hget]
    | none => cases hread : read v <;> simp [hget, hread, bind, Except.bind, pure, Except.pure, eq_comm]
  | v :: w :: values => simp

theorem take_range {m : Mode} {values : List String} {s s' : PrintSettings} :
    (rangeFlag m).take values s = .ok s' ↔ ∃ v w start stop, values = [v, w] ∧ readNumber v = .ok start ∧
      readNumber w = .ok stop ∧ s' = { s with bounds := s.bounds.push [start, stop] m } := by
  unfold Flag.take rangeFlag
  match values with
  | [] => simp
  | [v] => simp
  | [v, w] =>
    cases hstart : readNumber v with
    | error e => simp [hstart, bind, Except.bind]
    | ok start =>
      cases hstop : readNumber w <;> simp [hstart, hstop, bind, Except.bind, pure, Except.pure, eq_comm]
  | v :: w :: x :: values => simp

theorem take_eq_put {o : PrintOption} {values : List String} {s : PrintSettings} (h : o.Says values)
    (hfresh : o.Fresh s) : o.flag.take values s = .ok (o.put s) := by
  cases h with
  | trace h => exact take_single.mpr ⟨_, _, rfl, h, hfresh, rfl⟩
  | disassembly h => exact take_single.mpr ⟨_, _, rfl, h, hfresh, rfl⟩
  | mode h => exact take_single.mpr ⟨_, _, rfl, h, hfresh, rfl⟩
  | range hstart hstop => exact take_range.mpr ⟨_, _, _, _, rfl, hstart, hstop, rfl⟩

theorem fresh_of_take {o : PrintOption} {values : List String} {s t : PrintSettings} (h : o.Says values)
    (htake : o.flag.take values s = .ok t) : o.Fresh s ∧ t = o.put s := by
  have hfresh : o.Fresh s := by
    cases h with
    | trace => exact (take_single.mp htake).choose_spec.choose_spec.2.2.1
    | disassembly => exact (take_single.mp htake).choose_spec.choose_spec.2.2.1
    | mode => exact (take_single.mp htake).choose_spec.choose_spec.2.2.1
    | range => exact trivial
  refine ⟨hfresh, ?_⟩
  rw [take_eq_put h hfresh] at htake
  exact (Except.ok.inj htake).symm

end PrintOption

theorem take_help {σ : Type} {values : List String} {s : σ} :
    ∃ e, (helpFlag : Flag σ).take values s = .error e := by
  unfold Flag.take helpFlag
  cases values <;> simp

/-- Whoever takes an option of a line trace takes what its values say. -/
theorem says_of_take {f : Flag PrintSettings} {name : String} {values : List String} {s s' : PrintSettings}
    (hf : printFlags.find? (·.names.contains name) = some f) (h : f.take values s = .ok s') :
    ∃ o : PrintOption, o.name = name ∧ o.Says values ∧ o.Fresh s ∧ s' = o.put s := by
  have hname := List.find?_some hf
  have hmem : f ∈ printFlags := List.mem_of_find?_eq_some hf
  simp only [printFlags, List.mem_append, List.mem_cons, List.not_mem_nil, or_false, List.mem_map] at hmem
  rcases hmem with ((rfl | rfl | rfl) | ⟨m, -, rfl⟩) | rfl
  · obtain ⟨v, path, rfl, hread, hfresh, rfl⟩ := PrintOption.take_single.mp h
    exact ⟨.trace path, by simpa [traceFlag, single, PrintOption.name, eq_comm] using hname, .trace hread,
      hfresh, rfl⟩
  · obtain ⟨v, path, rfl, hread, hfresh, rfl⟩ := PrintOption.take_single.mp h
    exact ⟨.disassembly path, by simpa [single, PrintOption.name, eq_comm] using hname,
      .disassembly hread, hfresh, rfl⟩
  · obtain ⟨v, m, rfl, hread, hfresh, rfl⟩ := PrintOption.take_single.mp h
    exact ⟨.mode m, by simpa [single, PrintOption.name, eq_comm] using hname, .mode hread, hfresh, rfl⟩
  · obtain ⟨v, w, start, stop, rfl, hstart, hstop, rfl⟩ := PrintOption.take_range.mp h
    exact ⟨.range m start stop, by simpa [rangeFlag, PrintOption.name, eq_comm] using hname,
      .range hstart hstop, trivial, rfl⟩
  · obtain ⟨e, he⟩ : ∃ e, helpFlag.take values s = .error e := take_help
    rw [he] at h
    cases h

/-! ## Rows of options -/

/-- The words give the options, in their order. Behind the last one there may be the two dashes that end
options. -/
inductive Typed : List PrintOption → List String → Prop
  | nil : Typed [] []
  | separator : Typed [] ["--"]
  | cons {o : PrintOption} {os : List PrintOption} {ws ws' : List String} (h : o.Spells ws)
      (hs : Typed os ws') : Typed (o :: os) (ws ++ ws')

def putAll (os : List PrintOption) (s : PrintSettings) : PrintSettings :=
  os.foldl (fun s o => o.put s) s

def Addable : List PrintOption → PrintSettings → Prop
  | [], _ => True
  | o :: os, s => o.Fresh s ∧ Addable os (o.put s)

theorem addable_iff {os : List PrintOption} : ∀ {s : PrintSettings},
    Addable os s ↔ (∀ o ∈ os, o.Fresh s) ∧ os.Pairwise fun o o' => ¬ o.Clashes o' := by
  induction os with
  | nil => simp [Addable]
  | cons o os ih =>
    intro s
    simp only [Addable, ih, PrintOption.fresh_put, List.forall_mem_cons, List.pairwise_cons, forall_and]
    tauto

section
variable {os : List PrintOption} {ws : List String} {s s' : PrintSettings}

/-- An option in front of words is taken with them, or at once if its value is attached. -/
theorem words_of_spells {o : PrintOption} (h : o.Spells ws) {scan : Scan PrintSettings}
    (hs : scan.settle = .ok s) (ws' : List String) : ∃ values, o.Says values ∧
      (Scan.words printFlags (ws ++ ws') scan = Scan.words printFlags ws' ⟨s, some (o.flag, values)⟩ ∨
        Scan.words printFlags (ws ++ ws') scan = do
          let t ← o.flag.take values s
          Scan.words printFlags ws' ⟨t, none⟩) := by
  cases h with
  | @apart values h hvalues =>
    obtain ⟨harity, hne⟩ := h.arity
    refine ⟨values, h, .inl ?_⟩
    rw [List.cons_append, words_apart (o.ofString_longWord none) o.find?_name harity hne
      (fun v hv => Word.ofString_value (hvalues v hv)) hs]
  | @attached v h =>
    obtain ⟨harity, -⟩ := h.arity
    refine ⟨[v], h, .inr ?_⟩
    rw [List.singleton_append, Scan.words, o.ofString_longWord]
    simp only [o.find?_name, Scan.start, harity, hs, bind, Except.bind, pure, Except.pure,
      List.length_singleton]
    cases o.flag.take [v] s <;> rfl

/-- Options are read as they are typed, whatever option is waiting for its values. -/
theorem words_of_typed (h : Typed os ws) : ∀ {scan : Scan PrintSettings} {s : PrintSettings},
    scan.settle = .ok s → Addable os s → Scan.words printFlags ws scan = .ok (putAll os s) := by
  induction h with
  | nil => exact fun hs _ => hs
  | separator => exact fun hs _ => hs
  | @cons o os ws ws' h _ ih =>
    intro scan s hs hadd
    obtain ⟨values, hsays, hwords | hwords⟩ := words_of_spells h hs ws'
    · rw [hwords]
      exact ih (PrintOption.take_eq_put hsays hadd.1) hadd.2
    · rw [hwords, PrintOption.take_eq_put hsays hadd.1]
      exact ih rfl hadd.2

end

section
variable {σ : Type} {flags : List (Flag σ)} {scan next : Scan σ} {t : σ} {e : UsageError}

theorem start_of_settle (h : scan.settle = .ok t) (f : Flag σ) (value : Option String) :
    scan.start f value = Scan.start ⟨t, none⟩ f value := by
  unfold Scan.start
  rw [h]
  rfl

theorem start_of_not_settle (h : scan.settle = .error e) (f : Flag σ) (value : Option String) :
    ∃ e', scan.start f value = .error e' := by
  unfold Scan.start
  rw [h]
  split <;> exact ⟨_, rfl⟩

theorem letters_of_settle (h : scan.settle = .ok t) (c : Char) (cs : List Char) :
    Scan.letters flags (c :: cs) scan = Scan.letters flags (c :: cs) ⟨t, none⟩ := by
  simp only [Scan.letters, start_of_settle h]

theorem letters_of_not_settle (h : scan.settle = .error e) (c : Char) (cs : List Char) :
    ∃ e', Scan.letters flags (c :: cs) scan = .error e' := by
  have herror : ∀ f value, ∃ e', scan.start f value = .error e' := start_of_not_settle h
  simp only [Scan.letters]
  split
  · exact ⟨_, rfl⟩
  · rename_i f hf
    split
    · obtain ⟨e', he'⟩ := herror f none
      exact ⟨e', by rw [he']; rfl⟩
    · exact herror _ _
    · exact herror _ _
    · exact herror _ _

theorem Word.letters_ne_nil {w : String} : Word.ofString w ≠ .letters [] := by
  unfold Word.ofString
  split
  · exact nofun
  · split <;> exact nofun
  · exact nofun
  · exact nofun

theorem words_of_settle {w : String} {ws : List String} (hw : ∀ v, Word.ofString w ≠ .plain v)
    (hs : scan.settle = .ok t) : Scan.words flags (w :: ws) scan = Scan.words flags (w :: ws) ⟨t, none⟩ := by
  rw [Scan.words, Scan.words]
  cases hword : Word.ofString w with
  | separator =>
    simp only [hs]
    rfl
  | long name value => simp only [start_of_settle hs]
  | letters cs =>
    cases cs with
    | nil => exact absurd hword Word.letters_ne_nil
    | cons c cs => simp only [letters_of_settle hs]
  | plain v => exact absurd hword (hw v)

theorem words_of_not_settle {w : String} {ws : List String} (hw : ∀ v, Word.ofString w ≠ .plain v)
    (hs : scan.settle = .error e) : ∃ e', Scan.words flags (w :: ws) scan = .error e' := by
  rw [Scan.words]
  cases hword : Word.ofString w with
  | separator =>
    simp only [hs]
    split <;> exact ⟨_, rfl⟩
  | long name value =>
    dsimp only
    split
    · exact ⟨_, rfl⟩
    · rename_i f hf
      obtain ⟨e', he'⟩ := start_of_not_settle hs f value
      exact ⟨e', by rw [he']; rfl⟩
  | letters cs =>
    cases cs with
    | nil => exact absurd hword Word.letters_ne_nil
    | cons c cs =>
      -- The pending option is settled at the first letter, before any other is looked at.
      obtain ⟨e', he'⟩ : ∃ e', Scan.letters flags (c :: cs) scan = .error e' := letters_of_not_settle hs c cs
      exact ⟨e', by simp only [he']; rfl⟩
  | plain v => exact absurd hword (hw v)

/-- Before a word that is no value, the option that waits for values is taken. -/
theorem settle_of_words {w : String} {ws : List String} {s' : σ} (hw : ∀ v, Word.ofString w ≠ .plain v)
    (h : Scan.words flags (w :: ws) scan = .ok s') :
    ∃ t, scan.settle = .ok t ∧ Scan.words flags (w :: ws) ⟨t, none⟩ = .ok s' := by
  cases hs : scan.settle with
  | ok t => exact ⟨t, rfl, words_of_settle hw hs ▸ h⟩
  | error e =>
    obtain ⟨e', he'⟩ : ∃ e', Scan.words flags (w :: ws) scan = .error e' := words_of_not_settle hw hs
    rw [he'] at h
    cases h

/-- An option that waits for values takes those that follow, and then the words go on without it. -/
theorem words_pending {f : Flag σ} {s s' : σ} {ws : List String} : ∀ {values : List String},
    Scan.words flags ws ⟨s, some (f, values)⟩ = .ok s' →
    ∃ vs ws' t, ws = vs ++ ws' ∧ (∀ v ∈ vs, IsValue v) ∧ f.take (values ++ vs) s = .ok t ∧
      Scan.words flags ws' ⟨t, none⟩ = .ok s' := by
  induction ws with
  | nil =>
    intro values h
    exact ⟨[], [], s', rfl, nofun, by rwa [List.append_nil], rfl⟩
  | cons w ws ih =>
    intro values h
    by_cases hplain : ∃ v, Word.ofString w = .plain v
    · obtain ⟨v, hv⟩ := hplain
      obtain ⟨rfl, hvalue⟩ := Word.ofString_eq_plain hv
      rw [Scan.words, hv] at h
      simp only [Scan.value] at h
      split at h
      · obtain ⟨vs, ws', t, rfl, hvs, htake, hrest⟩ := ih h
        refine ⟨w :: vs, ws', t, rfl, List.forall_mem_cons.mpr ⟨hvalue, hvs⟩, ?_, hrest⟩
        rwa [List.append_assoc] at htake
      · cases h
    · obtain ⟨t, hsettle, hrest⟩ := settle_of_words (fun v hv => hplain ⟨v, hv⟩) h
      exact ⟨[], w :: ws, t, rfl, nofun, by rwa [List.append_nil], hrest⟩

end

theorem settle_of_typed {os : List PrintOption} {ws : List String} (h : Typed os ws) {scan : Scan PrintSettings}
    {s' : PrintSettings} (hwords : Scan.words printFlags ws scan = .ok s') : ∃ t, scan.settle = .ok t := by
  cases h with
  | nil => exact ⟨s', hwords⟩
  | separator => exact ⟨s', hwords⟩
  | @cons o os ws ws' h hs =>
    have hplain : ∀ value v, Word.ofString (longWord o.name value) ≠ .plain v := by
      intro value v hv
      rw [o.ofString_longWord] at hv
      cases hv
    cases h with
    | apart => exact (settle_of_words (hplain none) hwords).imp fun t ht => ht.1
    | @attached v h => exact (settle_of_words (hplain (some v)) hwords).imp fun t ht => ht.1

/-- Where options are accepted, none of them is repeated that may be given once. -/
theorem addable_of_words {os : List PrintOption} {ws : List String} {s' : PrintSettings} (h : Typed os ws) :
    ∀ {scan : Scan PrintSettings} {s : PrintSettings}, scan.settle = .ok s →
      Scan.words printFlags ws scan = .ok s' → Addable os s := by
  induction h with
  | nil => exact fun _ _ => trivial
  | separator => exact fun _ _ => trivial
  | @cons o os ws ws' h hs ih =>
    intro scan s hsettle hwords
    obtain ⟨values, hsays, heq | heq⟩ := words_of_spells h hsettle ws'
    · rw [heq] at hwords
      obtain ⟨t, ht⟩ := settle_of_typed hs hwords
      obtain ⟨hfresh, rfl⟩ := PrintOption.fresh_of_take hsays ht
      exact ⟨hfresh, ih ht hwords⟩
    · rw [heq] at hwords
      -- The value is attached, so that the option is taken at once.
      cases htake : o.flag.take values s with
      | error e =>
        rw [htake] at hwords
        cases hwords
      | ok t =>
        rw [htake] at hwords
        obtain ⟨hfresh, rfl⟩ := PrintOption.fresh_of_take hsays htake
        exact ⟨hfresh, ih rfl hwords⟩

/-- No letter begins an option of a line trace, but the one that asks for help. -/
theorem letters_print {cs : List Char} {s : PrintSettings} (hcs : cs ≠ []) :
    ∃ e, Scan.letters printFlags cs ⟨s, none⟩ = .error e := by
  obtain ⟨c, cs, rfl⟩ := List.exists_cons_of_ne_nil hcs
  simp only [Scan.letters]
  split
  · exact ⟨_, rfl⟩
  · rename_i f hf
    have hletter := List.find?_some hf
    have hmem : f ∈ printFlags := List.mem_of_find?_eq_some hf
    have hhelp : f = helpFlag := by
      simp only [printFlags, List.mem_append, List.mem_cons, List.not_mem_nil, or_false, List.mem_map] at hmem
      rcases hmem with ((rfl | rfl | rfl) | ⟨m, -, rfl⟩) | rfl
      · simp [traceFlag, single] at hletter
      · simp [single] at hletter
      · simp [single] at hletter
      · simp [rangeFlag] at hletter
      · rfl
    rw [hhelp]
    exact ⟨.showHelp, rfl⟩

/-- Where a long option is accepted, it has what it needs, and the words behind its values are read with it put
in. -/
theorem option_of_words {w name : String} {value : Option String} {ws : List String} {s s' : PrintSettings}
    (hword : Word.ofString w = .long name value) (h : Scan.words printFlags (w :: ws) ⟨s, none⟩ = .ok s') :
    ∃ (o : PrintOption) (vs ws' : List String), ws = vs ++ ws' ∧ o.Spells (w :: vs) ∧ o.Fresh s ∧
      Scan.words printFlags ws' ⟨o.put s, none⟩ = .ok s' := by
  obtain rfl := Word.ofString_eq_long hword
  rw [Scan.words] at h
  simp only [hword] at h
  cases hf : printFlags.find? (·.names.contains name) with
  | none =>
    rw [hf] at h
    cases h
  | some f =>
    simp only [hf, Scan.start, Scan.settle] at h
    cases harity : f.arity with
    | zero =>
      cases value with
      | some v =>
        simp only [harity] at h
        cases h
      | none =>
        cases htake : f.take [] s with
        | error e =>
          simp only [harity, htake, bind, Except.bind] at h
          cases h
        | ok t =>
          obtain ⟨o, -, hsays, -⟩ := says_of_take hf htake
          -- Only the request for help takes no value, and nothing is read behind it.
          exact absurd rfl hsays.arity.2
    | succ arity =>
      cases value with
      | some v =>
        cases htake : f.take [v] s with
        | error e =>
          simp only [harity, htake, bind, Except.bind] at h
          cases h
        | ok t =>
          simp only [harity, htake, bind, Except.bind, pure, Except.pure] at h
          obtain ⟨o, rfl, hsays, hfresh, rfl⟩ := says_of_take hf htake
          exact ⟨o, [], ws, rfl, .attached hsays, hfresh, h⟩
      | none =>
        simp only [harity, bind, Except.bind, pure, Except.pure] at h
        obtain ⟨vs, ws', t, rfl, hvs, htake, hrest⟩ := words_pending h
        obtain ⟨o, rfl, hsays, hfresh, rfl⟩ := says_of_take hf htake
        exact ⟨o, vs, ws', rfl, .apart hsays hvs, hfresh, hrest⟩

/-- Words that are accepted give options. -/
theorem typed_of_words {s' : PrintSettings} :
    ∀ (n : Nat) {ws : List String} {s : PrintSettings}, ws.length < n →
    Scan.words printFlags ws ⟨s, none⟩ = .ok s' → ∃ os, Typed os ws ∧ Addable os s ∧ s' = putAll os s := by
  intro n
  induction n with
  | zero => exact fun hn => absurd hn (Nat.not_lt_zero _)
  | succ n ih =>
    intro ws s hn h
    cases ws with
    | nil =>
      cases h
      exact ⟨[], .nil, trivial, rfl⟩
    | cons w ws =>
      cases hword : Word.ofString w with
      | long name value =>
        obtain ⟨o, vs, ws', rfl, hspells, hfresh, hrest⟩ := option_of_words hword h
        -- The option is one word at least, so fewer words are left.
        have hshort : ws'.length < n := by
          rw [List.length_cons, List.length_append] at hn
          omega
        obtain ⟨os, htyped, hadd, hs'⟩ := ih hshort hrest
        exact ⟨o :: os, .cons hspells htyped, ⟨hfresh, hadd⟩, hs'⟩
      | separator =>
        rw [Scan.words, hword] at h
        simp only at h
        split at h
        · rename_i hempty
          cases h
          obtain rfl := List.isEmpty_iff.mp hempty
          obtain rfl := Word.ofString_eq_separator hword
          exact ⟨[], .separator, trivial, rfl⟩
        · cases h
      | plain v =>
        rw [Scan.words, hword] at h
        cases h
      | letters cs =>
        obtain ⟨e, he⟩ := letters_print (s := s) fun hnil : cs = [] => Word.letters_ne_nil (hnil ▸ hword)
        rw [Scan.words, hword] at h
        simp only [he] at h
        cases h

/-! ## Command lines -/

/-- No option is repeated that may be given once. -/
def Once (os : List PrintOption) : Prop :=
  os.Pairwise fun o o' => ¬ o.Clashes o'

def PrintSettings.options (s : PrintSettings) : PrintOptions where
  trace := s.trace.getD defaultTrace
  disassembly := s.disassembly.getD defaultDisassembly
  mode := s.mode
  bounds := s.bounds

theorem addable_blank {os : List PrintOption} : Addable os {} ↔ Once os := by
  have hfresh : ∀ o ∈ os, o.Fresh {} := by
    intro o _
    cases o <;> simp [PrintOption.Fresh]
  rw [addable_iff]
  exact and_iff_right hfresh

theorem typed_of_parsePrint {ws : List String} {o : PrintOptions} (h : parsePrint ws = .ok (.print o)) :
    (∃ os, Typed os ws) ∧ ∀ os, Typed os ws → Once os ∧ o = (putAll os {}).options := by
  obtain ⟨s, hs, ho⟩ : ∃ s, parseFlags printFlags {} ws = .ok s ∧ o = s.options := by
    unfold parsePrint at h
    cases hs : parseFlags printFlags {} ws with
    | error e => simp [hs, bind, Except.bind] at h
    | ok s =>
      simp only [hs, bind, Except.bind, pure, Except.pure, Except.ok.injEq, Command.print.injEq] at h
      exact ⟨s, rfl, h.symm⟩
  obtain ⟨os, htyped, -⟩ := typed_of_words (ws.length + 1) (Nat.lt_succ_self _) hs
  refine ⟨⟨os, htyped⟩, fun os htyped => ?_⟩
  have hadd : Addable os {} := addable_of_words htyped rfl hs
  have hsame : s = putAll os {} := Except.ok.inj (hs.symm.trans (words_of_typed htyped rfl hadd))
  exact ⟨addable_blank.mp hadd, hsame ▸ ho⟩

theorem parse_typed {os : List PrintOption} {ws : List String} (h : Typed os ws) (honce : Once os) :
    parse ("print" :: ws) = .ok (.print (putAll os {}).options) := by
  have hflags : parseFlags printFlags {} ws = .ok (putAll os {}) :=
    words_of_typed h rfl (addable_blank.mpr honce)
  have hparse : ∀ ws, parse ("print" :: ws) = parsePrint ws := fun _ => rfl
  rw [hparse]
  unfold parsePrint
  rw [hflags]
  rfl

/-! ## Plain words -/

namespace PrintOption

def IsPlain : PrintOption → Prop
  | trace path => IsOperand path
  | disassembly path => IsOperand path
  | mode _ => True
  | range _ start stop => start < UInt64.size ∧ stop < UInt64.size

instance : DecidablePred IsPlain
  | trace path => inferInstanceAs (Decidable (IsOperand path))
  | disassembly path => inferInstanceAs (Decidable (IsOperand path))
  | mode _ => inferInstanceAs (Decidable True)
  | range _ start stop => inferInstanceAs (Decidable (start < UInt64.size ∧ stop < UInt64.size))

def values : PrintOption → List String
  | trace path => [path]
  | disassembly path => [path]
  | mode m => [m.name]
  | range _ start stop => [Numeral.decimal start, Numeral.decimal stop]

def words (o : PrintOption) : List String :=
  longWord o.name none :: o.values

theorem IsPlain.says {o : PrintOption} (h : o.IsPlain) : o.Says o.values := by
  cases o with
  | trace path => exact .trace (readPath_operand h)
  | disassembly path => exact .disassembly (readPath_operand h)
  | mode m => exact .mode (readMode_name m)
  | range m start stop => exact .range (readNumber_decimal h.1) (readNumber_decimal h.2)

theorem IsPlain.isOperand {o : PrintOption} (h : o.IsPlain) : ∀ v ∈ o.values, IsOperand v := by
  cases o with
  | trace path => exact fun v hv => List.mem_singleton.mp hv ▸ h
  | disassembly path => exact fun v hv => List.mem_singleton.mp hv ▸ h
  | mode m => cases m <;> decide
  | range m start stop => simp [values, isOperand_decimal]

theorem IsPlain.spells {o : PrintOption} (h : o.IsPlain) : o.Spells o.words :=
  .apart h.says fun v hv => .inr (h.isOperand v hv).2

end PrintOption

theorem typed_words {os : List PrintOption} (h : ∀ o ∈ os, o.IsPlain) :
    Typed os (os.flatMap PrintOption.words) := by
  induction os with
  | nil => exact .nil
  | cons o os ih =>
    obtain ⟨ho, hos⟩ := List.forall_mem_cons.mp h
    exact .cons ho.spells (ih hos)

/-- A command line that is accepted for a line trace gives options of which none is repeated that may be given
once, and however it is taken for options, these are what is asked for. -/
theorem typed_of_parse {ws : List String} {o : PrintOptions} (h : parse ws = .ok (.print o)) :
    ∃ ws', ws = "print" :: ws' ∧ (∃ os, Typed os ws') ∧
      ∀ os, Typed os ws' → Once os ∧ o = (putAll os {}).options := by
  unfold parse at h
  split at h
  · cases h
  · rename_i ws'
    unfold parseCompress at h
    cases hs : parseFlags compressFlags {} ws' with
    | error e => simp [hs, bind, Except.bind] at h
    | ok s => cases hi : require s.input <;> simp [hs, hi, bind, Except.bind, pure, Except.pure] at h
  · rename_i ws'
    unfold parseCompressAsm at h
    cases hs : parseFlags compressAsmFlags {} ws' with
    | error e => simp [hs, bind, Except.bind] at h
    | ok s => cases hi : require s.input <;> simp [hs, hi, bind, Except.bind, pure, Except.pure] at h
  · rename_i ws'
    exact ⟨ws', rfl, typed_of_parsePrint h⟩
  · rename_i ws'
    unfold parseInfo at h
    cases hs : parseFlags infoFlags {} ws' <;> simp [hs, bind, Except.bind, pure, Except.pure] at h
  · cases h
  · cases h

end TileTrace.CommandLine
