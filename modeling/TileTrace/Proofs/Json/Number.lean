import TileTrace.Json.Number
import TileTrace.Proofs.Text.Numeral
import TileTrace.Proofs.Text.Utf8

/-!
# Reading written numbers

A whole number that was written is read as itself, if nothing behind it goes on with it. Where a number
stands in front of a quote, what is behind the quote does not count.
-/

namespace TileTrace.Json.Number

open Snapshot

/-! ## Digits -/

def decimalBytes (n : Nat) : List UInt8 := Utf8.encode (Numeral.write 10 n)

theorem encode_digits : ∀ {cs : List Char}, Numeral.Digits 10 cs →
    Utf8.encode cs = cs.map fun c => UInt8.ofNat c.toNat
  | [], _ => rfl
  | c :: cs, h => by
    obtain ⟨d, hd, rfl⟩ := h c List.mem_cons_self
    have hlt : (Numeral.digitChar d).toNat < 0x80 := by
      rw [Numeral.toNat_digitChar d (by omega)]
      split <;> omega
    have ih := encode_digits fun x hx => h x (List.mem_cons_of_mem _ hx)
    simp only [Utf8.encode, List.flatMap_cons, List.map_cons] at ih ⊢
    rw [Utf8.utf8EncodeChar_ascii hlt, ih]
    rfl

theorem toNat_digit {d : Nat} (hd : d < 10) :
    (UInt8.ofNat (Numeral.digitChar d).toNat).toNat = 0x30 + d := by
  rw [Numeral.toNat_digitChar d (by omega), if_pos hd]
  exact Utf8.toNat_ofNat (by omega)

theorem isDigit_iff {b : UInt8} : isDigit b = true ↔ 0x30 ≤ b.toNat ∧ b.toNat ≤ 0x39 := by
  simp only [isDigit, Bool.and_eq_true, decide_eq_true_eq, UInt8.le_iff_toNat_le]
  rfl

theorem isDigit_of_mem {cs : List Char} (h : Numeral.Digits 10 cs) :
    ∀ b ∈ Utf8.encode cs, isDigit b = true := by
  rw [encode_digits h]
  intro b hb
  obtain ⟨c, hc, rfl⟩ := List.mem_map.mp hb
  obtain ⟨d, hd, rfl⟩ := h c hc
  rw [isDigit_iff, toNat_digit hd]
  omega

theorem fill_of_readDigits {bound : Nat} : ∀ {cs : List Char} {acc n : Nat} (used : Nat),
    Numeral.Digits 10 cs → Numeral.readDigits 10 bound acc cs = .ok n →
    fill bound acc used (cs.map fun c => UInt8.ofNat c.toNat) = (n, used + cs.length)
  | [], acc, n, used, _, h => by
    simp only [Numeral.readDigits, Except.ok.injEq] at h
    rw [h]
    rfl
  | c :: cs, acc, n, used, hcs, h => by
    obtain ⟨d, hd, rfl⟩ := hcs c List.mem_cons_self
    have hsub : (UInt8.ofNat (Numeral.digitChar d).toNat).toNat - 0x30 = d := by
      rw [toNat_digit hd]
      omega
    simp only [Numeral.readDigits, Numeral.digit?_digitChar hd (show d < 16 by omega)] at h
    split at h
    · rename_i hlt
      simp only [List.map_cons, fill, hsub, List.length_cons]
      rw [if_pos hlt, fill_of_readDigits (used + 1) (fun x hx => hcs x (List.mem_cons_of_mem _ hx)) h,
        Nat.add_assoc, Nat.add_comm 1]
    · cases h

theorem fill_decimalBytes {bound n : Nat} (h : n < bound) :
    fill bound 0 0 (decimalBytes n) = (n, (decimalBytes n).length) := by
  have hd : Numeral.Digits 10 (Numeral.write 10 n) := Numeral.digits_write (by omega) n
  rw [decimalBytes, encode_digits hd, List.length_map,
    fill_of_readDigits 0 hd (Numeral.readDigits_write (by omega) (by omega) h), Nat.zero_add]

theorem decimalBytes_head (n : Nat) : ∃ d ds, decimalBytes n = UInt8.ofNat (Numeral.digitChar d).toNat :: ds ∧
    d < 10 ∧ (d = 0 → ds = []) := by
  have hd : Numeral.Digits 10 (Numeral.write 10 n) := Numeral.digits_write (by omega) n
  rw [decimalBytes, encode_digits hd]
  rcases Nat.eq_zero_or_pos n with rfl | hn
  · exact ⟨0, [], by rw [Numeral.write_zero (by omega)]; rfl, by omega, fun _ => rfl⟩
  · obtain ⟨d, cs, hw, hpos, hlt⟩ := Numeral.write_head (show 2 ≤ 10 by omega) hn
    exact ⟨d, _, by rw [hw]; rfl, hlt, fun h0 => by omega⟩

/-! ## Whole numbers -/

/-- Nothing at the front of the bytes goes on with a number. -/
def Ends (s : List UInt8) : Prop :=
  ∀ b, s.head? = some b → isDigit b = false ∧ b ≠ 0x2e ∧ b ≠ 0x65 ∧ b ≠ 0x45

theorem Ends.takeWhile {s : List UInt8} (h : Ends s) : s.takeWhile isDigit = [] := by
  cases s with
  | nil => rfl
  | cons b s => simp [(h b rfl).1]

theorem Ends.dropWhile {s : List UInt8} (h : Ends s) : s.dropWhile isDigit = s := by
  cases s with
  | nil => rfl
  | cons b s => simp [(h b rfl).1]

theorem Ends.fraction {s : List UInt8} (h : Ends s) : fraction s = .ok ([], s) := by
  unfold Number.fraction
  split
  · rename_i s; exact absurd rfl (h 0x2e rfl).2.1
  · rfl

theorem Ends.exponent {s : List UInt8} (h : Ends s) : exponent s = .ok (none, s) := by
  cases s with
  | nil => rfl
  | cons b s =>
    obtain ⟨-, -, he, hE⟩ := h b rfl
    simp only [Number.exponent]
    rw [if_neg (by simp [he, hE])]

def unsigned (negative : Bool) (s : List UInt8) : Except Fault (Parts × List UInt8) := do
  let (w, s) ← whole s
  let (f, s) ← fraction s
  let (e, s) ← exponent s
  return (⟨negative, w, f, e⟩, s)

theorem parts_cons (b : UInt8) (s : List UInt8) :
    parts (b :: s) = if b = 0x2d then unsigned true s else unsigned false (b :: s) := by
  by_cases hb : b = 0x2d
  · subst hb
    rfl
  · rw [if_neg hb]
    unfold parts
    split
    · rename_i h
      split at h
      · rename_i hminus
        exact absurd (List.cons.inj hminus).1 hb
      · cases h
        rfl

theorem parts_digits {b : UInt8} {ds s : List UInt8} (hd : ∀ x ∈ b :: ds, isDigit x = true)
    (hzero : b = 0x30 → ds = []) (hs : Ends s) :
    parts (b :: ds ++ s) = .ok (⟨false, b :: ds, [], none⟩, s) := by
  have hminus : b ≠ 0x2d := by
    rintro rfl
    exact absurd (hd _ List.mem_cons_self) (by decide)
  have hdigits : digits1 (b :: ds ++ s) = .ok (b :: ds, s) := by
    simp only [digits1, List.takeWhile_append_of_pos hd, List.dropWhile_append_of_pos hd, hs.takeWhile,
      hs.dropWhile, List.append_nil, List.isEmpty_cons, Bool.false_eq_true, if_false]
  have hwhole : whole (b :: ds ++ s) = .ok (b :: ds, s) := by
    simp only [whole, hdigits, bind, Except.bind, List.head?_cons, Option.some.injEq, List.length_cons]
    rw [if_neg]
    · rfl
    · rintro ⟨h0, hlen⟩
      rw [hzero h0] at hlen
      exact hlen rfl
  rw [List.cons_append, parts_cons, if_neg hminus, ← List.cons_append]
  simp only [unsigned, hwhole, hs.fraction, hs.exponent, bind, Except.bind, pure, Except.pure]

theorem read_decimalBytes {n : Nat} (hn : n < UInt64.size) {s : List UInt8} (hs : Ends s) :
    read (decimalBytes n ++ s) = (.word n, s) := by
  obtain ⟨d, ds, hb, hd, hzero⟩ := decimalBytes_head n
  have hdigit : ∀ x ∈ decimalBytes n, isDigit x = true :=
    isDigit_of_mem (Numeral.digits_write (by omega) n)
  have hne : UInt8.ofNat (Numeral.digitChar d).toNat = 0x30 → ds = [] := by
    intro h
    have := congrArg UInt8.toNat h
    rw [toNat_digit hd] at this
    exact hzero (by simp only [UInt8.reduceToNat] at this; omega)
  have hparts : parts (decimalBytes n ++ s) = .ok (⟨false, decimalBytes n, [], none⟩, s) := by
    rw [hb] at hdigit ⊢
    exact parts_digits hdigit hne hs
  simp [read, hparts, node, fill_decimalBytes hn]

/-! ## Numbers that break off -/

theorem digits1_ok {s : List UInt8} {x : List UInt8 × List UInt8} (h : digits1 s = .ok x) :
    x.2 = s.dropWhile isDigit := by
  simp only [digits1] at h
  split at h
  · cases h
  · cases h; rfl

theorem whole_ok {s w r : List UInt8} (h : whole s = .ok (w, r)) : r = s.dropWhile isDigit := by
  simp only [whole, bind, Except.bind] at h
  split at h
  · cases h
  · rename_i x hx
    split at h
    · cases h
    · cases h; exact digits1_ok hx

theorem read_digits_rest {s : List UInt8} (hd : ∀ b ∈ s, isDigit b = true) : (read s).2 = [] := by
  have hdrop : s.dropWhile isDigit = [] := by
    have h : (s ++ []).dropWhile isDigit = [].dropWhile isDigit := List.dropWhile_append_of_pos hd
    rwa [List.append_nil] at h
  unfold read
  split
  · rename_i p r h
    cases s with
    | nil => cases h
    | cons b s =>
      have hminus : b ≠ 0x2d := by
        rintro rfl
        exact absurd (hd _ List.mem_cons_self) (by decide)
      rw [parts_cons, if_neg hminus] at h
      simp only [unsigned, bind, Except.bind] at h
      split at h
      · cases h
      · rename_i x hx
        rw [whole_ok hx, hdrop] at h
        cases h
        rfl
  · rfl

/-! ## Numbers in front of a quote -/

def StopsAtQuote {α : Type} (f : List UInt8 → Except Fault (α × List UInt8)) : Prop :=
  ∀ s, 0x22 ∈ s → (∀ q, f (s ++ q) = (f s).map fun x => (x.1, x.2 ++ q)) ∧
    ∀ x, f s = .ok x → 0x22 ∈ x.2

theorem StopsAtQuote.pure {α : Type} (a : α) : StopsAtQuote fun s => .ok (a, s) := by
  intro s hs
  exact ⟨fun q => rfl, fun x hx => by cases hx; exact hs⟩

theorem StopsAtQuote.bind {α β : Type} {f : List UInt8 → Except Fault (α × List UInt8)}
    {g : α → List UInt8 → Except Fault (β × List UInt8)} (hf : StopsAtQuote f)
    (hg : ∀ a, StopsAtQuote (g a)) : StopsAtQuote fun s => f s >>= fun x => g x.1 x.2 := by
  intro s hs
  obtain ⟨happ, hrest⟩ := hf s hs
  cases hx : f s with
  | error e =>
    refine ⟨fun q => ?_, fun x h => ?_⟩
    · simp only [happ, hx]; rfl
    · simp only [hx] at h; cases h
  | ok x =>
    obtain ⟨happ', hrest'⟩ := hg x.1 x.2 (hrest x hx)
    refine ⟨fun q => ?_, fun y h => ?_⟩
    · simp only [happ, hx]; exact happ' q
    · simp only [hx] at h; exact hrest' y h

theorem quote_mem_dropWhile {s : List UInt8} (h : 0x22 ∈ s) : 0x22 ∈ s.dropWhile isDigit := by
  induction s with
  | nil => cases h
  | cons b s ih =>
    rw [List.dropWhile_cons]
    split
    · rename_i hb
      rcases List.mem_cons.mp h with rfl | h
      · exact absurd hb (by decide)
      · exact ih h
    · exact h

theorem stopsAtQuote_digits1 : StopsAtQuote digits1 := by
  intro s hs
  have hmem := quote_mem_dropWhile hs
  have hne : s.dropWhile isDigit ≠ [] := List.ne_nil_of_mem hmem
  have hlen : (s.takeWhile isDigit).length ≠ s.length := by
    intro h
    have := congrArg List.length (List.takeWhile_append_dropWhile (p := isDigit) (l := s))
    rw [List.length_append, h] at this
    exact hne (List.length_eq_zero_iff.mp (by omega))
  refine ⟨fun q => ?_, fun x hx => digits1_ok hx ▸ hmem⟩
  simp only [digits1, List.takeWhile_append, if_neg hlen, List.dropWhile_append]
  by_cases hd : (s.takeWhile isDigit).isEmpty <;> simp [hd, hne, broken, Except.map]

theorem stopsAtQuote_whole : StopsAtQuote whole := by
  show StopsAtQuote fun s => digits1 s >>= fun x =>
    if x.1.head? = some 0x30 ∧ x.1.length ≠ 1 then .error .badSyntax else .ok (x.1, x.2)
  refine stopsAtQuote_digits1.bind (g := fun ds s =>
    if ds.head? = some 0x30 ∧ ds.length ≠ 1 then .error .badSyntax else .ok (ds, s)) fun ds => ?_
  by_cases h : ds.head? = some 0x30 ∧ ds.length ≠ 1
  · intro s hs
    simp only [if_pos h]
    exact ⟨fun q => rfl, fun x hx => by cases hx⟩
  · simp only [if_neg h]
    exact StopsAtQuote.pure ds

theorem stopsAtQuote_fraction : StopsAtQuote fraction := by
  intro s hs
  cases s with
  | nil => cases hs
  | cons b s =>
    by_cases hb : b = 0x2e
    · subst hb
      exact stopsAtQuote_digits1 s ((List.mem_cons.mp hs).resolve_left (by decide))
    · have hf : ∀ r, fraction (b :: r) = .ok ([], b :: r) := by
        intro r
        unfold fraction
        split
        · rename_i h; exact absurd (List.cons.inj h).1 hb
        · rfl
      rw [hf]
      exact ⟨fun q => hf (s ++ q), fun x hx => by cases hx; exact hs⟩

def exponentSign (s : List UInt8) : Except Fault (Bool × List UInt8) :=
  .ok (match s with
    | 0x2b :: s => (false, s)
    | 0x2d :: s => (true, s)
    | s => (false, s))

theorem exponentSign_cons {b : UInt8} (hplus : b ≠ 0x2b) (hminus : b ≠ 0x2d) (s : List UInt8) :
    exponentSign (b :: s) = .ok (false, b :: s) := by
  unfold exponentSign
  split
  · rename_i h; exact absurd (List.cons.inj h).1 hplus
  · rename_i h; exact absurd (List.cons.inj h).1 hminus
  · rfl

theorem stopsAtQuote_exponentSign : StopsAtQuote exponentSign := by
  intro s hs
  cases s with
  | nil => cases hs
  | cons b s =>
    by_cases hp : b = 0x2b
    · subst hp
      have hmem : 0x22 ∈ s := (List.mem_cons.mp hs).resolve_left (by decide)
      exact ⟨fun q => rfl, fun x hx => by cases hx; exact hmem⟩
    by_cases hm : b = 0x2d
    · subst hm
      have hmem : 0x22 ∈ s := (List.mem_cons.mp hs).resolve_left (by decide)
      exact ⟨fun q => rfl, fun x hx => by cases hx; exact hmem⟩
    · have hsign := exponentSign_cons hp hm
      rw [hsign]
      exact ⟨fun q => hsign (s ++ q), fun x hx => by cases hx; exact hs⟩

theorem exponent_cons {b : UInt8} (h : b = 0x65 ∨ b = 0x45) (s : List UInt8) :
    exponent (b :: s) = exponentSign s >>= fun x => digits1 x.2 >>= fun y => .ok (some (x.1, y.1), y.2) := by
  simp only [exponent]
  rw [if_pos h]
  rfl

theorem stopsAtQuote_exponent : StopsAtQuote exponent := by
  intro s hs
  cases s with
  | nil => cases hs
  | cons b s =>
    by_cases hb : b = 0x65 ∨ b = 0x45
    · have he := exponent_cons hb
      have hstop := stopsAtQuote_exponentSign.bind fun a =>
        stopsAtQuote_digits1.bind fun ds => StopsAtQuote.pure (some (a, ds))
      have hmem : 0x22 ∈ s := (List.mem_cons.mp hs).resolve_left (by rintro rfl; simp at hb)
      rw [he]
      exact ⟨fun q => (he (s ++ q)).trans ((hstop s hmem).1 q), (hstop s hmem).2⟩
    · have he : ∀ r, exponent (b :: r) = .ok (none, b :: r) := by
        intro r
        simp only [exponent]
        rw [if_neg hb]
      rw [he]
      exact ⟨fun q => he (s ++ q), fun x hx => by cases hx; exact hs⟩

theorem stopsAtQuote_unsigned (negative : Bool) : StopsAtQuote (unsigned negative) :=
  stopsAtQuote_whole.bind fun w => stopsAtQuote_fraction.bind fun f =>
    stopsAtQuote_exponent.bind fun e => StopsAtQuote.pure (Parts.mk negative w f e)

theorem stopsAtQuote_parts : StopsAtQuote parts := by
  intro s hs
  cases s with
  | nil => cases hs
  | cons b s =>
    by_cases hb : b = 0x2d
    · have hmem : 0x22 ∈ s := (List.mem_cons.mp hs).resolve_left (by rintro rfl; cases hb)
      have hparts : ∀ r, parts (b :: r) = unsigned true r := fun r => by rw [parts_cons, if_pos hb]
      rw [hparts]
      exact ⟨fun q => (hparts (s ++ q)).trans ((stopsAtQuote_unsigned true s hmem).1 q),
        (stopsAtQuote_unsigned true s hmem).2⟩
    · have hparts : ∀ r, parts (b :: r) = unsigned false (b :: r) := fun r => by
        rw [parts_cons, if_neg hb]
      rw [hparts]
      exact ⟨fun q => (hparts (s ++ q)).trans ((stopsAtQuote_unsigned false (b :: s) hs).1 q),
        (stopsAtQuote_unsigned false (b :: s) hs).2⟩

theorem read_append_of_quote {s : List UInt8} (h : 0x22 ∈ s) (q : List UInt8) :
    (read (s ++ q)).1 = (read s).1 ∧ (read (s ++ q)).2.head? = (read s).2.head? := by
  obtain ⟨happ, hrest⟩ := stopsAtQuote_parts s h
  simp only [read, happ]
  cases hp : parts s with
  | error f => exact ⟨rfl, rfl⟩
  | ok x =>
    have hne : x.2 ≠ [] := List.ne_nil_of_mem (hrest x hp)
    refine ⟨rfl, ?_⟩
    simp only [Except.map, List.head?_append]
    cases hx : x.2 with
    | nil => exact absurd hx hne
    | cons c r => rfl

end TileTrace.Json.Number
