import TileTrace.Proofs.Json.Document

/-!
# The ways to write JSON

JSON texts as their grammar has them: white space around values and marks, numbers with a fraction and an
exponent, strings with any escapes. Whatever is written in this way is met as one tree with nothing behind
it, and one who does not want a value gets past it.
-/

namespace TileTrace.Json

open Snapshot

/-! ## Numbers -/

namespace Number

def IsDigits (ds : List UInt8) : Prop :=
  ds ≠ [] ∧ ∀ b ∈ ds, isDigit b = true

def IsWhole (ds : List UInt8) : Prop :=
  IsDigits ds ∧ (ds.head? = some 0x30 → ds = [0x30])

inductive SpellsFraction : List UInt8 → List UInt8 → Prop
  | none : SpellsFraction [] []
  | point {ds : List UInt8} (h : IsDigits ds) : SpellsFraction ds (0x2e :: ds)

inductive SpellsSign : Bool → List UInt8 → Prop
  | bare : SpellsSign false []
  | plus : SpellsSign false [0x2b]
  | minus : SpellsSign true [0x2d]

inductive SpellsExponent : Option (Bool × List UInt8) → List UInt8 → Prop
  | none : SpellsExponent none []
  | some {e : UInt8} {down : Bool} {sign ds : List UInt8} (he : e = 0x65 ∨ e = 0x45)
      (hsign : SpellsSign down sign) (h : IsDigits ds) : SpellsExponent (some (down, ds)) (e :: (sign ++ ds))

inductive SpellsUnsigned (negative : Bool) : Parts → List UInt8 → Prop
  | mk {w f fs : List UInt8} {e : Option (Bool × List UInt8)} {es : List UInt8} (hw : IsWhole w)
      (hf : SpellsFraction f fs) (he : SpellsExponent e es) :
      SpellsUnsigned negative ⟨negative, w, f, e⟩ (w ++ (fs ++ es))

inductive Spells : Parts → List UInt8 → Prop
  | positive {p : Parts} {s : List UInt8} (h : SpellsUnsigned false p s) : Spells p s
  | negative {p : Parts} {s : List UInt8} (h : SpellsUnsigned true p s) : Spells p (0x2d :: s)

def EndsDigits (s : List UInt8) : Prop :=
  ∀ b, s.head? = some b → isDigit b = false

section
variable {ds f fs es s r : List UInt8} {e : Option (Bool × List UInt8)} {p : Parts} {negative : Bool}

theorem Ends.endsDigits (h : Ends r) : EndsDigits r :=
  fun b hb => (h b hb).1

theorem digits1_append (h : IsDigits ds) (hr : EndsDigits r) : digits1 (ds ++ r) = .ok (ds, r) := by
  have htake : r.takeWhile isDigit = [] := by
    cases r with
    | nil => rfl
    | cons b r => simp [hr b rfl]
  have hdrop : r.dropWhile isDigit = r := by
    cases r with
    | nil => rfl
    | cons b r => simp [hr b rfl]
  simp only [digits1, List.takeWhile_append_of_pos h.2, List.dropWhile_append_of_pos h.2, htake, hdrop,
    List.append_nil, List.isEmpty_iff, h.1, if_false]

theorem whole_append (h : IsWhole ds) (hr : EndsDigits r) : whole (ds ++ r) = .ok (ds, r) := by
  have hzero : ¬ (ds.head? = some 0x30 ∧ ds.length ≠ 1) := by
    intro ⟨hhead, hlength⟩
    rw [h.2 hhead] at hlength
    exact hlength rfl
  simp only [whole, digits1_append h.1 hr, bind, Except.bind, if_neg hzero]
  rfl

theorem fraction_append (h : SpellsFraction f fs) (hr : EndsDigits r)
    (hpoint : ∀ b, r.head? = some b → b ≠ 0x2e) : fraction (fs ++ r) = .ok (f, r) := by
  cases h with
  | point h => exact digits1_append h hr
  | none =>
    rw [List.nil_append]
    unfold fraction
    split
    · exact absurd rfl (hpoint 0x2e rfl)
    · rfl

theorem exponentSign_append {down : Bool} {sign : List UInt8} (hsign : SpellsSign down sign) (h : IsDigits ds) :
    exponentSign (sign ++ ds ++ r) = .ok (down, ds ++ r) := by
  cases hsign with
  | plus => rfl
  | minus => rfl
  | bare =>
    obtain ⟨b, ds, rfl⟩ := List.exists_cons_of_ne_nil h.1
    have hb := isDigit_iff.mp (h.2 b List.mem_cons_self)
    have hplus : b ≠ 0x2b := by
      rintro rfl
      simp at hb
    have hminus : b ≠ 0x2d := by
      rintro rfl
      simp at hb
    exact exponentSign_cons hplus hminus (ds ++ r)

theorem exponent_append (h : SpellsExponent e es) (hr : Ends r) : exponent (es ++ r) = .ok (e, r) := by
  cases h with
  | none => exact hr.exponent
  | some he hsign h =>
    rw [List.cons_append, exponent_cons he, exponentSign_append hsign h]
    simp only [bind, Except.bind, digits1_append h hr.endsDigits]

/-- What stands behind the digits in front of an exponent goes on neither with digits nor with a point. -/
theorem head_exponent (h : SpellsExponent e es) (hr : Ends r) {b : UInt8} (hb : (es ++ r).head? = some b) :
    isDigit b = false ∧ b ≠ 0x2e := by
  cases h with
  | none => exact ⟨(hr b hb).1, (hr b hb).2.1⟩
  | some he hsign h =>
    cases hb
    rcases he with rfl | rfl <;> decide

theorem unsigned_append (h : SpellsUnsigned negative p s) (hr : Ends r) :
    unsigned negative (s ++ r) = .ok (p, r) := by
  cases h with
  | @mk w f fs e es hw hf he =>
    have hes : EndsDigits (es ++ r) := fun b hb => (head_exponent he hr hb).1
    have hfs : EndsDigits (fs ++ (es ++ r)) := by
      cases hf with
      | none => exact hes
      | point h =>
        intro b hb
        cases hb
        rfl
    have hfraction := fraction_append hf hes fun b hb => (head_exponent he hr hb).2
    simp only [List.append_assoc, unsigned, whole_append hw hfs, hfraction, exponent_append he hr, bind,
      Except.bind]
    rfl

theorem head_unsigned (h : SpellsUnsigned negative p s) : ∃ b t, s = b :: t ∧ isDigit b = true := by
  cases h with
  | mk hw hf he =>
    obtain ⟨b, ds, rfl⟩ := List.exists_cons_of_ne_nil hw.1.1
    exact ⟨b, _, rfl, hw.1.2 b List.mem_cons_self⟩

theorem parts_append (h : Spells p s) (hr : Ends r) : parts (s ++ r) = .ok (p, r) := by
  cases h with
  | negative h =>
    rw [List.cons_append, parts_cons, if_pos rfl]
    exact unsigned_append h hr
  | positive h =>
    obtain ⟨b, t, rfl, hb⟩ := head_unsigned h
    have hminus : b ≠ 0x2d := by
      rintro rfl
      cases hb
    rw [List.cons_append, parts_cons, if_neg hminus, ← List.cons_append]
    exact unsigned_append h hr

theorem read_append (h : Spells p s) (hr : Ends r) : read (s ++ r) = (node p, r) := by
  simp only [read, parts_append h hr]

theorem stop?_node (p : Parts) : (node p).stop? = none := by
  unfold node
  grind [Node.stop?]

theorem entries_node (p : Parts) : (node p).entries = [] := by
  unfold node
  grind [Node.entries]

end

end Number

/-! ## Strings -/

namespace Quoted

def IsHex (b : UInt8) : Prop :=
  (hex? b).isSome

inductive Inside : List UInt8 → Prop
  | nil : Inside []
  | plain {b : UInt8} {s : List UInt8} (hb : Plain b) (h : Inside s) : Inside (b :: s)
  | letter {b : UInt8} {s : List UInt8} (hb : b ∈ [0x22, 0x5c, 0x2f, 0x62, 0x66, 0x6e, 0x72, 0x74])
      (h : Inside s) : Inside (0x5c :: b :: s)
  | hex {a b c d : UInt8} {s : List UInt8} (ha : IsHex a) (hb : IsHex b) (hc : IsHex c) (hd : IsHex d)
      (h : Inside s) : Inside (0x5c :: 0x75 :: a :: b :: c :: d :: s)

theorem isSome_hex4 {a b c d : UInt8} (ha : IsHex a) (hb : IsHex b) (hc : IsHex c) (hd : IsHex d) :
    ∃ n, hex4 a b c d = some n := by
  obtain ⟨i, hi⟩ := Option.isSome_iff_exists.mp ha
  obtain ⟨j, hj⟩ := Option.isSome_iff_exists.mp hb
  obtain ⟨k, hk⟩ := Option.isSome_iff_exists.mp hc
  obtain ⟨l, hl⟩ := Option.isSome_iff_exists.mp hd
  exact ⟨(i * 16 + j) * 256 + k * 16 + l, by simp [hex4, hi, hj, hk, hl]⟩

theorem letter?_of_mem : ∀ b ∈ ([0x22, 0x5c, 0x2f, 0x62, 0x66, 0x6e, 0x72, 0x74] : List UInt8),
    b ≠ 0x75 ∧ ∃ e, letter? b = some e := by
  simp [letter?]

section
variable {b : UInt8} {s : List UInt8}

theorem skip_letter (hb : b ∈ [0x22, 0x5c, 0x2f, 0x62, 0x66, 0x6e, 0x72, 0x74]) (s : List UInt8) :
    skip (0x5c :: b :: s) = skip s := by
  obtain ⟨hne, e, he⟩ := letter?_of_mem b hb
  rw [skip]
  · simp [he]
  all_goals grind

theorem bytes_letter (hb : b ∈ [0x22, 0x5c, 0x2f, 0x62, 0x66, 0x6e, 0x72, 0x74]) :
    ∃ e, ∀ s, bytes (0x5c :: b :: s) = (e :: ·) <$> bytes s := by
  obtain ⟨hne, e, he⟩ := letter?_of_mem b hb
  refine ⟨e, fun s => ?_⟩
  rw [bytes]
  · simp [he]
  all_goals grind

theorem skip_inside (h : Inside s) (r : List UInt8) : skip (s ++ 0x22 :: r) = .ok r := by
  induction h with
  | nil => rfl
  | plain hb _ ih => rw [List.cons_append, skip_plain hb, ih]
  | letter hb _ ih => rw [List.cons_append, List.cons_append, skip_letter hb, ih]
  | hex ha hb hc hd _ ih =>
    obtain ⟨n, hn⟩ := isSome_hex4 ha hb hc hd
    simp only [List.cons_append, skip, hn, Option.isSome_some, if_true, ih]

def secondHalf (n : Nat) (s : List UInt8) : Except Fault (List UInt8) :=
  match s with
  | 0x5c :: 0x75 :: a :: b :: c :: d :: s =>
    match hex4 a b c d with
    | none => .error .badSyntax
    | some m =>
      if 0xdc00 ≤ m ∧ m < 0xe000 then
        (utf8 ((n - 0xd800) * 0x400 + (m - 0xdc00) + 0x10000) ++ ·) <$> bytes s
      else .error .badSyntax
  | 0x5c :: 0x75 :: _ => .error .endOfInput
  | [0x5c] => .error .endOfInput
  | [] => .error .endOfInput
  | _ => .error .badSyntax

theorem bytes_hex {a b c d : UInt8} {n : Nat} (h : hex4 a b c d = some n) (s : List UInt8) :
    bytes (0x5c :: 0x75 :: a :: b :: c :: d :: s) =
      if n < 0xd800 ∨ 0xe000 ≤ n then (utf8 n ++ ·) <$> bytes s
      else if 0xdc00 ≤ n then .error .badSyntax
      else secondHalf n s := by
  rw [bytes, h]
  rfl

/-- What stands behind the closing quote makes no difference. -/
theorem bytes_inside (h : Inside s) (r : List UInt8) :
    bytes (s ++ 0x22 :: r) = bytes (s ++ [0x22]) ∧
      ∀ n, secondHalf n (s ++ 0x22 :: r) = secondHalf n (s ++ [0x22]) := by
  induction h with
  | nil => exact ⟨rfl, fun n => rfl⟩
  | @plain b s hb _ ih =>
    constructor
    · rw [List.cons_append, List.cons_append, bytes_plain hb, bytes_plain hb, ih.1]
    · intro n
      unfold secondHalf
      grind [hb.ne_backslash]
  | @letter b s hb _ ih =>
    obtain ⟨e, he⟩ := bytes_letter hb
    obtain ⟨hne, -⟩ := letter?_of_mem b hb
    constructor
    · simp only [List.cons_append, he, ih.1]
    · intro n
      unfold secondHalf
      grind
  | hex ha hb hc hd _ ih =>
    obtain ⟨m, hm⟩ := isSome_hex4 ha hb hc hd
    constructor
    · simp only [List.cons_append, bytes_hex hm, ih.1, ih.2]
    · intro n
      simp only [List.cons_append, secondHalf, hm, ih.1]

theorem node_inside (h : Inside s) (r : List UInt8) : node (s ++ 0x22 :: r) = node (s ++ [0x22]) := by
  simp only [node, skip_inside h, (bytes_inside h r).1]

theorem stop?_node (h : Inside s) : (node (s ++ [0x22])).stop? = none := by
  simp only [node, skip_inside h]
  cases bytes (s ++ [0x22]) with
  | error f => rfl
  | ok b => cases hb : Utf8.decodeString? b <;> simp only [hb] <;> rfl

theorem entries_node (s : List UInt8) : (node s).entries = [] := by
  unfold node
  grind [Node.entries]

end

end Quoted

/-! ## Values -/

def IsBlank (w : List UInt8) : Prop :=
  ∀ b ∈ w, Token.isSpace b = true

structure WrittenKey where
  before : List UInt8
  inside : List UInt8
  behind : List UInt8
  blank_before : IsBlank before
  inside_quotes : Quoted.Inside inside
  blank_behind : IsBlank behind

namespace WrittenKey

def quoted (k : WrittenKey) : List UInt8 :=
  0x22 :: (k.inside ++ [0x22])

def bytes (k : WrittenKey) : List UInt8 :=
  k.before ++ (k.quoted ++ k.behind)

def node (k : WrittenKey) : Node :=
  let number := Token.quotedNumber (k.inside ++ [0x22])
  .key (Quoted.node (k.inside ++ [0x22])) number.1 number.2

def token (k : WrittenKey) : Token :=
  let number := Token.quotedNumber (k.inside ++ [0x22])
  .quoted (Quoted.node (k.inside ++ [0x22])) number.1 number.2

end WrittenKey

def joined : List (List UInt8) → List UInt8
  | [] => []
  | [s] => s
  | s :: t :: ss => s ++ 0x2c :: joined (t :: ss)

def entryBytes (e : WrittenKey × Node × List UInt8) : List UInt8 :=
  e.1.bytes ++ 0x3a :: e.2.2

/-- The ways to write a value that is met as a node. -/
inductive Spells : Node → List UInt8 → Prop
  | spaced {n : Node} {w s w' : List UInt8} (hw : IsBlank w) (h : Spells n s) (hw' : IsBlank w') :
      Spells n (w ++ (s ++ w'))
  | absent : Spells .absent [0x6e, 0x75, 0x6c, 0x6c]
  | yes : Spells (.flag true) [0x74, 0x72, 0x75, 0x65]
  | no : Spells (.flag false) [0x66, 0x61, 0x6c, 0x73, 0x65]
  | number {p : Number.Parts} {s : List UInt8} (h : Number.Spells p s) : Spells (Number.node p) s
  | quoted {s : List UInt8} (h : Quoted.Inside s) :
      Spells (Quoted.node (s ++ [0x22])) (0x22 :: (s ++ [0x22]))
  | emptyList {w : List UInt8} (hw : IsBlank w) : Spells (.list none [] none) (0x5b :: (w ++ [0x5d]))
  | list {v : Node × List UInt8} {vs : List (Node × List UInt8)} (h : ∀ x ∈ v :: vs, Spells x.1 x.2) :
      Spells (.list none ((v :: vs).map (·.1)) none) (0x5b :: (joined ((v :: vs).map (·.2)) ++ [0x5d]))
  | emptyMap {w : List UInt8} (hw : IsBlank w) : Spells (.map none [] none) (0x7b :: (w ++ [0x7d]))
  | map {e : WrittenKey × Node × List UInt8} {es : List (WrittenKey × Node × List UInt8)}
      (h : ∀ x ∈ e :: es, Spells x.2.1 x.2.2) :
      Spells (.map none ((e :: es).map fun x => (x.1.node, x.2.1)) none)
        (0x7b :: (joined ((e :: es).map entryBytes) ++ [0x7d]))

/-! ## Tokens -/

/-- The bytes begin with a token that opens or is a value, and their tokens put the node where a value is
due, whatever is behind them that does not go on with a number. -/
def Puts (n : Node) (s : List UInt8) : Prop :=
  ∀ r, Number.Ends r → ∃ t ts, Token.scan (s ++ r) = t :: (ts ++ Token.scan r) ∧ t ≠ .closeList ∧
    ∀ frames, (State.within .value frames).run (t :: ts) = State.put n frames

section
variable {n : Node} {w s r : List UInt8}

theorem scan_blank (hw : IsBlank w) (s : List UInt8) : Token.scan (w ++ s) = Token.scan s := by
  induction w with
  | nil => rfl
  | cons b w ih =>
    rw [List.cons_append, Token.scan, if_pos (hw b List.mem_cons_self)]
    exact ih fun x hx => hw x (List.mem_cons_of_mem b hx)

theorem ends_blank_append (hw : IsBlank w) (hr : Number.Ends r) : Number.Ends (w ++ r) := by
  cases w with
  | nil => exact hr
  | cons b w =>
    intro c hc
    cases hc
    have hb := hw b List.mem_cons_self
    simp only [Token.isSpace, Bool.or_eq_true, beq_iff_eq] at hb
    rcases hb with ((rfl | rfl) | rfl) | rfl <;> decide

theorem ends_mark {b : UInt8} (hb : b = 0x2c ∨ b = 0x3a ∨ b = 0x5d ∨ b = 0x7d) (s : List UInt8) :
    Number.Ends (b :: s) := by
  intro c hc
  cases hc
  rcases hb with rfl | rfl | rfl | rfl <;> decide

theorem Puts.spaced {w' : List UInt8} (hw : IsBlank w) (h : Puts n s) (hw' : IsBlank w') :
    Puts n (w ++ (s ++ w')) := by
  intro r hr
  have hput := h (w' ++ r) (ends_blank_append hw' hr)
  rw [List.append_assoc, List.append_assoc, scan_blank hw]
  rwa [scan_blank hw'] at hput

theorem Puts.leaf {t : Token} (hscan : ∀ r, Number.Ends r → Token.scan (s ++ r) = t :: Token.scan r)
    (ht : t ≠ .closeList) (hput : ∀ frames, (State.within .value frames).step t = State.put n frames) :
    Puts n s :=
  fun r hr => ⟨t, [], hscan r hr, ht, hput⟩

theorem next_number {b : UInt8} (h : Number.isDigit b = true ∨ b = 0x2d) (s : List UInt8) :
    Token.next b s = (.leaf (Number.read (b :: s)).1, (Number.read (b :: s)).2) := by
  rcases h with h | rfl
  · exact Token.next_digit h s
  · rfl

theorem scan_number {p : Number.Parts} (h : Number.Spells p s) (hr : Number.Ends r) :
    Token.scan (s ++ r) = .leaf (Number.node p) :: Token.scan r := by
  have hhead : ∃ b t, s = b :: t ∧ (Number.isDigit b = true ∨ b = 0x2d) := by
    cases h with
    | negative h => exact ⟨0x2d, _, rfl, .inr rfl⟩
    | positive h =>
      obtain ⟨b, t, hs, hb⟩ := Number.head_unsigned h
      exact ⟨b, t, hs, .inl hb⟩
  obtain ⟨b, t, rfl, hb⟩ := hhead
  have hspace : Token.isSpace b = false := by
    rcases hb with hb | rfl
    · exact Token.isSpace_digit hb
    · rfl
  have hread := Number.read_append h hr
  rw [List.cons_append] at hread ⊢
  rw [Token.scan_cons hspace, next_number hb, hread]

theorem next_quoted (h : Quoted.Inside s) (r : List UInt8) :
    Token.next 0x22 (s ++ 0x22 :: r) = (.quoted (Quoted.node (s ++ [0x22]))
      (Token.quotedNumber (s ++ [0x22])).1 (Token.quotedNumber (s ++ [0x22])).2, r) := by
  have hmem : (0x22 : UInt8) ∈ s ++ [0x22] := List.mem_append_right s List.mem_cons_self
  have hnumber : Token.quotedNumber (s ++ 0x22 :: r) = Token.quotedNumber (s ++ [0x22]) := by
    have happend := Token.quotedNumber_append hmem r
    rwa [List.append_assoc] at happend
  show (Token.quoted (Quoted.node (s ++ 0x22 :: r)) (Token.quotedNumber (s ++ 0x22 :: r)).1
    (Token.quotedNumber (s ++ 0x22 :: r)).2, Token.behind (s ++ 0x22 :: r)) = _
  rw [Quoted.node_inside h, hnumber, Token.behind, Quoted.skip_inside h]

end

/-! ## Lists and maps -/

theorem joined_cons {s : List UInt8} {ss : List (List UInt8)} (h : ss ≠ []) :
    joined (s :: ss) = s ++ 0x2c :: joined ss := by
  cases ss with
  | nil => exact absurd rfl h
  | cons t ss => rfl

theorem scan_mark {b : UInt8} {t : Token} (hspace : Token.isSpace b = false)
    (hnext : ∀ s, Token.next b s = (t, s)) (s : List UInt8) : Token.scan (b :: s) = t :: Token.scan s := by
  rw [Token.scan_cons hspace, hnext]

theorem scan_comma (s : List UInt8) : Token.scan (0x2c :: s) = .comma :: Token.scan s :=
  scan_mark rfl (fun _ => rfl) s

theorem scan_colon (s : List UInt8) : Token.scan (0x3a :: s) = .colon :: Token.scan s :=
  scan_mark rfl (fun _ => rfl) s

/-- The tokens of items with commas between them put their nodes into a list. -/
theorem run_items {vs : List (Node × List UInt8)} (r : List UInt8) : ∀ {v : Node × List UInt8},
    (∀ x ∈ v :: vs, Puts x.1 x.2) →
    ∃ t ts, Token.scan (joined ((v :: vs).map (·.2)) ++ 0x5d :: r) = t :: (ts ++ Token.scan (0x5d :: r)) ∧
      t ≠ .closeList ∧ ∀ items frames, (State.within .value (.list items :: frames)).run (t :: ts) =
        State.within .next (.list (((v :: vs).map (·.1)).reverse ++ items) :: frames) := by
  induction vs with
  | nil =>
    intro v h
    obtain ⟨t, ts, hscan, ht, hrun⟩ := h v List.mem_cons_self (0x5d :: r) (ends_mark (by simp) r)
    exact ⟨t, ts, hscan, ht, fun items frames => hrun (.list items :: frames)⟩
  | cons v' vs ih =>
    intro v h
    obtain ⟨t', ts', hscan', ht', hrun'⟩ := ih fun x hx => h x (List.mem_cons_of_mem v hx)
    have hends : Number.Ends (0x2c :: (joined ((v' :: vs).map (·.2)) ++ 0x5d :: r)) := ends_mark (by simp) _
    obtain ⟨t, ts, hscan, ht, hrun⟩ := h v List.mem_cons_self _ hends
    refine ⟨t, ts ++ .comma :: t' :: ts', ?_, ht, ?_⟩
    · rw [List.map_cons, joined_cons (by simp), List.append_assoc, List.cons_append, hscan,
        scan_comma, hscan']
      simp
    · -- Behind the comma the items begin anew, on a list that holds the first one already.
      intro items frames
      have hcomma : (State.put v.1 (.list items :: frames)).step .comma =
          .within .value (.list (v.1 :: items) :: frames) := rfl
      rw [← List.cons_append, State.run_append, hrun, State.run_cons, hcomma, hrun']
      simp

theorem scan_key (k : WrittenKey) (s : List UInt8) :
    Token.scan (k.bytes ++ s) = k.token :: Token.scan s := by
  rw [WrittenKey.bytes, WrittenKey.quoted, List.append_assoc, scan_blank k.blank_before]
  simp only [List.append_assoc, List.cons_append, List.nil_append]
  rw [Token.scan_cons rfl, next_quoted k.inside_quotes, scan_blank k.blank_behind]
  rfl

theorem step_key (k : WrittenKey) {place : Place} (hplace : place = .firstKey ∨ place = .key)
    (entries : List (Node × Node)) (frames : List Frame) :
    (State.within place (.map entries none :: frames)).step k.token =
      .within .colon (.map entries (some k.node) :: frames) := by
  have hstop : (Quoted.node (k.inside ++ [0x22])).stop? = none := Quoted.stop?_node k.inside_quotes
  rcases hplace with rfl | rfl <;>
    simp only [State.step, WrittenKey.token, State.stepKey, Node.stop?, hstop] <;> rfl

/-- The tokens of entries with commas between them put their nodes into a map. -/
theorem run_entries {es : List (WrittenKey × Node × List UInt8)} (r : List UInt8) :
    ∀ {e : WrittenKey × Node × List UInt8}, (∀ x ∈ e :: es, Puts x.2.1 x.2.2) →
    ∃ ts, Token.scan (joined ((e :: es).map entryBytes) ++ 0x7d :: r) = ts ++ Token.scan (0x7d :: r) ∧
      ∀ place entries frames, place = .firstKey ∨ place = .key →
        (State.within place (.map entries none :: frames)).run ts =
          State.within .next
            (.map (((e :: es).map fun x => (x.1.node, x.2.1)).reverse ++ entries) none :: frames) := by
  induction es with
  | nil =>
    intro e h
    obtain ⟨t, ts, hscan, -, hrun⟩ := h e List.mem_cons_self (0x7d :: r) (ends_mark (by simp) r)
    refine ⟨e.1.token :: .colon :: t :: ts, ?_, ?_⟩
    · simp only [List.map_cons, List.map_nil, joined, entryBytes, List.append_assoc, List.cons_append, scan_key,
        scan_colon, hscan]
    · intro place entries frames hplace
      rw [State.run_cons, step_key e.1 hplace]
      exact hrun (.map entries (some e.1.node) :: frames)
  | cons e' es ih =>
    intro e h
    obtain ⟨ts', hscan', hrun'⟩ := ih fun x hx => h x (List.mem_cons_of_mem e hx)
    have hends : Number.Ends (0x2c :: (joined ((e' :: es).map entryBytes) ++ 0x7d :: r)) :=
      ends_mark (by simp) _
    obtain ⟨t, ts, hscan, -, hrun⟩ := h e List.mem_cons_self _ hends
    refine ⟨e.1.token :: .colon :: t :: (ts ++ .comma :: ts'), ?_, ?_⟩
    · rw [List.map_cons, joined_cons (by simp)]
      simp only [entryBytes, List.append_assoc, List.cons_append, scan_key, scan_colon, hscan, scan_comma,
        hscan']
    · intro place entries frames hplace
      -- The first entry, from its key on.
      have hvalue : (State.within place (.map entries none :: frames)).run (e.1.token :: .colon :: t :: ts) =
          .within .next (.map ((e.1.node, e.2.1) :: entries) none :: frames) := by
        rw [State.run_cons, step_key e.1 hplace]
        exact hrun (.map entries (some e.1.node) :: frames)
      have hcomma : (State.within .next (.map ((e.1.node, e.2.1) :: entries) none :: frames)).step .comma =
          .within .key (.map ((e.1.node, e.2.1) :: entries) none :: frames) := rfl
      have happend : e.1.token :: .colon :: t :: (ts ++ .comma :: ts') =
          (e.1.token :: .colon :: t :: ts) ++ .comma :: ts' := rfl
      rw [happend, State.run_append, hvalue, State.run_cons, hcomma, hrun' _ _ _ (.inr rfl)]
      simp

/-! ## Values -/

theorem puts_word {n : Node} {b : UInt8} {letters : List UInt8} (hspace : Token.isSpace b = false)
    (hnext : ∀ s, Token.next b (letters ++ s) = (.leaf n, s)) (hn : n.stop? = none) :
    Puts n (b :: letters) := by
  apply Puts.leaf
  · intro r _
    rw [List.cons_append, Token.scan_cons hspace, hnext]
  · exact nofun
  · intro frames
    simp only [State.step, State.stepValue, State.putLeaf, hn]

theorem puts_number {p : Number.Parts} {s : List UInt8} (h : Number.Spells p s) : Puts (Number.node p) s := by
  apply Puts.leaf
  · intro r hr
    exact scan_number h hr
  · exact nofun
  · intro frames
    simp only [State.step, State.stepValue, State.putLeaf, Number.stop?_node]

theorem puts_quoted {s : List UInt8} (h : Quoted.Inside s) :
    Puts (Quoted.node (s ++ [0x22])) (0x22 :: (s ++ [0x22])) := by
  apply Puts.leaf
  · intro r _
    rw [List.cons_append, List.append_assoc, Token.scan_cons rfl, List.singleton_append, next_quoted h]
  · exact nofun
  · intro frames
    simp only [State.step, State.stepValue, State.putLeaf, Quoted.stop?_node h]

theorem puts_list {n : Node} {s : List UInt8}
    (h : ∀ r, ∃ ts, Token.scan (s ++ 0x5d :: r) = ts ++ Token.scan r ∧
      ∀ frames, (State.within .firstItem (.list [] :: frames)).run ts = State.put n frames) :
    Puts n (0x5b :: (s ++ [0x5d])) := by
  intro r _
  obtain ⟨ts, hscan, hrun⟩ := h r
  refine ⟨.openList, ts, ?_, nofun, hrun⟩
  rw [List.cons_append, List.append_assoc, scan_mark rfl (fun _ => rfl), List.singleton_append, hscan]

theorem puts_map {n : Node} {s : List UInt8}
    (h : ∀ r, ∃ ts, Token.scan (s ++ 0x7d :: r) = ts ++ Token.scan r ∧
      ∀ frames, (State.within .firstKey (.map [] none :: frames)).run ts = State.put n frames) :
    Puts n (0x7b :: (s ++ [0x7d])) := by
  intro r _
  obtain ⟨ts, hscan, hrun⟩ := h r
  refine ⟨.openMap, ts, ?_, nofun, hrun⟩
  rw [List.cons_append, List.append_assoc, scan_mark rfl (fun _ => rfl), List.singleton_append, hscan]

theorem puts_items {v : Node × List UInt8} {vs : List (Node × List UInt8)} (h : ∀ x ∈ v :: vs, Puts x.1 x.2) :
    Puts (.list none ((v :: vs).map (·.1)) none) (0x5b :: (joined ((v :: vs).map (·.2)) ++ [0x5d])) := by
  apply puts_list
  intro r
  obtain ⟨t, ts, hscan, ht, hrun⟩ := run_items r h
  refine ⟨t :: ts ++ [.closeList], ?_, fun frames => ?_⟩
  · rw [hscan, scan_mark rfl fun _ => rfl]
    simp
  · have hfirst : (State.within .firstItem (.list [] :: frames)).run (t :: ts) =
        (State.within .value (.list [] :: frames)).run (t :: ts) := by
      rw [State.run_cons, State.run_cons, State.step_firstItem ht]
    rw [State.run_append, hfirst, hrun]
    simp [State.run, State.step, Frame.close]

theorem puts_entries {e : WrittenKey × Node × List UInt8} {es : List (WrittenKey × Node × List UInt8)}
    (h : ∀ x ∈ e :: es, Puts x.2.1 x.2.2) :
    Puts (.map none ((e :: es).map fun x => (x.1.node, x.2.1)) none)
      (0x7b :: (joined ((e :: es).map entryBytes) ++ [0x7d])) := by
  apply puts_map
  intro r
  obtain ⟨ts, hscan, hrun⟩ := run_entries r h
  refine ⟨ts ++ [.closeMap], ?_, fun frames => ?_⟩
  · rw [hscan, scan_mark rfl fun _ => rfl]
    simp
  · rw [State.run_append, hrun .firstKey [] frames (.inl rfl)]
    simp [State.run, State.step, Frame.close]

theorem Spells.puts {n : Node} {s : List UInt8} (h : Spells n s) : Puts n s := by
  induction h with
  | spaced hw _ hw' ih => exact ih.spaced hw hw'
  | absent => exact puts_word rfl (fun _ => rfl) rfl
  | yes => exact puts_word rfl (fun _ => rfl) rfl
  | no => exact puts_word rfl (fun _ => rfl) rfl
  | number h => exact puts_number h
  | quoted h => exact puts_quoted h
  | emptyList hw =>
    apply puts_list
    intro r
    refine ⟨[.closeList], ?_, fun frames => rfl⟩
    rw [scan_blank hw, scan_mark rfl fun _ => rfl]
    rfl
  | list _ ih => exact puts_items ih
  | emptyMap hw =>
    apply puts_map
    intro r
    refine ⟨[.closeMap], ?_, fun frames => rfl⟩
    rw [scan_blank hw, scan_mark rfl fun _ => rfl]
    rfl
  | map _ ih => exact puts_entries ih

/-- Whoever does not want a well-formed value gets past it. -/
theorem Spells.stop? {n : Node} {s : List UInt8} (h : Spells n s) : n.stop? = none := by
  induction h with
  | spaced _ _ _ ih => exact ih
  | number => exact Number.stop?_node _
  | quoted h => exact Quoted.stop?_node h
  | _ => rfl

/-- Whoever does not want the value of an entry gets past it. -/
theorem Spells.passable {n : Node} {s : List UInt8} (h : Spells n s) : ∀ e ∈ n.entries, e.2.stop? = none := by
  induction h with
  | spaced _ _ _ ih => exact ih
  | number => simp [Number.entries_node]
  | quoted => simp [Quoted.entries_node]
  | map h =>
    simp only [Node.entries, List.forall_mem_map]
    intro x hx
    exact (h x hx).stop?
  | _ => simp [Node.entries]

theorem Spells.ofBytes {n : Node} {s : List UInt8} (h : Spells n s) : Document.ofBytes s = ⟨n, none⟩ := by
  obtain ⟨t, ts, hscan, -, hrun⟩ := h.puts [] nofun
  rw [List.append_nil, show Token.scan [] = [] by simp [Token.scan], List.append_nil] at hscan
  have hroot := hrun []
  rw [State.run] at hroot
  rw [Document.ofBytes, hscan, State.start, hroot]
  rfl

end TileTrace.Json
