import TileTrace.Json.Token
import TileTrace.Json.Writer
import TileTrace.Proofs.Json.Number
import TileTrace.Proofs.Json.Quoted

/-!
# The lexemes of a written document

What is written of a document is a row of lexemes: marks, words, numbers and quoted texts. Scanning gives
one token for each of them, and a lexeme that breaks off gives one token as well, which is no mark.
-/

namespace TileTrace.Json

open Snapshot

inductive Lexeme
  | openList
  | closeList
  | openMap
  | closeMap
  | comma
  | colon
  | absent
  | flag (b : Bool)
  | word (n : UInt64)
  | quoted (s : String)

namespace Lexeme

def chars : Lexeme → List Char
  | openList => ['[']
  | closeList => [']']
  | openMap => ['\x7b']
  | closeMap => ['\x7d']
  | comma => [',']
  | colon => [':']
  | absent => ['n', 'u', 'l', 'l']
  | flag true => ['t', 'r', 'u', 'e']
  | flag false => ['f', 'a', 'l', 's', 'e']
  | word n => Numeral.write 10 n.toNat
  | quoted s => Quoted.write s

def bytes (l : Lexeme) : List UInt8 := Utf8.encode l.chars

def token : Lexeme → Token
  | openList => .openList
  | closeList => .closeList
  | openMap => .openMap
  | closeMap => .closeMap
  | comma => .comma
  | colon => .colon
  | absent => .leaf .absent
  | flag b => .leaf (.flag b)
  | word n => .leaf (.word n.toNat)
  | quoted s =>
    let (number, rest) := Token.quotedNumber (Quoted.body s)
    .quoted (.text s) number rest

def isWord : Lexeme → Bool
  | word _ => true
  | _ => false

end Lexeme

/-! ## Documents as rows of lexemes -/

def keyText : Key → String
  | .name s => s
  | .number n => Numeral.decimal n.toNat

mutual

def lexemes : Value → List Lexeme
  | .absent => [.absent]
  | .flag b => [.flag b]
  | .word n => [.word n]
  | .text s => [.quoted s]
  | .list [] => [.openList, .closeList]
  | .list (v :: vs) => .openList :: (lexemes v ++ (itemLexemes vs ++ [.closeList]))
  | .map [] => [.openMap, .closeMap]
  | .map ((k, v) :: es) =>
    .openMap :: .quoted (keyText k) :: .colon :: (lexemes v ++ (entryLexemes es ++ [.closeMap]))

def itemLexemes : List Value → List Lexeme
  | [] => []
  | v :: vs => .comma :: (lexemes v ++ itemLexemes vs)

def entryLexemes : List (Key × Value) → List Lexeme
  | [] => []
  | (k, v) :: es => .comma :: .quoted (keyText k) :: .colon :: (lexemes v ++ entryLexemes es)

end

theorem escape_digits : ∀ {cs : List Char}, Numeral.Digits 10 cs → cs.flatMap Quoted.escape = cs
  | [], _ => rfl
  | c :: cs, h => by
    obtain ⟨d, hd, rfl⟩ := h c List.mem_cons_self
    have hesc : ∀ d < 10, Quoted.escape (Numeral.digitChar d) = [Numeral.digitChar d] := by decide
    rw [List.flatMap_cons, hesc d hd, escape_digits fun x hx => h x (List.mem_cons_of_mem _ hx)]
    rfl

theorem writeKey_eq (k : Key) : writeKey k = Quoted.write (keyText k) := by
  cases k with
  | name s => rfl
  | number n =>
    rw [keyText, Quoted.write, Numeral.decimal, String.toList_ofList,
      escape_digits (Numeral.digits_write (by omega) _)]
    rfl

mutual

theorem write_eq_lexemes : ∀ v : Value, write v = (lexemes v).flatMap Lexeme.chars
  | .absent => rfl
  | .flag true => rfl
  | .flag false => rfl
  | .word n => by simp [write, lexemes, Lexeme.chars]
  | .text s => by simp [write, lexemes, Lexeme.chars]
  | .list [] => rfl
  | .list (v :: vs) => by
    simp [write, lexemes, Lexeme.chars, write_eq_lexemes v, writeItems_eq_lexemes vs]
  | .map [] => rfl
  | .map ((k, v) :: es) => by
    simp [write, lexemes, Lexeme.chars, writeKey_eq, write_eq_lexemes v, writeEntries_eq_lexemes es]

theorem writeItems_eq_lexemes : ∀ vs : List Value, writeItems vs = (itemLexemes vs).flatMap Lexeme.chars
  | [] => rfl
  | v :: vs => by
    simp [writeItems, itemLexemes, Lexeme.chars, write_eq_lexemes v, writeItems_eq_lexemes vs]

theorem writeEntries_eq_lexemes : ∀ es : List (Key × Value),
    writeEntries es = (entryLexemes es).flatMap Lexeme.chars
  | [] => rfl
  | (k, v) :: es => by
    simp [writeEntries, entryLexemes, Lexeme.chars, writeKey_eq, write_eq_lexemes v,
      writeEntries_eq_lexemes es]

end

theorem encode_eq_lexemes (v : Value) : encode v = (lexemes v).flatMap Lexeme.bytes := by
  rw [encode, write_eq_lexemes, Utf8.encode, List.flatMap_assoc]
  rfl

/-! ## One lexeme -/

namespace Token

def IsValue : Token → Prop
  | leaf _ => True
  | quoted .. => True
  | _ => False

theorem scan_nil : scan [] = [] := by rw [scan]

theorem scan_cons {b : UInt8} (h : isSpace b = false) (s : List UInt8) :
    scan (b :: s) = (next b s).1 :: scan (next b s).2 := by
  rw [scan, h]
  rfl

theorem next_digit {b : UInt8} (h : Number.isDigit b = true) (s : List UInt8) :
    next b s = (leaf (Number.read (b :: s)).1, (Number.read (b :: s)).2) := by
  unfold next
  split
  iterate 10 · exact absurd h (by decide)
  rw [if_pos (.inl h)]

theorem isSpace_digit {b : UInt8} (h : Number.isDigit b = true) : isSpace b = false := by
  have hne : ∀ c : UInt8, Number.isDigit c = false → (b == c) = false := by
    intro c hc
    refine beq_eq_false_iff_ne.mpr fun e => ?_
    rw [e, hc] at h
    cases h
  simp only [isSpace, hne 0x20 rfl, hne 0x0a rfl, hne 0x0d rfl, hne 0x09 rfl, Bool.or_self]

theorem quotedNumber_append {s : List UInt8} (h : 0x22 ∈ s) (q : List UInt8) :
    quotedNumber (s ++ q) = quotedNumber s := by
  obtain ⟨hnode, hrest⟩ := Number.read_append_of_quote h q
  cases s with
  | nil => cases h
  | cons b s =>
    rw [List.cons_append] at hnode hrest
    simp only [quotedNumber, List.cons_append, hnode, hrest]

end Token

namespace Lexeme

theorem quoted_bytes (s : String) : (quoted s).bytes = 0x22 :: Quoted.body s :=
  Quoted.encode_write s

theorem scan_quoted (s : String) (rest : List UInt8) :
    Token.scan ((quoted s).bytes ++ rest) = (quoted s).token :: Token.scan rest := by
  have hmem : (0x22 : UInt8) ∈ Quoted.body s := List.mem_append_right _ List.mem_cons_self
  have hnext : Token.next 0x22 (Quoted.body s ++ rest) = ((quoted s).token, rest) := by
    show (Token.quoted (Quoted.node (Quoted.body s ++ rest)) (Token.quotedNumber (Quoted.body s ++ rest)).1
      (Token.quotedNumber (Quoted.body s ++ rest)).2, Token.behind (Quoted.body s ++ rest)) = _
    rw [Quoted.node_body_append, Token.quotedNumber_append hmem, Token.behind, Quoted.skip_body_append]
    rfl
  rw [quoted_bytes, List.cons_append, Token.scan_cons rfl, hnext]

theorem scan_word (n : UInt64) {rest : List UInt8} (h : Number.Ends rest) :
    Token.scan ((word n).bytes ++ rest) = (word n).token :: Token.scan rest := by
  have hread := Number.read_decimalBytes n.toNat_lt_size h
  have hdigits := Number.isDigit_of_mem (Numeral.digits_write (show 2 ≤ 10 by omega) n.toNat)
  show Token.scan (Number.decimalBytes n.toNat ++ rest) = _
  obtain ⟨d, ds, hb, -⟩ := Number.decimalBytes_head n.toNat
  have hdigit := hdigits (UInt8.ofNat (Numeral.digitChar d).toNat) (by
    show _ ∈ Number.decimalBytes n.toNat
    rw [hb]
    exact List.mem_cons_self)
  rw [hb, List.cons_append] at hread ⊢
  rw [Token.scan_cons (Token.isSpace_digit hdigit), Token.next_digit hdigit, hread]
  rfl

theorem scan_bytes_append (l : Lexeme) {rest : List UInt8} (h : l.isWord = true → Number.Ends rest) :
    Token.scan (l.bytes ++ rest) = l.token :: Token.scan rest := by
  cases l with
  | word n => exact scan_word n (h rfl)
  | quoted s => exact scan_quoted s rest
  | flag b => cases b <;> exact Token.scan_cons rfl _
  | openList | closeList | openMap | closeMap | comma | colon | absent => exact Token.scan_cons rfl _

theorem ends_bytes_append {l : Lexeme} (h : l.isWord = false) (rest : List UInt8) :
    Number.Ends (l.bytes ++ rest) := by
  have hends : ∀ (b : UInt8) (s : List UInt8), (Number.isDigit b = false ∧ b ≠ 0x2e ∧ b ≠ 0x65 ∧ b ≠ 0x45) →
      Number.Ends (b :: s) := fun b s hb c hc => by cases hc; exact hb
  cases l with
  | word n => cases h
  | quoted s => rw [quoted_bytes]; exact hends _ _ (by decide)
  | flag b => cases b <;> exact hends _ _ (by decide)
  | openList | closeList | openMap | closeMap | comma | colon | absent => exact hends _ _ (by decide)

/-! ## Lexemes that break off -/

theorem word_cut (value : Node) : ∀ {letters w q : List UInt8}, w ++ q = letters → q ≠ [] →
    (Token.word value letters w).2 = []
  | [], w, q, h, hq => absurd (List.append_eq_nil_iff.mp h).2 hq
  | b :: letters, [], q, _, _ => rfl
  | b :: letters, c :: w, q, h, hq => by
    simp only [Token.word]
    split
    · exact word_cut value (List.cons.inj h).2 hq
    · rfl

theorem scan_cut {l : Lexeme} {c q : List UInt8} (h : c ++ q = l.bytes) (hc : c ≠ []) (hq : q ≠ []) :
    l.token.IsValue ∧ ∃ t, Token.scan c = [t] ∧ t.IsValue := by
  obtain ⟨b, w, rfl⟩ := List.exists_cons_of_ne_nil hc
  -- one token of a value, with nothing left behind it
  have hone : Token.isSpace b = false → (Token.next b w).2 = [] → (Token.next b w).1.IsValue →
      ∃ t, Token.scan (b :: w) = [t] ∧ t.IsValue := fun hb hrest hval =>
    ⟨_, by rw [Token.scan_cons hb, hrest, Token.scan_nil], hval⟩
  have hmark : l.bytes.length ≠ 1 := fun hlen => by
    have := congrArg List.length h
    have hpos := List.length_pos_iff.mpr hq
    simp only [List.length_append, List.length_cons] at this
    omega
  cases l with
  | openList | closeList | openMap | closeMap | comma | colon => exact absurd rfl hmark
  | absent =>
    obtain ⟨rfl, hw⟩ := List.cons.inj h
    exact ⟨trivial, hone rfl (word_cut .absent hw hq) trivial⟩
  | flag v =>
    cases v with
    | true =>
      obtain ⟨rfl, hw⟩ := List.cons.inj h
      exact ⟨trivial, hone rfl (word_cut (.flag true) hw hq) trivial⟩
    | false =>
      obtain ⟨rfl, hw⟩ := List.cons.inj h
      exact ⟨trivial, hone rfl (word_cut (.flag false) hw hq) trivial⟩
  | word n =>
    have hdigits : ∀ x ∈ b :: w, Number.isDigit x = true := fun x hx =>
      Number.isDigit_of_mem (Numeral.digits_write (show 2 ≤ 10 by omega) n.toNat) x
        (show x ∈ (word n).bytes from h ▸ List.mem_append_left q hx)
    have hb := hdigits b List.mem_cons_self
    refine ⟨trivial, hone (Token.isSpace_digit hb) ?_ ?_⟩
    · rw [Token.next_digit hb]
      exact Number.read_digits_rest hdigits
    · rw [Token.next_digit hb]
      trivial
  | quoted s =>
    rw [quoted_bytes] at h
    obtain ⟨rfl, hw⟩ := List.cons.inj h
    obtain ⟨f, hf⟩ := Quoted.skip_cut hw hq
    refine ⟨trivial, hone rfl ?_ trivial⟩
    show Token.behind w = []
    rw [Token.behind, hf]

end Lexeme

/-! ## Rows of lexemes -/

/-- No number of the row goes on with what stands behind it, up to the bytes behind the row. -/
def Separated : List Lexeme → List UInt8 → Prop
  | [], _ => True
  | l :: ls, s => (l.isWord = true → Number.Ends (ls.flatMap Lexeme.bytes ++ s)) ∧ Separated ls s

theorem scan_lexemes {s : List UInt8} : ∀ {ls : List Lexeme}, Separated ls s →
    Token.scan (ls.flatMap Lexeme.bytes ++ s) = ls.map Lexeme.token ++ Token.scan s
  | [], _ => rfl
  | l :: ls, h => by
    rw [List.flatMap_cons, List.append_assoc, l.scan_bytes_append h.1, scan_lexemes h.2]
    rfl

theorem Separated.cons {l : Lexeme} {ls : List Lexeme} {s : List UInt8} (hl : l.isWord = false)
    (h : Separated ls s) : Separated (l :: ls) s :=
  ⟨fun hw => Bool.noConfusion (hl.symm.trans hw), h⟩

theorem ends_cons {l : Lexeme} (hl : l.isWord = false) (ls : List Lexeme) (s : List UInt8) :
    Number.Ends ((l :: ls).flatMap Lexeme.bytes ++ s) := by
  rw [List.flatMap_cons, List.append_assoc]
  exact Lexeme.ends_bytes_append hl _

theorem ends_itemLexemes_append (vs : List Value) {ls : List Lexeme} {s : List UInt8}
    (h : Number.Ends (ls.flatMap Lexeme.bytes ++ s)) :
    Number.Ends ((itemLexemes vs ++ ls).flatMap Lexeme.bytes ++ s) := by
  cases vs with
  | nil => exact h
  | cons v vs => exact ends_cons rfl _ s

theorem ends_entryLexemes_append (es : List (Key × Value)) {ls : List Lexeme} {s : List UInt8}
    (h : Number.Ends (ls.flatMap Lexeme.bytes ++ s)) :
    Number.Ends ((entryLexemes es ++ ls).flatMap Lexeme.bytes ++ s) := by
  cases es with
  | nil => exact h
  | cons e es => exact ends_cons rfl _ s

mutual

/-- In a written document every number is followed by a mark or by the end. -/
theorem separated_lexemes_append : ∀ (v : Value) {ls : List Lexeme} {s : List UInt8}, Separated ls s →
    Number.Ends (ls.flatMap Lexeme.bytes ++ s) → Separated (lexemes v ++ ls) s
  | .absent, _, _, h, _ => h.cons rfl
  | .flag _, _, _, h, _ => h.cons rfl
  | .word _, _, _, h, he => ⟨fun _ => he, h⟩
  | .text _, _, _, h, _ => h.cons rfl
  | .list [], _, _, h, _ => (h.cons rfl).cons rfl
  | .list (v :: vs), ls, s, h, he => by
    simp only [lexemes, List.cons_append, List.append_assoc, List.nil_append]
    refine Separated.cons rfl (separated_lexemes_append v ?_ ?_)
    · exact separated_itemLexemes_append vs (h.cons rfl) (ends_cons rfl ls s)
    · exact ends_itemLexemes_append vs (ends_cons rfl ls s)
  | .map [], _, _, h, _ => (h.cons rfl).cons rfl
  | .map ((k, v) :: es), ls, s, h, he => by
    simp only [lexemes, List.cons_append, List.append_assoc, List.nil_append]
    refine Separated.cons rfl (Separated.cons rfl (Separated.cons rfl (separated_lexemes_append v ?_ ?_)))
    · exact separated_entryLexemes_append es (h.cons rfl) (ends_cons rfl ls s)
    · exact ends_entryLexemes_append es (ends_cons rfl ls s)

theorem separated_itemLexemes_append : ∀ (vs : List Value) {ls : List Lexeme} {s : List UInt8},
    Separated ls s → Number.Ends (ls.flatMap Lexeme.bytes ++ s) → Separated (itemLexemes vs ++ ls) s
  | [], _, _, h, _ => h
  | v :: vs, ls, s, h, he => by
    simp only [itemLexemes, List.cons_append, List.append_assoc]
    exact Separated.cons rfl (separated_lexemes_append v (separated_itemLexemes_append vs h he)
      (ends_itemLexemes_append vs he))

theorem separated_entryLexemes_append : ∀ (es : List (Key × Value)) {ls : List Lexeme} {s : List UInt8},
    Separated ls s → Number.Ends (ls.flatMap Lexeme.bytes ++ s) → Separated (entryLexemes es ++ ls) s
  | [], _, _, h, _ => h
  | (k, v) :: es, ls, s, h, he => by
    simp only [entryLexemes, List.cons_append, List.append_assoc]
    exact Separated.cons rfl (Separated.cons rfl (Separated.cons rfl
      (separated_lexemes_append v (separated_entryLexemes_append es h he) (ends_entryLexemes_append es he))))

end

theorem separated_lexemes (v : Value) : Separated (lexemes v) [] := by
  have hends : Number.Ends (([] : List Lexeme).flatMap Lexeme.bytes ++ []) := fun b hb => by cases hb
  have hnil : Separated [] [] := trivial
  have h := separated_lexemes_append v hnil hends
  rwa [List.append_nil] at h

theorem scan_encode (v : Value) : Token.scan (encode v) = (lexemes v).map Lexeme.token := by
  have h := scan_lexemes (separated_lexemes v)
  rwa [List.append_nil, Token.scan_nil, List.append_nil, ← encode_eq_lexemes] at h

/-! ## Rows that break off -/

theorem Number.Ends.cut {p q : List UInt8} (h : Number.Ends (p ++ q)) : Number.Ends p := by
  intro b hb
  refine h b ?_
  cases p with
  | nil => cases hb
  | cons c p => exact hb

theorem Separated.cut : ∀ {ls : List Lexeme} {p q : List UInt8}, Separated ls (p ++ q) → Separated ls p
  | [], _, _, _ => trivial
  | _ :: _, _, _, h => ⟨fun hw => Number.Ends.cut (by rw [List.append_assoc]; exact h.1 hw), h.2.cut⟩

theorem Separated.left : ∀ {ls ms : List Lexeme} {s : List UInt8}, Separated (ls ++ ms) s →
    Separated ls (ms.flatMap Lexeme.bytes ++ s)
  | [], _, _, _ => trivial
  | l :: ls, ms, s, h => by
    refine ⟨fun hw => ?_, h.2.left⟩
    rw [← List.append_assoc, ← List.flatMap_append]
    exact h.1 hw

/-- Where a row of pieces is cut, there is a piece in which the cut falls. -/
theorem exists_cut {α : Type} (f : α → List UInt8) : ∀ {as : List α} {p q : List UInt8},
    p ++ q = as.flatMap f → q ≠ [] →
      ∃ bs a cs c d, as = bs ++ a :: cs ∧ p = bs.flatMap f ++ c ∧ c ++ d = f a ∧ d ≠ []
  | [], _, _, h, hq => absurd (List.append_eq_nil_iff.mp h).2 hq
  | a :: as, p, q, h, hq => by
    rw [List.flatMap_cons] at h
    rcases List.append_eq_append_iff.mp h with ⟨d, hd, hrest⟩ | ⟨r, hr, hrest⟩
    · by_cases hne : d = []
      · rw [hne, List.append_nil] at hd
        rw [hne] at hrest
        obtain ⟨bs, b, cs, c, e, has, hc, hb, he⟩ := exists_cut f (p := []) hrest hq
        exact ⟨a :: bs, b, cs, c, e, by rw [has]; rfl, by
          rw [List.flatMap_cons, List.append_assoc, ← hc, List.append_nil, hd], hb, he⟩
      · exact ⟨[], a, as, p, d, rfl, rfl, hd.symm, hne⟩
    · obtain ⟨bs, b, cs, c, e, has, hc, hb, he⟩ := exists_cut f hrest.symm hq
      exact ⟨a :: bs, b, cs, c, e, by rw [has]; rfl, by
        rw [List.flatMap_cons, List.append_assoc, ← hc, hr], hb, he⟩

/-- The tokens of a written document that breaks off: some of its tokens, not all, and perhaps one more
where a value is cut. -/
theorem scan_cut {v : Value} {p q : List UInt8} (h : p ++ q = encode v) (hq : q ≠ []) :
    ∃ ts t us, (lexemes v).map Lexeme.token = ts ++ t :: us ∧
      (Token.scan p = ts ∨ t.IsValue ∧ ∃ u, Token.scan p = ts ++ [u] ∧ u.IsValue) := by
  rw [encode_eq_lexemes] at h
  obtain ⟨ls, l, ms, c, d, hls, hp, hcd, hd⟩ := exists_cut Lexeme.bytes h hq
  refine ⟨ls.map Lexeme.token, l.token, ms.map Lexeme.token, by rw [hls]; simp, ?_⟩
  have hsep : Separated ls c := by
    have hall := separated_lexemes v
    rw [hls] at hall
    have hleft := hall.left
    rw [List.flatMap_cons, ← hcd, List.append_assoc, List.append_assoc] at hleft
    exact hleft.cut
  rw [hp, scan_lexemes hsep]
  by_cases hc : c = []
  · exact .inl (by rw [hc, Token.scan_nil, List.append_nil])
  · obtain ⟨ht, u, hu, hval⟩ := Lexeme.scan_cut hcd hc hd
    exact .inr ⟨ht, u, by rw [hu], hval⟩

end TileTrace.Json
