import Mathlib.Data.List.Forall2
import Mathlib.Data.Set.List
import TileTrace.Proofs.Text.Utf8
import TileTrace.Text.Split

/-!
# Texts made of pieces and lines

Where a text is put together of pieces with separators between them, splitting gives the pieces back. Lines
are split as bytes; where the bytes are those of a text, they are the bytes of lines of characters.
-/

namespace TileTrace.Text

/-! ## Pieces -/

section
variable {α : Type} [DecidableEq α] {sep : α}

theorem splitAt_of_not_mem : ∀ {as : List α}, sep ∉ as → splitAt sep as = [as]
  | [], _ => rfl
  | a :: as, h => by
    have ha : a ≠ sep := fun e => h (e ▸ List.mem_cons_self)
    have ih := splitAt_of_not_mem fun hmem => h (List.mem_cons_of_mem a hmem)
    simp only [splitAt, if_neg ha, ih]

theorem splitAt_append : ∀ as bs : List α, splitAt sep (as ++ sep :: bs) = splitAt sep as ++ splitAt sep bs
  | [], bs => by simp [splitAt]
  | a :: as, bs => by
    have ih := splitAt_append as bs
    obtain ⟨p, ps, hp⟩ := List.exists_cons_of_ne_nil (splitAt_ne_nil sep as)
    simp only [List.cons_append, splitAt, ih]
    by_cases ha : a = sep
    · simp [ha]
    · simp [ha, hp]

theorem not_mem_of_mem_splitAt : ∀ {as p : List α}, p ∈ splitAt sep as → sep ∉ p
  | [], p, h => by simp [splitAt] at h; simp [h]
  | a :: as, p, h => by
    obtain ⟨q, qs, hq⟩ := List.exists_cons_of_ne_nil (splitAt_ne_nil sep as)
    have ih : ∀ {p}, p ∈ q :: qs → sep ∉ p := fun hp => not_mem_of_mem_splitAt (hq ▸ hp)
    by_cases ha : a = sep
    · simp only [splitAt, if_pos ha, hq, List.mem_cons] at h
      rcases h with rfl | h
      · exact List.not_mem_nil
      · exact ih (List.mem_cons.mpr h)
    · simp only [splitAt, if_neg ha, hq, List.mem_cons] at h
      rcases h with rfl | h
      · simp [Ne.symm ha, ih List.mem_cons_self]
      · exact ih (List.mem_cons_of_mem q h)

theorem splitAt_append_of_not_mem {as : List α} (h : sep ∉ as) {bs p : List α} {ps : List (List α)}
    (hbs : splitAt sep bs = p :: ps) : splitAt sep (as ++ bs) = (as ++ p) :: ps := by
  induction as with
  | nil => exact hbs
  | cons a as ih =>
    have ha : a ≠ sep := fun e => h (e ▸ List.mem_cons_self)
    have hrest := ih fun hmem => h (List.mem_cons_of_mem a hmem)
    simp only [List.cons_append, splitAt, if_neg ha, hrest]

theorem splitAt_cons_of_not_mem {as : List α} (h : sep ∉ as) (bs : List α) :
    splitAt sep (as ++ sep :: bs) = as :: splitAt sep bs := by
  rw [splitAt_append, splitAt_of_not_mem h]
  rfl

theorem head?_splitAt (sep : α) (as : List α) : (splitAt sep as).head? = some (as.takeWhile (· ≠ sep)) := by
  induction as with
  | nil => rfl
  | cons a as ih =>
    obtain ⟨p, ps, hp⟩ := List.exists_cons_of_ne_nil (splitAt_ne_nil sep as)
    rw [hp, List.head?_cons] at ih
    obtain rfl := Option.some.inj ih
    by_cases ha : a = sep <;> simp [splitAt, ha, hp]

/-- What is put behind a text belongs to its last piece. -/
theorem splitAt_snoc {a : α} (ha : a ≠ sep) (as : List α) :
    ∃ ps p, splitAt sep as = ps ++ [p] ∧ splitAt sep (as ++ [a]) = ps ++ [p ++ [a]] := by
  induction as with
  | nil => exact ⟨[], [], rfl, by simp [splitAt, ha]⟩
  | cons b as ih =>
    obtain ⟨ps, p, hps, hps'⟩ := ih
    by_cases hb : b = sep
    · exact ⟨[] :: ps, p, by simp [splitAt, hb, hps], by simp [splitAt, hb, hps']⟩
    · cases ps with
      | nil => exact ⟨[], b :: p, by simp [splitAt, hb, hps], by simp [splitAt, hb, hps']⟩
      | cons q ps => exact ⟨(b :: q) :: ps, p, by simp [splitAt, hb, hps], by simp [splitAt, hb, hps']⟩

end

/-! ## Lines -/

theorem lines_lineFeed (s t : List UInt8) :
    lines (s ++ 0x0a :: t) = (splitAt 0x0a s).map stripReturn ++ lines t := by
  have hne := splitAt_ne_nil (0x0a : UInt8) t
  have hlast : (splitAt 0x0a s ++ splitAt 0x0a t).getLast? = (splitAt 0x0a t).getLast? := by
    rw [List.getLast?_append, List.getLast?_eq_some_getLast hne, Option.some_or]
  simp only [lines, splitAt_append, List.dropLast_append_of_ne_nil hne, hlast, List.map_append,
    List.append_assoc]

theorem lines_nil : lines [] = [] := rfl

theorem stripReturn_return (s : List UInt8) : stripReturn (s ++ [0x0d]) = s := by
  simp [stripReturn]

/-- Lines are not joined where the first of two texts ends in a line feed. -/
theorem lines_append {s : List UInt8} (h : s = [] ∨ s.getLast? = some 0x0a) (t : List UInt8) :
    lines (s ++ t) = lines s ++ lines t := by
  rcases h with rfl | h
  · rfl
  · obtain ⟨r, rfl⟩ := List.getLast?_eq_some_iff.mp h
    rw [List.append_assoc, List.singleton_append, lines_lineFeed, lines_lineFeed, lines_nil, List.append_nil]

theorem lines_of_not_mem {s : List UInt8} (h : (0x0a : UInt8) ∉ s) (hne : s ≠ []) : lines s = [s] := by
  simp [lines, splitAt_of_not_mem h, hne]

/-! ## Lines of encoded texts -/

theorem lineFeed_mem_encode {cs : List Char} : (0x0a : UInt8) ∈ Utf8.encode cs ↔ '\n' ∈ cs :=
  Utf8.mem_encode_ascii (a := '\n') (by decide)

theorem lines_encode_append {cs : List Char} (h : cs = [] ∨ cs.getLast? = some '\n') (ds : List Char) :
    lines (Utf8.encode (cs ++ ds)) = lines (Utf8.encode cs) ++ lines (Utf8.encode ds) := by
  rw [Utf8.encode_append]
  apply lines_append
  apply h.imp
  · intro hnil
    rw [hnil]
    rfl
  · intro hlast
    obtain ⟨es, rfl⟩ := List.getLast?_eq_some_iff.mp hlast
    rw [Utf8.encode_append]
    exact List.getLast?_concat

theorem splitAt_encode (cs : List Char) :
    splitAt 0x0a (Utf8.encode cs) = (splitAt '\n' cs).map Utf8.encode := by
  induction cs with
  | nil => rfl
  | cons c cs ih =>
    obtain ⟨p, ps, hp⟩ := List.exists_cons_of_ne_nil (splitAt_ne_nil '\n' cs)
    rw [hp, List.map_cons] at ih
    rw [Utf8.encode, List.flatMap_cons, ← Utf8.encode]
    by_cases hc : c = '\n'
    · subst hc
      simp only [splitAt, hp, if_true, List.map_cons]
      exact congrArg ([] :: ·) ih
    · have hmem : (0x0a : UInt8) ∉ String.utf8EncodeChar c := fun h =>
        hc ((Utf8.mem_utf8EncodeChar_ascii (a := '\n') (by decide)).mp h)
      rw [splitAt_append_of_not_mem hmem ih]
      simp [splitAt, if_neg hc, hp, Utf8.encode]

/-- Taking a carriage return off the bytes of a text is taking it off the text. -/
theorem stripReturn_encode (cs : List Char) :
    ∃ ds, stripReturn (Utf8.encode cs) = Utf8.encode ds ∧ (cs = ds ∨ cs = ds ++ ['\r']) := by
  by_cases hlast : (Utf8.encode cs).getLast? = some 0x0d
  · rcases List.eq_nil_or_concat cs with rfl | ⟨ds, c, rfl⟩
    · cases hlast
    · have hne : String.utf8EncodeChar c ≠ [] := String.utf8EncodeChar_ne_nil
      have hbytes : Utf8.encode (ds ++ [c]) = Utf8.encode ds ++ String.utf8EncodeChar c := by
        simp [Utf8.encode]
      rw [List.concat_eq_append, hbytes, List.getLast?_append, List.getLast?_eq_some_getLast hne,
        Option.some_or] at hlast
      have hmem : (0x0d : UInt8) ∈ String.utf8EncodeChar c :=
        Option.some.inj hlast ▸ List.getLast_mem hne
      obtain rfl := (Utf8.mem_utf8EncodeChar_ascii (a := '\r') (by decide)).mp hmem
      refine ⟨ds, ?_, .inr (List.concat_eq_append ..)⟩
      rw [List.concat_eq_append, hbytes]
      exact stripReturn_return (Utf8.encode ds)
  · exact ⟨cs, if_neg hlast, .inl rfl⟩

theorem exists_encode_of_mem_lines {cs : List Char} {l : List UInt8} (hl : l ∈ lines (Utf8.encode cs)) :
    ∃ ds, l = Utf8.encode ds := by
  have hpiece : ∀ p ∈ splitAt 0x0a (Utf8.encode cs), ∃ ds, p = Utf8.encode ds := by
    intro p hp
    rw [splitAt_encode] at hp
    obtain ⟨ds, -, rfl⟩ := List.mem_map.mp hp
    exact ⟨ds, rfl⟩
  have hne := splitAt_ne_nil (0x0a : UInt8) (Utf8.encode cs)
  simp only [lines, List.getLast?_eq_some_getLast hne, Option.getD_some, List.mem_append] at hl
  rcases hl with hl | hl
  · obtain ⟨p, hp, rfl⟩ := List.mem_map.mp hl
    obtain ⟨ds, rfl⟩ := hpiece p (List.dropLast_subset _ hp)
    obtain ⟨es, hes, -⟩ := stripReturn_encode ds
    exact ⟨es, hes⟩
  · by_cases hempty : ((splitAt 0x0a (Utf8.encode cs)).getLast hne).isEmpty = true
    · simp [hempty] at hl
    · simp only [hempty] at hl
      exact hpiece l (List.mem_singleton.mp hl ▸ List.getLast_mem hne)

/-- The lines of a text can be read one by one. -/
theorem exists_lines_encode (cs : List Char) :
    ∃ ls : List (List Char), lines (Utf8.encode cs) = ls.map Utf8.encode := by
  have hrange : lines (Utf8.encode cs) ∈ Set.range (List.map Utf8.encode) := by
    rw [Set.range_list_map]
    intro l hl
    obtain ⟨ds, rfl⟩ := exists_encode_of_mem_lines hl
    exact ⟨ds, rfl⟩
  obtain ⟨ls, hls⟩ := hrange
  exact ⟨ls, hls.symm⟩

/-! ## Texts from their lines -/

/-- Lines with an end behind each of them, which may be missing behind the last one. -/
inductive Joins : List (List Char) → List Char → Prop
  | nil : Joins [] []
  | last {l : List Char} (hne : l ≠ []) : Joins [l] l
  | lineFeed (l : List Char) {ls : List (List Char)} {cs : List Char} (h : Joins ls cs) :
    Joins (l :: ls) (l ++ '\n' :: cs)
  | returned (l : List Char) {ls : List (List Char)} {cs : List Char} (h : Joins ls cs) :
    Joins (l :: ls) (l ++ '\r' :: '\n' :: cs)

/-- The lines that are read are those that were joined, unless a carriage return was at the end of one. -/
theorem Joins.exists_lines {ls : List (List Char)} {cs : List Char} (h : Joins ls cs)
    (hls : ∀ l ∈ ls, '\n' ∉ l) : ∃ ms : List (List Char), lines (Utf8.encode cs) = ms.map Utf8.encode ∧
      List.Forall₂ (fun l m => l = m ∨ l = m ++ ['\r']) ls ms := by
  induction h with
  | nil => exact ⟨[], rfl, .nil⟩
  | @last l hne =>
    have hmem : (0x0a : UInt8) ∉ Utf8.encode l :=
      fun hmem => hls l List.mem_cons_self (lineFeed_mem_encode.mp hmem)
    exact ⟨[l], lines_of_not_mem hmem (fun hnil => hne (Utf8.encode_eq_nil.mp hnil)), .cons (.inl rfl) .nil⟩
  | @lineFeed l ls cs h ih =>
    obtain ⟨ms, hms, hrest⟩ := ih fun l hl => hls l (List.mem_cons_of_mem _ hl)
    have hmem : (0x0a : UInt8) ∉ Utf8.encode l :=
      fun hmem => hls l List.mem_cons_self (lineFeed_mem_encode.mp hmem)
    obtain ⟨m, hm, hreturn⟩ := stripReturn_encode l
    refine ⟨m :: ms, ?_, .cons hreturn hrest⟩
    have hbytes : Utf8.encode (l ++ '\n' :: cs) = Utf8.encode l ++ 0x0a :: Utf8.encode cs :=
      Utf8.encode_append l ('\n' :: cs)
    rw [hbytes, lines_lineFeed, splitAt_of_not_mem hmem, hms, List.map_singleton, hm]
    rfl
  | @returned l ls cs h ih =>
    obtain ⟨ms, hms, hrest⟩ := ih fun l hl => hls l (List.mem_cons_of_mem _ hl)
    -- The carriage return is part of the piece in front of the line feed, and is taken off again.
    have hmem : (0x0a : UInt8) ∉ Utf8.encode l ++ [0x0d] := by
      simp [lineFeed_mem_encode, hls l List.mem_cons_self]
    refine ⟨l :: ms, ?_, .cons (.inl rfl) hrest⟩
    have hbytes : Utf8.encode (l ++ '\r' :: '\n' :: cs) =
        (Utf8.encode l ++ [0x0d]) ++ 0x0a :: Utf8.encode cs := by
      rw [Utf8.encode_append, List.append_assoc]
      rfl
    rw [hbytes, lines_lineFeed, splitAt_of_not_mem hmem, hms, List.map_singleton, stripReturn_return]
    rfl

end TileTrace.Text
