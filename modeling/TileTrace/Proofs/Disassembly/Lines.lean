import Mathlib.Data.List.Basic
import TileTrace.Disassembly.Listing
import TileTrace.Proofs.OrderedMap
import TileTrace.Proofs.Text.Split

/-!
# The lines of a listing

A listing is read line by line, and every line is either an entry or skipped. So the dictionary and the two
counts of a listing follow from the list of its entries, and a listing may be cut at any line: the
dictionary of the whole has the entries of both parts, those of the second part first.
-/

namespace TileTrace.Disassembly

open Text (lines)
open Utf8 (encode)

/-! ## Entries -/

def entriesOf (ls : List (List Char)) : List (Pc × List String) :=
  ls.filterMap instruction?

def skippedIn (ls : List (List Char)) : Nat :=
  ls.countP fun l => (instruction? l).isNone

theorem length_entriesOf (ls : List (List Char)) : (entriesOf ls).length + skippedIn ls = ls.length := by
  have hnone : ∀ l, (instruction? l).isNone = decide ¬ (instruction? l).isSome = true := by
    intro l
    cases instruction? l <;> rfl
  rw [List.length_eq_countP_add_countP (fun l => (instruction? l).isSome) (l := ls), entriesOf,
    List.length_filterMap_eq_countP]
  simp only [skippedIn, hnone]

theorem foldl_entriesOf {step : Disassembly × Nat → List Char → Disassembly × Nat}
    (hentry : ∀ d k l e, instruction? l = some e → step (d, k) l = (⟨d.instructions.insert e.1 e.2⟩, k))
    (hother : ∀ d k l, instruction? l = none → step (d, k) l = (d, k + 1)) (ls : List (List Char))
    (d : Disassembly) (k : Nat) : ls.foldl step (d, k) =
      (⟨(entriesOf ls).foldl (fun m e => m.insert e.1 e.2) d.instructions⟩, k + skippedIn ls) := by
  induction ls generalizing d k with
  | nil => simp [entriesOf, skippedIn]
  | cons l ls ih =>
    cases hl : instruction? l with
    | none => simp [ih, hother d k l hl, entriesOf, skippedIn, hl]; omega
    | some e => simp [ih, hentry d k l e hl, entriesOf, skippedIn, hl]

theorem ofLines_eq (ls : List (List Char)) : ofLines ls = (⟨.ofList (entriesOf ls)⟩, skippedIn ls) := by
  unfold ofLines
  rw [foldl_entriesOf, Nat.zero_add]
  · rfl
  · intro d k l e he
    simp only [he]
  · intro d k l hnone
    simp only [hnone]

theorem ofListing_of_lines {s : List UInt8} {ls : List (List Char)} (h : lines s = ls.map encode) :
    ofListing s = ⟨[.parsed (OrderedMap.ofList (entriesOf ls)).size (skippedIn ls)],
      .ok ⟨.ofList (entriesOf ls)⟩⟩ := by
  have hparse : parse s = some (⟨.ofList (entriesOf ls)⟩,
      .parsed (OrderedMap.ofList (entriesOf ls)).size (skippedIn ls)) := by
    simp only [parse, h, Utf8.mapM_decode?_encode, ofLines_eq, size]
    rfl
  simp [ofListing, hparse]

/-! ## Two listings in one -/

theorem ofListing_append {a : List Char} (ha : a = [] ∨ a.getLast? = some '\n') (b : List Char) :
    ∃ (da db d : Disassembly) (na nb n ka kb : Nat) (ls : List (List Char)),
      ofListing (encode a) = ⟨[.parsed na ka], .ok da⟩ ∧
      ofListing (encode b) = ⟨[.parsed nb kb], .ok db⟩ ∧
      ofListing (encode (a ++ b)) = ⟨[.parsed n (ka + kb)], .ok d⟩ ∧
      (∀ pc, d.get? pc = (db.get? pc).or (da.get? pc)) ∧
      max na nb ≤ n ∧ n ≤ na + nb ∧
      lines (encode (a ++ b)) = ls.map encode ∧ n + (ka + kb) ≤ ls.length ∧
      (n + (ka + kb) = ls.length ↔
        ls.Pairwise fun l m => ∀ p, instruction? l = some p → ∀ q, instruction? m = some q → p.1 ≠ q.1) := by
  obtain ⟨as, has⟩ := Text.exists_lines_encode a
  obtain ⟨bs, hbs⟩ := Text.exists_lines_encode b
  have hlines : lines (encode (a ++ b)) = (as ++ bs).map encode := by
    rw [Text.lines_encode_append ha, has, hbs, List.map_append]
  have hentries : entriesOf (as ++ bs) = entriesOf as ++ entriesOf bs := List.filterMap_append
  have hskipped : skippedIn (as ++ bs) = skippedIn as + skippedIn bs := List.countP_append
  have hcount := length_entriesOf (as ++ bs)
  have hreport := ofListing_of_lines hlines
  rw [hskipped] at hreport hcount
  refine ⟨_, _, _, _, _, _, _, _, as ++ bs, ofListing_of_lines has, ofListing_of_lines hbs, hreport, ?_, ?_, ?_,
    hlines, ?_, ?_⟩
  · intro pc
    rw [get?, hentries]
    exact OrderedMap.get?_ofList_append pc _ _
  · simp only [OrderedMap.size_ofList, hentries, OrderedMap.ranks_append]
    exact max_le (Finset.card_le_card Finset.subset_union_left) (Finset.card_le_card Finset.subset_union_right)
  · simp only [OrderedMap.size_ofList, hentries, OrderedMap.ranks_append]
    exact Finset.card_union_le _ _
  · have hle := OrderedMap.size_ofList_le (entriesOf (as ++ bs))
    omega
  · -- No line is lost exactly if no two lines have an address in common.
    have hsize := OrderedMap.size_ofList_eq_length (entriesOf (as ++ bs))
    rw [List.Nodup, List.pairwise_map, entriesOf, List.pairwise_filterMap] at hsize
    rw [← hsize, ← entriesOf]
    omega

/-- The address of the second part is spelled in another way and has its line in the first part, too. -/
theorem ofListing_append_respelled :
    let a := "   1f:\t00000013\tnop\r\n\t...\n".toList
    let b := "001F:\t00000513\tli\ta0,0".toList
    a.getLast? = some '\n' ∧ ∃ (d : Disassembly) (n : Nat), 1 ≤ n ∧ n ≤ 2 ∧
      ofListing (encode (a ++ b)) = ⟨[.parsed n 1], .ok d⟩ ∧ d.get? ⟨0x1f⟩ = some ["li", "a0,0"] := by
  intro a b
  have hlast : a.getLast? = some '\n' := by decide
  have hfirst := ofListing_of_lines
    (show lines (encode a) = ["   1f:\t00000013\tnop".toList, "\t...".toList].map encode by decide)
  have hsecond := ofListing_of_lines (show lines (encode b) = [b].map encode by decide)
  obtain ⟨da, db, d, na, nb, n, ka, kb, -, ha, hb, hd, hget, hmax, hsum, -⟩ := ofListing_append (.inr hlast) b
  rw [hfirst] at ha
  rw [hsecond] at hb
  cases ha
  cases hb
  refine ⟨hlast, d, n, le_trans (by decide) hmax, hsum, hd, ?_⟩
  rw [hget]
  decide

end TileTrace.Disassembly
