import Mathlib.Data.Finset.Card
import TileTrace.OrderedMap

/-!
# Maps from lists

What a map has of the entries it was made of: for every key the last entry with it. So the order of entries
with different keys does not count, and of two lists one after the other the second one counts where both
have a key.
-/

namespace TileTrace.OrderedMap

variable {κ β : Type} [Ranked κ]

theorem nodup_keys (m : OrderedMap κ β) : (m.entries.map (·.1)).Nodup := by
  rw [List.Nodup, List.pairwise_map]
  apply m.sorted.imp
  intro a b hab heq
  rw [heq] at hab
  exact Nat.lt_irrefl _ hab

/-! ## Look-up -/

theorem findEntry_append (k : κ) (es fs : List (κ × β)) :
    findEntry k (es ++ fs) = (findEntry k es).or (findEntry k fs) := by
  induction es with
  | nil => rfl
  | cons e es ih =>
    simp only [List.cons_append, findEntry]
    by_cases hk : rank k = rank e.1
    · simp [hk]
    · simp [hk, ih]

theorem get?_foldl_insert (k : κ) (es : List (κ × β)) (m : OrderedMap κ β) :
    (es.foldl (fun m e => m.insert e.1 e.2) m).get? k = (findEntry k es.reverse).or (m.get? k) := by
  induction es generalizing m with
  | nil => rfl
  | cons e es ih =>
    rw [List.foldl_cons, ih, get?_insert, List.reverse_cons, findEntry_append]
    by_cases hk : rank k = rank e.1 <;> simp [findEntry, hk]

theorem get?_ofList (k : κ) (es : List (κ × β)) : (ofList es).get? k = findEntry k es.reverse := by
  rw [ofList, get?_foldl_insert, get?_empty, Option.or_none]

theorem get?_ofList_append (k : κ) (es fs : List (κ × β)) :
    (ofList (es ++ fs)).get? k = ((ofList fs).get? k).or ((ofList es).get? k) := by
  simp only [get?_ofList, List.reverse_append, findEntry_append]

/-- A map can be made of its entries in any order. -/
theorem ofList_of_perm {m : OrderedMap κ β} {es : List (κ × β)} (h : es.Perm m.entries) : ofList es = m := by
  have hkeys : m.entries.Pairwise fun a b => rank a.1 ≠ rank b.1 := m.sorted.imp Nat.ne_of_lt
  have hperm : es.reverse.Perm m.entries := (List.reverse_perm es).trans h
  have hkeys' : es.reverse.Pairwise fun a b => rank a.1 ≠ rank b.1 :=
    (hperm.pairwise_iff fun hab => hab.symm).mpr hkeys
  apply ext_get?
  intro k
  apply Option.ext
  intro v
  rw [get?_ofList, findEntry_eq_some hkeys', hperm.mem_iff, mem_entries]

theorem ofList_entries (m : OrderedMap κ β) : ofList m.entries = m :=
  ofList_of_perm (.refl _)

/-! ## Sizes -/

def ranks (es : List (κ × β)) : Finset Nat :=
  (es.map fun e => rank e.1).toFinset

theorem ranks_append (es fs : List (κ × β)) : ranks (es ++ fs) = ranks es ∪ ranks fs := by
  rw [ranks, List.map_append, List.toFinset_append]
  rfl

theorem rank_mem_ranks {k : κ} {es : List (κ × β)} : rank k ∈ ranks es ↔ findEntry k es ≠ none := by
  induction es with
  | nil => simp [ranks, findEntry]
  | cons e es ih =>
    by_cases hk : rank k = rank e.1
    · simp [ranks, findEntry, hk]
    · simpa [ranks, findEntry, hk] using ih

theorem ranks_ofList (es : List (κ × β)) : ranks (ofList es).entries = ranks es := by
  have hkeys : ∀ k : κ, rank k ∈ ranks (ofList es).entries ↔ rank k ∈ ranks es := by
    intro k
    have hreverse : ranks es.reverse = ranks es := by simp [ranks]
    rw [rank_mem_ranks, ← hreverse, rank_mem_ranks, ← get?_ofList]
    rfl
  ext n
  constructor
  · intro hn
    obtain ⟨e, -, rfl⟩ := List.mem_map.mp (List.mem_toFinset.mp hn)
    exact (hkeys e.1).mp hn
  · intro hn
    obtain ⟨e, -, rfl⟩ := List.mem_map.mp (List.mem_toFinset.mp hn)
    exact (hkeys e.1).mpr hn

theorem size_ofList (es : List (κ × β)) : (ofList es).size = (ranks es).card := by
  have hnodup : ((ofList es).entries.map fun e => rank e.1).Nodup := by
    rw [List.Nodup, List.pairwise_map]
    exact (ofList es).sorted.imp Nat.ne_of_lt
  rw [← ranks_ofList, ranks, List.toFinset_card_of_nodup hnodup, List.length_map, size]

theorem size_ofList_le (es : List (κ × β)) : (ofList es).size ≤ es.length := by
  have hle := List.toFinset_card_le (es.map fun e => rank e.1)
  rwa [List.length_map, ← ranks, ← size_ofList] at hle

theorem size_ofList_eq_length (es : List (κ × β)) :
    (ofList es).size = es.length ↔ (es.map (·.1)).Nodup := by
  have hinj : Function.Injective (rank : κ → Nat) := fun _ _ h => Ranked.rank_inj h
  have hcard : (ranks es).card = (es.map fun e => rank e.1).length ↔ (es.map fun e => rank e.1).Nodup :=
    Multiset.toFinset_card_eq_card_iff_nodup
  rw [List.length_map] at hcard
  rw [size_ofList, hcard, ← List.nodup_map_iff hinj, List.map_map]
  rfl

end TileTrace.OrderedMap
