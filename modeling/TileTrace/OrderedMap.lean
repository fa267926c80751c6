/-!
# Finite maps in key order

A map is the list of its entries, each key once and in increasing order, so that two maps with the
same look-ups are equal. Keys are compared by their rank, a number that tells them apart. The main
statements say what `get?` finds after an insertion, and that maps are equal once `get?` agrees.
-/

namespace TileTrace

/-- Keys that a number tells apart and puts in order. -/
class Ranked (κ : Type) where
  rank : κ → Nat
  rank_inj : ∀ {a b : κ}, rank a = rank b → a = b

export Ranked (rank)

instance : Ranked UInt64 where
  rank := UInt64.toNat
  rank_inj := UInt64.toNat_inj.mp

structure OrderedMap (κ : Type) [Ranked κ] (β : Type) where
  entries : List (κ × β)
  sorted : entries.Pairwise fun a b => rank a.1 < rank b.1

namespace OrderedMap

variable {κ β : Type} [Ranked κ]

theorem eq_of_entries {m n : OrderedMap κ β} (h : m.entries = n.entries) : m = n := by
  cases m; cases n; cases h; rfl

instance [DecidableEq κ] [DecidableEq β] : DecidableEq (OrderedMap κ β) := fun m n =>
  decidable_of_iff (m.entries = n.entries) ⟨eq_of_entries, fun h => h ▸ rfl⟩

def empty : OrderedMap κ β := ⟨[], .nil⟩

instance : EmptyCollection (OrderedMap κ β) := ⟨empty⟩

instance : Inhabited (OrderedMap κ β) := ⟨empty⟩

/-! ## Insertion -/

/-- The entries with `k` bound to `v`, an earlier binding of `k` being replaced. -/
def insertEntry (k : κ) (v : β) : List (κ × β) → List (κ × β)
  | [] => [(k, v)]
  | e :: es =>
    if rank k < rank e.1 then (k, v) :: e :: es
    else if rank k = rank e.1 then (k, v) :: es
    else e :: insertEntry k v es

theorem mem_insertEntry {k : κ} {v : β} {x : κ × β} : ∀ {es : List (κ × β)},
    x ∈ insertEntry k v es → x = (k, v) ∨ x ∈ es
  | [], h => by simpa [insertEntry] using h
  | e :: es, h => by
    simp only [insertEntry] at h
    split at h
    · simpa using h
    · split at h
      · rcases List.mem_cons.mp h with h | h
        · exact .inl h
        · exact .inr (List.mem_cons_of_mem _ h)
      · rcases List.mem_cons.mp h with h | h
        · exact .inr (h ▸ List.mem_cons_self)
        · exact (mem_insertEntry h).imp id (List.mem_cons_of_mem _)

theorem insertEntry_sorted (k : κ) (v : β) : ∀ {es : List (κ × β)},
    es.Pairwise (fun a b => rank a.1 < rank b.1) →
    (insertEntry k v es).Pairwise fun a b => rank a.1 < rank b.1
  | [], _ => by simp [insertEntry]
  | e :: es, h => by
    obtain ⟨he, hs⟩ := List.pairwise_cons.mp h
    simp only [insertEntry]
    split
    · refine List.pairwise_cons.mpr ⟨fun x hx => ?_, h⟩
      rcases List.mem_cons.mp hx with rfl | hx
      · assumption
      · have := he x hx; show rank k < rank x.1; omega
    · split
      · exact List.pairwise_cons.mpr ⟨fun x hx => by have := he x hx; show rank k < rank x.1; omega, hs⟩
      · refine List.pairwise_cons.mpr ⟨fun x hx => ?_, insertEntry_sorted k v hs⟩
        rcases mem_insertEntry hx with rfl | hx
        · show rank e.1 < rank k; omega
        · exact he x hx

def insert (m : OrderedMap κ β) (k : κ) (v : β) : OrderedMap κ β :=
  ⟨insertEntry k v m.entries, insertEntry_sorted k v m.sorted⟩

/-- The map of the entries, a later entry winning over an earlier one with its key. -/
def ofList (es : List (κ × β)) : OrderedMap κ β :=
  es.foldl (fun m e => m.insert e.1 e.2) empty

/-! ## Look-up -/

def findEntry (k : κ) : List (κ × β) → Option β
  | [] => none
  | e :: es => if rank k = rank e.1 then some e.2 else findEntry k es

def get? (m : OrderedMap κ β) (k : κ) : Option β :=
  findEntry k m.entries

def contains (m : OrderedMap κ β) (k : κ) : Bool :=
  (m.get? k).isSome

def size (m : OrderedMap κ β) : Nat :=
  m.entries.length

def isEmpty (m : OrderedMap κ β) : Bool :=
  m.entries.isEmpty

/-- The entries with keys from `a` to `b`, in order. Only keys that are in order make a range. -/
def range (m : OrderedMap κ β) (a b : κ) (_ : rank a ≤ rank b) : List (κ × β) :=
  m.entries.filter fun e => rank a ≤ rank e.1 && rank e.1 ≤ rank b

def firstKey? (m : OrderedMap κ β) : Option κ :=
  m.entries.head?.map (·.1)

def lastKey? (m : OrderedMap κ β) : Option κ :=
  m.entries.getLast?.map (·.1)

@[simp] theorem get?_empty (k : κ) : (empty : OrderedMap κ β).get? k = none := rfl

theorem findEntry_eq_none {k : κ} : ∀ {es : List (κ × β)}, (∀ e ∈ es, rank k < rank e.1) →
    findEntry k es = none
  | [], _ => rfl
  | e :: es, h => by
    have := h e List.mem_cons_self
    simp only [findEntry, if_neg (Nat.ne_of_lt this)]
    exact findEntry_eq_none fun x hx => h x (List.mem_cons_of_mem _ hx)

theorem findEntry_insertEntry (k : κ) (v : β) (j : κ) : ∀ es : List (κ × β),
    findEntry j (insertEntry k v es) = if rank j = rank k then some v else findEntry j es
  | [] => by simp [insertEntry, findEntry]
  | e :: es => by
    simp only [insertEntry]
    split
    · simp [findEntry]
    · split
      · rename_i hk
        simp only [findEntry]
        split
        · rfl
        · rw [if_neg (by omega)]
      · rename_i hk
        simp only [findEntry, findEntry_insertEntry k v j es]
        split
        · rw [if_neg (by omega)]
        · rfl

/-- After an insertion the key has the new value and every other key the value it had. -/
theorem get?_insert (m : OrderedMap κ β) (k : κ) (v : β) (j : κ) :
    (m.insert k v).get? j = if rank j = rank k then some v else m.get? j :=
  findEntry_insertEntry k v j m.entries

theorem findEntry_eq_some {k : κ} {v : β} : ∀ {es : List (κ × β)},
    es.Pairwise (fun a b => rank a.1 ≠ rank b.1) → (findEntry k es = some v ↔ (k, v) ∈ es)
  | [], _ => by simp [findEntry]
  | (j, w) :: es, h => by
    obtain ⟨hj, hes⟩ := List.pairwise_cons.mp h
    by_cases hk : rank k = rank j
    · obtain rfl := Ranked.rank_inj hk
      have hnot : (k, v) ∉ es := fun hv => hj (k, v) hv rfl
      simp [findEntry, hnot, eq_comm]
    · have hne : k ≠ j := fun h' => hk (h' ▸ rfl)
      simp [findEntry, hk, hne, findEntry_eq_some hes]

theorem mem_entries {m : OrderedMap κ β} {k : κ} {v : β} : (k, v) ∈ m.entries ↔ m.get? k = some v :=
  (findEntry_eq_some (m.sorted.imp Nat.ne_of_lt)).symm

theorem mem_range {m : OrderedMap κ β} {a b k : κ} {v : β} (h : rank a ≤ rank b) :
    (k, v) ∈ m.range a b h ↔ m.get? k = some v ∧ rank a ≤ rank k ∧ rank k ≤ rank b := by
  simp [range, mem_entries]

theorem range_sorted (m : OrderedMap κ β) {a b : κ} (h : rank a ≤ rank b) :
    (m.range a b h).Pairwise fun x y => rank x.1 < rank y.1 :=
  m.sorted.filter _

theorem entries_ext : ∀ {es fs : List (κ × β)}, es.Pairwise (fun a b => rank a.1 < rank b.1) →
    fs.Pairwise (fun a b => rank a.1 < rank b.1) → (∀ k, findEntry k es = findEntry k fs) → es = fs
  | [], [], _, _, _ => rfl
  | [], f :: fs, _, _, h => by have := h f.1; simp [findEntry] at this
  | e :: es, [], _, _, h => by have := h e.1; simp [findEntry] at this
  | e :: es, f :: fs, hs, hf, h => by
    obtain ⟨he, hes⟩ := List.pairwise_cons.mp hs
    obtain ⟨hf', hfs⟩ := List.pairwise_cons.mp hf
    have hlt : ∀ {a : κ × β} {b : κ × β} {bs : List (κ × β)}, (∀ x ∈ bs, rank b.1 < rank x.1) →
        rank a.1 < rank b.1 → findEntry a.1 (b :: bs) = none := fun hb hab =>
      findEntry_eq_none fun x hx => by
        rcases List.mem_cons.mp hx with rfl | hx
        · exact hab
        · have := hb x hx; omega
    have hkey : rank e.1 = rank f.1 := by
      rcases Nat.lt_trichotomy (rank e.1) (rank f.1) with hl | hl | hl
      · have := h e.1; rw [hlt hf' hl] at this; simp [findEntry] at this
      · exact hl
      · have := h f.1; rw [hlt he hl] at this; simp [findEntry] at this
    have hval : e = f := by
      have := h e.1
      simp only [findEntry, if_true, hkey, Option.some.injEq] at this
      exact Prod.ext (Ranked.rank_inj hkey) this
    subst hval
    refine congrArg (e :: ·) (entries_ext hes hfs fun k => ?_)
    have hk := h k
    simp only [findEntry] at hk
    by_cases hke : rank k = rank e.1
    · rw [findEntry_eq_none (fun x hx => hke ▸ he x hx), findEntry_eq_none (fun x hx => hke ▸ hf' x hx)]
    · simpa [if_neg hke] using hk

theorem ext_get? {m n : OrderedMap κ β} (h : ∀ k, m.get? k = n.get? k) : m = n :=
  eq_of_entries (entries_ext m.sorted n.sorted h)

end OrderedMap

end TileTrace
