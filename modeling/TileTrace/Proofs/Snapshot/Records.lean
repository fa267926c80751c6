import Mathlib.Data.Finset.Dedup
import Mathlib.Data.Finset.Lattice.Lemmas
import Mathlib.Data.List.Perm.Basic
import Mathlib.Data.List.ReduceOption
import TileTrace.Proofs.Snapshot.Payload

/-!
# Records from their entries

The entries of a map fill a record whatever their order is: each of them fills one field that was not there
before, or is no field at all and is passed over.
-/

namespace TileTrace.Snapshot.Node

inductive Names (s : String) : Node → Prop
  | text : Names s (.text s)
  | key (number : Node) (rest : Option Fault) : Names s (.key (.text s) number rest)

/-- A number from zero up, whether it was written as one that has a sign or not. -/
inductive IsNumber (n : Nat) : Node → Prop
  | word : IsNumber n (.word n)
  | signed : IsNumber n (.signed n)

theorem Names.member? {σ : Type} {s : String} {k : Node} (h : Names s k) (members : List (Member σ)) :
    k.member? members = .ok (members.find? (·.name = s)) := by
  cases h with
  | text => rfl
  | key number rest => rfl

theorem IsNumber.readVersion {n : UInt32} {v : Node} (h : IsNumber n.toNat v) (fmt : Format) :
    readVersion fmt v = .ok n := by
  have hlt : 0 ≤ (n.toNat : Int) ∧ (n.toNat : Int) < UInt32.size :=
    ⟨Int.natCast_nonneg _, Int.ofNat_lt.mpr n.toNat_lt_size⟩
  have hword : readWord fmt UInt32.size "u32" v = .ok n.toNat := by
    cases h <;> rw [readWord, readWord.within, if_pos hlt] <;> rfl
  rw [Node.readVersion, hword]
  exact congrArg Except.ok UInt32.ofNat_toNat

/-! ## Entries in any order -/

section
variable {σ : Type} {members : List (Member σ)} {only : Finset String → σ}

/-- What an entry does to a record of which only some fields are there, told by the field it fills, if it
fills one. -/
inductive Settles (members : List (Member σ)) (only : Finset String → σ) :
    Node × Node → Option String → Prop
  | field {k v : Node} {m : Member σ} {name : String} (hkey : k.member? members = .ok (some m))
      (hset : ∀ done, name ∉ done → m.isSet (only done) = false)
      (hfill : ∀ done, m.fill v (only done) = .ok (only (insert name done))) :
      Settles members only (k, v) (some name)
  | other {k v : Node} (hkey : k.member? members = .ok none) (hpass : v.stop? = none) :
      Settles members only (k, v) none

theorem fillNamed_settles {es : List (Node × Node)} {names : List (Option String)}
    (h : List.Forall₂ (Settles members only) es names) : ∀ {done : Finset String},
    names.reduceOption.Nodup → (∀ s ∈ names.reduceOption, s ∉ done) →
    fillNamed members es (only done) = .ok (only (done ∪ names.reduceOption.toFinset)) := by
  induction h with
  | nil =>
    intro done _ _
    simp [fillNamed, List.reduceOption]
  | cons hentry _ ih =>
    intro done hnodup hdone
    cases hentry with
    | other hkey hpass =>
      rw [fillNamed_other hkey hpass, List.reduceOption_cons_of_none]
      exact ih hnodup hdone
    | field hkey hset hfill =>
      rw [List.reduceOption_cons_of_some] at hnodup hdone ⊢
      obtain ⟨hfresh, hnodup⟩ := List.nodup_cons.mp hnodup
      rw [fillNamed_field hkey (hset done (hdone _ List.mem_cons_self)) (hfill done), ih hnodup]
      · rw [List.toFinset_cons, Finset.insert_union, Finset.union_insert]
      · -- The names that are to come are not among those done, and none of them is the one just done.
        intro s hs hmem
        rcases Finset.mem_insert.mp hmem with rfl | hmem
        · exact hfresh hs
        · exact hdone s (List.mem_cons_of_mem _ hs) hmem

/-- Entries that are told in one order fill the record in every order. -/
theorem fillNamed_perm {es es' : List (Node × Node)} {names : List (Option String)} (hperm : es.Perm es')
    (h : List.Forall₂ (Settles members only) es' names) (hnodup : names.reduceOption.Nodup) :
    fillNamed members es (only ∅) = .ok (only names.reduceOption.toFinset) := by
  obtain ⟨names', h', hnames⟩ := List.perm_comp_forall₂ hperm h
  have hreduce : names'.reduceOption.Perm names.reduceOption := hnames.filterMap id
  rw [fillNamed_settles h' (hreduce.nodup_iff.mpr hnodup) (by simp), Finset.empty_union,
    List.toFinset_eq_of_perm _ _ hreduce]

end

end TileTrace.Snapshot.Node
