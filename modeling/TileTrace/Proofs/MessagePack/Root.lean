import TileTrace.Proofs.MessagePack.Document

/-!
# The root of a MessagePack document

The first byte tells whether a document is met as a map or as a list, if it is met as more than a fault. Where
a list or map does not end with a fault, nothing in it stops one who passes over it.
-/

namespace TileTrace.MessagePack

open Snapshot

/-! ## Passing over values -/

/-- Whoever gets past what was read is not stopped by its node either. -/
def Passes (read : List UInt8 → Step Node) : Prop :=
  ∀ s n r, read s = (n, .ok r) → n.stop? = none

theorem Passes.readEntries {read : List UInt8 → Step Node} (hread : Passes read) :
    ∀ {n : Nat} {s r : List UInt8} {es : List (Node × Node)}, readEntries read n s = (es, .ok r) →
      ∀ e ∈ es, e.2.stop? = none
  | 0, s, r, es, h => by
    cases h
    exact nofun
  | n + 1, s, r, es, h => by
    unfold MessagePack.readEntries at h
    cases hk : read s with
    | mk k rest =>
      cases rest with
      | error f =>
        rw [hk] at h
        cases h
      | ok s' =>
        simp only [hk] at h
        cases hv : read s' with
        | mk v rest' =>
          cases rest' with
          | error f =>
            rw [hv] at h
            cases h
          | ok s'' =>
            simp only [hv] at h
            cases hes : MessagePack.readEntries read n s'' with
            | mk vs rest'' =>
              simp only [hes] at h
              cases h
              exact List.forall_mem_cons.mpr ⟨hread s' v s'' hv, hread.readEntries hes⟩

theorem read_nil (d : Nat) : read d [] = (.defect (.fatal .noMarker), .error .noMarker) := by
  rw [read]

theorem passes_read (d : Nat) : Passes (read d) := by
  intro s n r h
  cases s with
  | nil =>
    rw [read_nil] at h
    cases h
  | cons b s =>
    cases ht : Token.next b s with
    | mk t s' =>
      cases t with
      | leaf v =>
        rw [read_leaf ht] at h
        obtain ⟨rfl, hr⟩ := Prod.mk.inj h
        exact (passed_eq_ok hr).1
      | list size =>
        cases d with
        | zero => rw [read_tooDeep ht (by simp)] at h; cases h
        | succ d =>
          rw [read_list ht] at h
          obtain ⟨rfl, hr⟩ := Prod.mk.inj h
          -- Whoever passes over a list stops where its items do.
          rw [Node.stop?, hr, stopped]
      | map size =>
        cases d with
        | zero => rw [read_tooDeep ht (by simp)] at h; cases h
        | succ d =>
          rw [read_map ht] at h
          obtain ⟨rfl, hr⟩ := Prod.mk.inj h
          rw [Node.stop?, hr, stopped]
      | extension stop =>
        cases d with
        | zero => rw [read_tooDeep ht (by simp)] at h; cases h
        | succ d =>
          rw [read_extension ht] at h
          obtain ⟨rfl, hr⟩ := Prod.mk.inj h
          exact (passed_eq_ok hr).1

/-! ## The first byte -/

def OpensMap (b : UInt8) : Prop :=
  0x80 ≤ b.toNat ∧ b.toNat < 0x90 ∨ b = 0xde ∨ b = 0xdf

def OpensList (b : UInt8) : Prop :=
  0x90 ≤ b.toNat ∧ b.toNat < 0xa0 ∨ b = 0xdc ∨ b = 0xdd

instance (b : UInt8) : Decidable (OpensMap b) := inferInstanceAs (Decidable (_ ∨ _))

instance (b : UInt8) : Decidable (OpensList b) := inferInstanceAs (Decidable (_ ∨ _))

section
variable {b : UInt8} {s : List UInt8}

theorem sized_head (size : Nat) (make : Nat → Token) (s : List UInt8) :
    (∃ n r, Token.sized size (fun n s => (make n, s)) s = (make n, r)) ∨
      ∃ d r, Token.sized size (fun n s => (make n, s)) s = (.leaf (.defect d), r) := by
  unfold Token.sized
  cases Token.take? size s with
  | none => exact .inr ⟨_, _, rfl⟩
  | some p => exact .inl ⟨_, _, rfl⟩

theorem next_opensMap (h : OpensMap b) (s : List UInt8) :
    (∃ n r, Token.next b s = (.map n, r)) ∨ ∃ d r, Token.next b s = (.leaf (.defect d), r) := by
  rcases h with h | rfl | rfl
  · refine .inl ⟨b.toNat - 0x80, s, ?_⟩
    simp only [Token.next]
    rw [if_neg (by omega), if_pos (by omega)]
  · exact sized_head 2 .map s
  · exact sized_head 4 .map s

theorem next_opensList (h : OpensList b) (s : List UInt8) :
    (∃ n r, Token.next b s = (.list n, r)) ∨ ∃ d r, Token.next b s = (.leaf (.defect d), r) := by
  rcases h with h | rfl | rfl
  · refine .inl ⟨b.toNat - 0x90, s, ?_⟩
    simp only [Token.next]
    rw [if_neg (by omega), if_neg (by omega), if_pos (by omega)]
  · exact sized_head 2 .list s
  · exact sized_head 4 .list s

theorem decode_of_opensMap (h : OpensMap b) (s : List UInt8) :
    (decode (b :: s)).IsPassableMap ∨ ∃ d, decode (b :: s) = .defect d := by
  rcases next_opensMap h s with ⟨n, r, ht⟩ | ⟨d, r, ht⟩
  · refine .inl ⟨some n, _, _, congrArg Prod.fst (read_map ht), fun hstop => ?_⟩
    cases hrest : readEntries (read 1022) n r with
    | mk es rest =>
      cases rest with
      | error f =>
        rw [hrest] at hstop
        cases hstop
      | ok r' => exact (passes_read 1022).readEntries hrest
  · exact .inr ⟨d, congrArg Prod.fst (read_leaf ht)⟩

theorem decode_of_opensList (h : OpensList b) (s : List UInt8) : (decode (b :: s)).IsNoMap := by
  rcases next_opensList h s with ⟨n, r, ht⟩ | ⟨d, r, ht⟩
  · have hlist : decode (b :: s) = _ := congrArg Prod.fst (read_list ht)
    rw [hlist]
    exact nofun
  · have hleaf : decode (b :: s) = .defect d := congrArg Prod.fst (read_leaf ht)
    rw [hleaf]
    exact nofun

end

end TileTrace.MessagePack
