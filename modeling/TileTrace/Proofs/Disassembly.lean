import TileTrace.Disassembly.Listing

/-!
# What a listing can hold

An instruction that was read from a listing has pieces, and no piece is empty or has white space in it.
-/

namespace TileTrace.Disassembly

def IsFragment (s : String) : Prop := s ≠ "" ∧ ∀ c ∈ s.toList, Text.isBlank c = false

def WellFormed (d : Disassembly) : Prop :=
  ∀ pc fragments, d.get? pc = some fragments → fragments ≠ [] ∧ ∀ s ∈ fragments, IsFragment s

theorem isFragment_of_mem_words {cs w : List Char} (h : w ∈ Text.words cs) :
    IsFragment (String.ofList w) := by
  obtain ⟨hne, hblank⟩ := Text.words_mem h
  refine ⟨?_, by rwa [String.toList_ofList]⟩
  intro hempty
  apply hne
  rw [← String.toList_ofList (l := w), hempty]
  rfl

theorem fragments_of_instruction? {l : List Char} {pc : Pc} {fragments : List String}
    (h : instruction? l = some (pc, fragments)) : fragments ≠ [] ∧ ∀ s ∈ fragments, IsFragment s := by
  unfold instruction? at h
  split at h
  · rename_i first encoding columns hcolumns
    obtain ⟨q, -, h⟩ := Option.bind_eq_some_iff.mp h
    dsimp only at h
    split at h
    · cases h
    · rename_i hne
      cases h
      refine ⟨by simpa using hne, ?_⟩
      intro s hs
      obtain ⟨column, -, hs⟩ := List.mem_flatMap.mp hs
      obtain ⟨w, hw, rfl⟩ := List.mem_map.mp hs
      exact isFragment_of_mem_words hw
  · cases h

theorem WellFormed.insert {d : Disassembly} (hd : d.WellFormed) {pc : Pc} {fragments : List String}
    (h : fragments ≠ [] ∧ ∀ s ∈ fragments, IsFragment s) :
    WellFormed ⟨d.instructions.insert pc fragments⟩ := by
  intro q qs hq
  rw [get?, OrderedMap.get?_insert] at hq
  split at hq
  · cases hq
    exact h
  · exact hd q qs hq

theorem wellFormed_ofLines (ls : List (List Char)) : (ofLines ls).1.WellFormed := by
  unfold ofLines
  apply List.foldlRecOn (motive := fun p : Disassembly × Nat => p.1.WellFormed)
  · intro pc fragments h
    cases h
  · rintro ⟨d, n⟩ hd l -
    cases hl : instruction? l with
    | none => exact hd
    | some p => exact hd.insert (fragments_of_instruction? hl)

theorem wellFormed_of_parse {s : List UInt8} {d : Disassembly} {entry : Log.Entry}
    (h : parse s = some (d, entry)) : d.WellFormed := by
  unfold parse at h
  obtain ⟨ls, -, h⟩ := Option.bind_eq_some_iff.mp h
  cases h
  exact wellFormed_ofLines ls

end TileTrace.Disassembly
