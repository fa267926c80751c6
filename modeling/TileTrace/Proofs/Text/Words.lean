import TileTrace.Text.Blank
import TileTrace.Text.Split

/-!
# Words

The words of a text are the pieces between its white space, whatever white space it is and however much
there is. So splitting a text at a blank character first does not change its words.
-/

namespace TileTrace.Text

section
variable {c : Char} {cs w gap : List Char}

theorem wordsFrom_append (hw : ∀ c ∈ w, isBlank c = false) (word cs : List Char) :
    wordsFrom word (w ++ cs) = wordsFrom (w.reverse ++ word) cs := by
  induction w generalizing word with
  | nil => rfl
  | cons c w ih =>
    have hc := hw c List.mem_cons_self
    rw [List.cons_append, wordsFrom, hc, if_neg Bool.false_ne_true,
      ih fun x hx => hw x (List.mem_cons_of_mem c hx)]
    simp

theorem words_blank (hc : isBlank c = true) (cs : List Char) : words (c :: cs) = words cs := by
  simp [words, wordsFrom, hc]

theorem words_gap (hgap : ∀ c ∈ gap, isBlank c = true) (cs : List Char) : words (gap ++ cs) = words cs := by
  induction gap with
  | nil => rfl
  | cons c gap ih =>
    rw [List.cons_append, words_blank (hgap c List.mem_cons_self)]
    exact ih fun x hx => hgap x (List.mem_cons_of_mem c hx)

theorem words_single (hne : w ≠ []) (hw : ∀ c ∈ w, isBlank c = false) : words w = [w] := by
  have happend := wordsFrom_append hw [] []
  rw [List.append_nil, List.append_nil] at happend
  simp [words, happend, wordsFrom, hne]

theorem words_cons (hne : w ≠ []) (hw : ∀ c ∈ w, isBlank c = false) (hgap : ∀ c ∈ gap, isBlank c = true)
    (hgap' : gap ≠ []) (cs : List Char) : words (w ++ (gap ++ cs)) = w :: words cs := by
  obtain ⟨c, gap, rfl⟩ := List.exists_cons_of_ne_nil hgap'
  have hc := hgap c List.mem_cons_self
  have hrest := words_gap (fun x hx => hgap x (List.mem_cons_of_mem c hx)) cs
  rw [words, wordsFrom_append hw, List.append_nil, List.cons_append, wordsFrom, hc, if_pos rfl, ← words, hrest]
  simp [hne]

theorem wordsFrom_snoc (hc : isBlank c = true) (word cs : List Char) :
    wordsFrom word (cs ++ [c]) = wordsFrom word cs := by
  induction cs generalizing word with
  | nil => simp [wordsFrom, hc]
  | cons x cs ih => simp only [List.cons_append, wordsFrom, ih]

theorem words_snoc (hc : isBlank c = true) (cs : List Char) : words (cs ++ [c]) = words cs :=
  wordsFrom_snoc hc [] cs

end

/-- The word that is being read goes on in the first piece. -/
theorem wordsFrom_splitAt {sep : Char} (hsep : isBlank sep = true) (cs : List Char) :
    ∀ {word p : List Char} {ps : List (List Char)}, splitAt sep cs = p :: ps →
      wordsFrom word p ++ ps.flatMap words = wordsFrom word cs := by
  induction cs with
  | nil =>
    intro word p ps h
    cases h
    simp
  | cons c cs ih =>
    intro word p ps h
    obtain ⟨q, qs, hq⟩ := List.exists_cons_of_ne_nil (splitAt_ne_nil sep cs)
    by_cases hc : c = sep
    · subst hc
      simp only [splitAt, if_true, hq] at h
      obtain ⟨rfl, rfl⟩ := List.cons.inj h
      have hrest : words q ++ qs.flatMap words = words cs := ih hq
      rw [List.flatMap_cons, hrest]
      by_cases hword : word = [] <;> simp [wordsFrom, hsep, hword, words]
    · simp only [splitAt, if_neg hc, hq] at h
      obtain ⟨rfl, rfl⟩ := List.cons.inj h
      by_cases hblank : isBlank c = true
      · by_cases hword : word = [] <;> simp [wordsFrom, hblank, hword, ih hq]
      · simp [wordsFrom, hblank, ih hq]

theorem flatMap_words_splitAt {sep : Char} (hsep : isBlank sep = true) (cs : List Char) :
    (splitAt sep cs).flatMap words = words cs := by
  obtain ⟨p, ps, hp⟩ := List.exists_cons_of_ne_nil (splitAt_ne_nil sep cs)
  rw [hp, List.flatMap_cons]
  exact wordsFrom_splitAt hsep cs hp

end TileTrace.Text
