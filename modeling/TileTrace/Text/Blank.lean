/-!
# White space

The characters with the Unicode property `White_Space`, and the three things done with them: cutting
them off the ends of a text, telling whether a text holds nothing else, and splitting a text at them.
-/

namespace TileTrace.Text

/-- The Unicode property `White_Space`. -/
def isBlank (c : Char) : Bool :=
  let n := c.toNat
  (0x09 ≤ n && n ≤ 0x0d) || n == 0x20 || n == 0x85 || n == 0xa0 || n == 0x1680 ||
    (0x2000 ≤ n && n ≤ 0x200a) || n == 0x2028 || n == 0x2029 || n == 0x202f || n == 0x205f ||
    n == 0x3000

def trimLeft (cs : List Char) : List Char :=
  cs.dropWhile isBlank

def trimRight (cs : List Char) : List Char :=
  (trimLeft cs.reverse).reverse

def trim (cs : List Char) : List Char :=
  trimRight (trimLeft cs)

/-- The longest pieces without white space, in order: the first one is being read into `word`. -/
def wordsFrom (word : List Char) : List Char → List (List Char)
  | [] => if word.isEmpty then [] else [word.reverse]
  | c :: cs =>
    if isBlank c then
      if word.isEmpty then wordsFrom [] cs else word.reverse :: wordsFrom [] cs
    else wordsFrom (c :: word) cs

def words (cs : List Char) : List (List Char) :=
  wordsFrom [] cs

/-- No word is empty and none holds white space. -/
theorem wordsFrom_mem {word : List Char} (hw : ∀ c ∈ word, isBlank c = false) :
    ∀ {cs w : List Char}, w ∈ wordsFrom word cs → w ≠ [] ∧ ∀ c ∈ w, isBlank c = false := by
  intro cs
  induction cs generalizing word with
  | nil =>
    intro w h
    cases word with
    | nil => simp [wordsFrom] at h
    | cons x xs => simp only [wordsFrom, List.isEmpty_cons, Bool.false_eq_true, if_false,
        List.mem_singleton] at h; subst h; exact ⟨by simp, fun c hc => hw c (List.mem_reverse.mp hc)⟩
  | cons x xs ih =>
    intro w h
    by_cases hx : isBlank x = true
    · cases word with
      | nil => simp only [wordsFrom, hx, if_true, List.isEmpty_nil] at h; exact ih (by simp) h
      | cons y ys =>
        simp only [wordsFrom, hx, if_true, List.isEmpty_cons, Bool.false_eq_true, if_false,
          List.mem_cons] at h
        rcases h with rfl | h
        · exact ⟨by simp, fun c hc => hw c (List.mem_reverse.mp hc)⟩
        · exact ih (by simp) h
    · simp only [wordsFrom, hx, Bool.false_eq_true, if_false] at h
      refine ih (fun c hc => ?_) h
      rcases List.mem_cons.mp hc with rfl | hc
      · simpa using hx
      · exact hw c hc

theorem words_mem {cs w : List Char} (h : w ∈ words cs) : w ≠ [] ∧ ∀ c ∈ w, isBlank c = false :=
  wordsFrom_mem (by simp) h

end TileTrace.Text
