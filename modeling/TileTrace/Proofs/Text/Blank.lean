import Mathlib.Data.List.TakeWhile
import TileTrace.Text.Blank

/-!
# Trimmed texts

Trimming takes white space off both ends and nothing else, so white space that is put there does not
count, and a text can be trimmed of some of it beforehand, also in another form than in characters.
-/

namespace TileTrace.Text

/-! ## Both ends of a list -/

section
variable {α : Type} {p q : α → Bool}

def strip (p : α → Bool) (as : List α) : List α :=
  ((as.dropWhile p).reverse.dropWhile p).reverse

theorem strip_append {front back : List α} (as : List α) (hfront : ∀ a ∈ front, p a = true)
    (hback : ∀ a ∈ back, p a = true) : strip p (front ++ as ++ back) = strip p as := by
  unfold strip
  rw [List.append_assoc, List.dropWhile_append_of_pos hfront, List.dropWhile_append]
  by_cases h : (as.dropWhile p).isEmpty = true
  · have hnil : as.dropWhile p = [] := List.isEmpty_iff.mp h
    have hdrop : back.dropWhile p = [] := by
      rw [List.dropWhile_eq_nil_iff]
      exact hback
    simp [hnil, hdrop]
  · rw [if_neg h, List.reverse_append, List.dropWhile_append_of_pos]
    intro a ha
    exact hback a (List.mem_reverse.mp ha)

theorem exists_strip (p : α → Bool) (as : List α) : ∃ front back, as = front ++ strip p as ++ back ∧
    (∀ a ∈ front, p a = true) ∧ ∀ a ∈ back, p a = true := by
  let rest := as.dropWhile p
  refine ⟨as.takeWhile p, (rest.reverse.takeWhile p).reverse, ?_, ?_, ?_⟩
  · have hrest : rest = strip p as ++ (rest.reverse.takeWhile p).reverse := by
      unfold strip
      rw [← List.reverse_append, List.takeWhile_append_dropWhile, List.reverse_reverse]
    rw [List.append_assoc, ← hrest, List.takeWhile_append_dropWhile]
  · intro a ha
    exact List.mem_takeWhile_imp ha
  · intro a ha
    exact List.mem_takeWhile_imp (List.mem_reverse.mp ha)

/-- What the second predicate holds of can be taken off first. -/
theorem strip_strip (h : ∀ a, q a = true → p a = true) (as : List α) : strip p (strip q as) = strip p as := by
  obtain ⟨front, back, has, hfront, hback⟩ := exists_strip q as
  conv => rhs; rw [has]
  rw [strip_append _ (fun a ha => h a (hfront a ha)) (fun a ha => h a (hback a ha))]

section
variable {β : Type} {r : β → Bool}

theorem dropWhile_flatMap {f : α → List β} (hne : ∀ a, f a ≠ []) (h : ∀ a, ∀ b ∈ f a, r b = p a)
    (as : List α) : (as.flatMap f).dropWhile r = (as.dropWhile p).flatMap f := by
  induction as with
  | nil => rfl
  | cons a as ih =>
    rw [List.flatMap_cons]
    by_cases ha : p a = true
    · rw [List.dropWhile_append_of_pos (fun b hb => (h a b hb).trans ha), List.dropWhile_cons_of_pos ha, ih]
    · obtain ⟨b, bs, hb⟩ := List.exists_cons_of_ne_nil (hne a)
      have hr : ¬ r b = true := by
        rw [h a b (hb ▸ List.mem_cons_self)]
        exact ha
      rw [List.dropWhile_cons_of_neg ha, List.flatMap_cons, hb, List.cons_append,
        List.dropWhile_cons_of_neg hr]

/-- Where every item is written as a row of others that are told apart as it is, both can be stripped. -/
theorem strip_flatMap {f : α → List β} (hne : ∀ a, f a ≠ []) (h : ∀ a, ∀ b ∈ f a, r b = p a) (as : List α) :
    strip r (as.flatMap f) = (strip p as).flatMap f := by
  have hne' : ∀ a, (f a).reverse ≠ [] := fun a => by simpa using hne a
  have h' : ∀ a, ∀ b ∈ (f a).reverse, r b = p a := fun a b hb => h a b (List.mem_reverse.mp hb)
  unfold strip
  rw [dropWhile_flatMap hne h, List.reverse_flatMap]
  show ((((as.dropWhile p).reverse.flatMap fun a => (f a).reverse).dropWhile r).reverse) = _
  rw [dropWhile_flatMap hne' h', List.reverse_flatMap]
  simp [Function.comp_def]

end

end

theorem trim_eq_strip (cs : List Char) : trim cs = strip isBlank cs :=
  rfl

theorem trim_trim (cs : List Char) : trim (trim cs) = trim cs :=
  strip_strip (fun _ h => h) cs

end TileTrace.Text
