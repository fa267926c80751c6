/-!
# Pieces and lines

Splitting a text at a separator, and at the ends of its lines. Main statements: there is always at least
one piece, and the pieces with the separator between them are the text again.
-/

namespace TileTrace.Text

variable {α : Type} [DecidableEq α]

/-- Splits at every occurrence of the separator; there is always at least one piece. -/
def splitAt (sep : α) : List α → List (List α)
  | [] => [[]]
  | a :: as =>
    if a = sep then [] :: splitAt sep as
    else
      match splitAt sep as with
      | piece :: pieces => (a :: piece) :: pieces
      | [] => [[a]]

theorem splitAt_ne_nil (sep : α) : ∀ as : List α, splitAt sep as ≠ []
  | [] => by simp [splitAt]
  | a :: as => by
    simp only [splitAt]
    split
    · simp
    · split <;> simp

/-! ## Lines of bytes -/

def stripReturn (line : List UInt8) : List UInt8 :=
  if line.getLast? = some 0x0d then line.dropLast else line

/-- The lines of a text: what stands in front of each line feed, and what stands behind the last one if
there is anything. -/
def lines (s : List UInt8) : List (List UInt8) :=
  let pieces := splitAt 0x0a s
  let last := pieces.getLast?.getD []
  pieces.dropLast.map stripReturn ++ (if last.isEmpty then [] else [last])

end TileTrace.Text
