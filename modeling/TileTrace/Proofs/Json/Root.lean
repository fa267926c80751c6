import TileTrace.Proofs.Json.Grammar

/-!
# The root of a JSON document

The first byte that is no white space tells whether a text is met as a map or as a list, however it goes on. A
map that is closed in the end has no value that stops one who passes over it.
-/

namespace TileTrace.Json

open Snapshot

def Opens (b : UInt8) (s : List UInt8) : Prop :=
  ∃ w r, IsBlank w ∧ s = w ++ b :: r

section
variable {P : Frame → Prop} {Q : Node → Prop} {s : List UInt8}

/-- What holds of an open list or map holds until it is closed, and then its tree is there. -/
theorem State.Rooted.run (hk : Holds P Q) (hclose : ∀ f, P f → Q (f.close none)) (ts : List Token) :
    ∀ {s : State}, s.Rooted P Q → (s.run ts).Rooted P Q := by
  induction ts with
  | nil => exact fun h => h
  | cons t ts ih =>
    intro s h
    rw [State.run_cons]
    apply ih
    cases s with
    | complete root rest => exact h
    | within place frames =>
      rcases State.Rooted.step hk h t with hs | ⟨-, f, hf, hs⟩
      · exact hs
      · rw [hs]
        exact hclose f hf

theorem root_of_opens (hk : Holds P Q) (hclose : ∀ f, P f → Q (f.close none)) {b : UInt8} {t : Token}
    (hspace : Token.isSpace b = false) (hnext : ∀ s, Token.next b s = (t, s))
    (hstart : (State.start.step t).Rooted P Q) (h : Opens b s) : Q (Document.ofBytes s).root := by
  obtain ⟨w, r, hw, rfl⟩ := h
  have hscan : Token.scan (w ++ b :: r) = t :: Token.scan r := by
    rw [scan_blank hw, scan_mark hspace hnext]
  rw [Document.ofBytes, hscan]
  exact State.Rooted.finish hk (State.Rooted.run hk hclose (Token.scan r) hstart)

theorem root_of_opensMap (h : Opens 0x7b s) : (Document.ofBytes s).root.IsPassableMap := by
  have hk : Holds Frame.PassableMap Node.IsPassableMap := by
    refine ⟨Frame.PassableMap.push, Frame.PassableMap.await, ?_, ?_⟩
    · intro f fault ⟨es, k, hf, _⟩
      exact ⟨none, es.reverse, some fault, by rw [hf, Frame.close], nofun⟩
    · intro f n fault ⟨es, k, hf, _⟩
      rw [hf]
      cases k <;> exact ⟨none, _, some fault, rfl, nofun⟩
  have hclose : ∀ f : Frame, f.PassableMap → (f.close none).IsPassableMap := by
    intro f ⟨es, k, hf, hes⟩
    refine ⟨none, es.reverse, none, by rw [hf, Frame.close], fun _ e he => ?_⟩
    exact hes e (List.mem_reverse.mp he)
  have hstart : (State.start.step .openMap).Rooted Frame.PassableMap Node.IsPassableMap :=
    Outermost.only ⟨[], none, rfl, nofun⟩
  exact root_of_opens hk hclose rfl (fun _ => rfl) hstart h

theorem root_of_opensList (h : Opens 0x5b s) : (Document.ofBytes s).root.IsNoMap := by
  let IsList (f : Frame) : Prop := ∃ items, f = .list items
  have hk : Holds IsList Node.IsNoMap := by
    constructor
    · rintro f n ⟨items, hf⟩ _
      exact ⟨n :: items, by rw [hf, Frame.push]⟩
    · rintro f k ⟨items, hf⟩
      exact ⟨items, by rw [hf, Frame.await]⟩
    · rintro f fault ⟨items, rfl⟩ _ _ _ heq
      cases heq
    · rintro f n fault ⟨items, rfl⟩ _ _ _ heq
      cases heq
  have hclose : ∀ f : Frame, IsList f → (f.close none).IsNoMap := by
    rintro f ⟨items, rfl⟩ _ _ _ heq
    cases heq
  have hstart : (State.start.step .openList).Rooted IsList Node.IsNoMap := Outermost.only ⟨[], rfl⟩
  exact root_of_opens hk hclose rfl (fun _ => rfl) hstart h

end

end TileTrace.Json
