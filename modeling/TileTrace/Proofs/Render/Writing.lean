import TileTrace.Proofs.Render.Acceptance

/-!
# Writing piece by piece

A line trace is not written at once. The pieces of its lines come one after another, a field can fail
between two of them, and what was written before stays written. The text of a rendering is what comes of
writing all pieces, and after a rendering was accepted no piece fails.
-/

namespace TileTrace.Rendering

/-! ## Pieces -/

/-- What writing left behind, and the failure that stopped it. -/
structure Written where
  text : List Char
  failure : Option Failure
  deriving DecidableEq

def Written.ofPieces : List (Except Failure (List Char)) → Written
  | [] => ⟨[], none⟩
  | .error f :: _ => ⟨[], some f⟩
  | .ok s :: ps => ⟨s ++ (ofPieces ps).text, (ofPieces ps).failure⟩

def Written.result (w : Written) : Except Failure (List Char) :=
  match w.failure with
  | none => .ok w.text
  | some f => .error f

theorem Written.result_eq_ok {w : Written} {s : List Char} :
    w.result = .ok s ↔ w.failure = none ∧ w.text = s := by
  unfold result
  cases w.failure <;> simp

namespace Written

variable {ps qs : List (Except Failure (List Char))}

theorem result_cons (p : Except Failure (List Char)) :
    (ofPieces (p :: ps)).result = do return (← p) ++ (← (ofPieces ps).result) := by
  cases p with
  | error f => rfl
  | ok s =>
    unfold result
    simp only [ofPieces]
    cases (ofPieces ps).failure <;> rfl

theorem result_append :
    (ofPieces (ps ++ qs)).result = do return (← (ofPieces ps).result) ++ (← (ofPieces qs).result) := by
  induction ps with
  | nil => cases h : (ofPieces qs).result <;> simp [h] <;> rfl
  | cons p ps ih =>
    rw [List.cons_append, result_cons, result_cons, ih]
    cases p with
    | error f => rfl
    | ok s =>
      cases (ofPieces ps).result with
      | error f => rfl
      | ok s' =>
        cases (ofPieces qs).result with
        | error f => rfl
        | ok s'' => simp [bind, Except.bind, pure, Except.pure]

/-- What comes of groups of pieces, from what comes of each of them. -/
theorem result_flatMap {α : Type} {pieces : α → List (Except Failure (List Char))}
    {f : α → Except Failure (List Char)} (h : ∀ a, (ofPieces (pieces a)).result = f a) (as : List α) :
    (ofPieces (as.flatMap pieces)).result = do return (← as.mapM f).flatten := by
  induction as with
  | nil => rfl
  | cons a as ih =>
    rw [List.flatMap_cons, result_append, h, ih, List.mapM_cons]
    cases f a with
    | error e => rfl
    | ok s => cases as.mapM f <;> rfl

theorem result_map {α : Type} (f : α → Except Failure (List Char)) (as : List α) :
    (ofPieces (as.map f)).result = do return (← as.mapM f).flatten := by
  have hone : ∀ a, (ofPieces [f a]).result = f a := by
    intro a
    rw [result_cons]
    cases f a with
    | error e => rfl
    | ok s => simp [ofPieces, result, bind, Except.bind, pure, Except.pure]
  rw [List.map_eq_flatMap, result_flatMap hone]

end Written

/-! ## The pieces of a line trace -/

section
variable {r : Rendering}

def linePieces (r : Rendering) (lead : List Char) (cellOf : Column → Except Failure (List Char)) :
    List (Except Failure (List Char)) :=
  .ok (lead ++ ['\t']) :: r.columns.map cellOf ++ [.ok ['\n']]

def headerPieces (r : Rendering) (title : String) (label : Tile → List Char) :
    List (Except Failure (List Char)) :=
  r.linePieces title.toList fun c => .ok (cell c (fit (label c.tile) c.mode.width))

def rowPieces (r : Rendering) (n : Cycle) : List (Except Failure (List Char)) :=
  r.linePieces (Numeral.write 10 n.toNat) fun c => return cell c (← r.field c n)

def pieces (r : Rendering) : List (Except Failure (List Char)) :=
  r.headerPieces "Tiles" (fun t => Numeral.write 16 t.x) ++
    r.headerPieces "Cycles" (fun t => Numeral.write 10 t.y) ++ r.trace.window.cycles.flatMap r.rowPieces

def written (r : Rendering) : Written :=
  .ofPieces r.pieces

theorem result_linePieces (lead : List Char) (cellOf : Column → Except Failure (List Char)) :
    (Written.ofPieces (r.linePieces lead cellOf)).result = do
      return lead ++ ['\t'] ++ (← r.columns.mapM cellOf).flatten ++ ['\n'] := by
  have hend : (Written.ofPieces [.ok ['\n']]).result = .ok ['\n'] := rfl
  unfold linePieces
  rw [Written.result_append, Written.result_cons, Written.result_map, hend]
  cases r.columns.mapM cellOf <;> rfl

theorem result_headerPieces (title : String) (label : Tile → List Char) :
    (Written.ofPieces (r.headerPieces title label)).result = .ok (r.header title label) := by
  have hcells : (r.columns.mapM fun c => Except.ok (cell c (fit (label c.tile) c.mode.width))) =
      (.ok (r.columns.map fun c => cell c (fit (label c.tile) c.mode.width)) : Except Failure _) :=
    mapM_eq_ok fun _ _ => rfl
  rw [headerPieces, result_linePieces, hcells, header, List.flatMap_def]
  rfl

theorem result_rowPieces (n : Cycle) : (Written.ofPieces (r.rowPieces n)).result = r.row n :=
  result_linePieces _ _

/-- The text of a rendering is what comes of writing its pieces, and its failure is that of the first piece
that fails. -/
theorem text_eq_written (r : Rendering) : r.text = r.written.result.map String.ofList := by
  unfold written pieces text
  rw [Written.result_append, Written.result_append, result_headerPieces, result_headerPieces,
    Written.result_flatMap result_rowPieces]
  cases r.trace.window.cycles.mapM r.row <;> rfl

/-- Without the check, the header lines and the beginning of a row would be left behind. -/
example :
    let t : Trace := ⟨.reduced, ⟨some 5, some 5⟩, [⟨true, .ofList [(5, ⟨⟨0x1000⟩, "add"⟩)]⟩]⟩
    let w := (Rendering.mk t ⟨.reduced, [some .full]⟩ none).written
    w.failure = some .missingDisassembly ∧ w.text.count '\n' = 2 ∧ "\n5\t".toList <:+ w.text := by
  decide +kernel

theorem written_of_text {s : String} (h : r.text = .ok s) :
    r.written.failure = none ∧ String.ofList r.written.text = s := by
  rw [text_eq_written] at h
  cases hw : r.written.result with
  | error f =>
    rw [hw] at h
    cases h
  | ok cs =>
    obtain ⟨hnone, htext⟩ := Written.result_eq_ok.mp hw
    rw [hw] at h
    exact ⟨hnone, htext ▸ Except.ok.inj h⟩

end

end TileTrace.Rendering
