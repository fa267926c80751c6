import Mathlib.Data.List.Induction
import TileTrace.Json.Document
import TileTrace.Proofs.Snapshot.Tree

/-!
# Documents from their tokens

The tokens of a written document make its tree and nothing is left behind it. A document of a map that
breaks off makes no closed map: whatever was open is given up, and its fault is left in the root.
-/

namespace TileTrace.Json

open Snapshot

/-! ## Whole documents -/

def State.run (s : State) (ts : List Token) : State := ts.foldl State.step s

theorem State.run_append (s : State) (ts us : List Token) : s.run (ts ++ us) = (s.run ts).run us :=
  List.foldl_append

theorem State.run_cons (s : State) (t : Token) (ts : List Token) : s.run (t :: ts) = (s.step t).run ts := rfl

theorem State.step_firstItem {t : Token} (h : t ≠ .closeList) (frames : List Frame) :
    (State.within .firstItem frames).step t = (State.within .value frames).step t := by
  cases t with
  | closeList => exact absurd rfl h
  | _ => rfl

theorem lexemes_head (v : Value) : ∃ l ls, lexemes v = l :: ls ∧ l.token ≠ .closeList := by
  cases v with
  | list vs => cases vs <;> exact ⟨_, _, rfl, by simp [Lexeme.token]⟩
  | map es => cases es <;> exact ⟨_, _, rfl, by simp [Lexeme.token]⟩
  | _ => exact ⟨_, _, rfl, by simp [Lexeme.token]⟩

theorem State.run_firstItem (v : Value) (frames : List Frame) :
    (State.within .firstItem frames).run ((lexemes v).map Lexeme.token) =
      (State.within .value frames).run ((lexemes v).map Lexeme.token) := by
  obtain ⟨l, ls, hl, ht⟩ := lexemes_head v
  rw [hl, List.map_cons, State.run_cons, State.run_cons, State.step_firstItem ht]

theorem State.run_quoted_key (k : Key) (es : List (Node × Node)) (frames : List Frame) {place : Place}
    (h : place = .firstKey ∨ place = .key) (ts : List Token) :
    (State.within place (.map es none :: frames)).run
        ((Lexeme.quoted (keyText k)).token :: Lexeme.colon.token :: ts) =
      (State.within .value (.map es (some (Node.ofKey .json k)) :: frames)).run ts := by
  rcases h with rfl | rfl <;> rfl

mutual

/-- The tokens of a value put its node where a value is due. -/
theorem State.run_lexemes : ∀ (v : Value) (frames : List Frame),
    (State.within .value frames).run ((lexemes v).map Lexeme.token) = State.put (Node.ofValue .json v) frames
  | .absent, _ => rfl
  | .flag _, _ => rfl
  | .word _, _ => rfl
  | .text _, _ => rfl
  | .list [], _ => rfl
  | .list (v :: vs), frames => by
    have hopen : (State.within .value frames).step Lexeme.openList.token =
      State.within .firstItem (.list [] :: frames) := rfl
    simp only [lexemes, List.map_cons, List.map_append, State.run_cons, State.run_append, hopen,
      State.run_firstItem, State.run_lexemes v]
    rw [State.put, Frame.push, State.run_itemLexemes vs]
    simp [State.run, State.step, Lexeme.token, Frame.close, Node.ofValue, Node.ofItems, Node.announced]
  | .map [], _ => rfl
  | .map ((k, v) :: es), frames => by
    have hopen : (State.within .value frames).step Lexeme.openMap.token =
      State.within .firstKey (.map [] none :: frames) := rfl
    simp only [lexemes, List.map_cons, List.map_append]
    rw [State.run_cons, hopen, State.run_quoted_key k [] frames (.inl rfl), State.run_append,
      State.run_lexemes v, State.put, Frame.push, State.run_append, State.run_entryLexemes es]
    simp [State.run, State.step, Lexeme.token, Frame.close, Node.ofValue, Node.ofEntries, Node.announced]

theorem State.run_itemLexemes : ∀ (vs : List Value) (items : List Node) (frames : List Frame),
    (State.within .next (.list items :: frames)).run ((itemLexemes vs).map Lexeme.token) =
      State.within .next (.list ((Node.ofItems .json vs).reverse ++ items) :: frames)
  | [], _, _ => rfl
  | v :: vs, items, frames => by
    have hcomma : (State.within .next (.list items :: frames)).step Lexeme.comma.token =
      State.within .value (.list items :: frames) := rfl
    simp only [itemLexemes, List.map_cons, List.map_append]
    rw [State.run_cons, hcomma, State.run_append, State.run_lexemes v, State.put, Frame.push,
      State.run_itemLexemes vs]
    simp [Node.ofItems]

theorem State.run_entryLexemes : ∀ (es : List (Key × Value)) (entries : List (Node × Node))
    (frames : List Frame),
    (State.within .next (.map entries none :: frames)).run ((entryLexemes es).map Lexeme.token) =
      State.within .next (.map ((Node.ofEntries .json es).reverse ++ entries) none :: frames)
  | [], _, _ => rfl
  | (k, v) :: es, entries, frames => by
    have hcomma : (State.within .next (.map entries none :: frames)).step Lexeme.comma.token =
      State.within .key (.map entries none :: frames) := rfl
    simp only [entryLexemes, List.map_cons, List.map_append]
    rw [State.run_cons, hcomma, State.run_quoted_key k entries frames (.inr rfl), State.run_append,
      State.run_lexemes v, State.put, Frame.push, State.run_entryLexemes es]
    simp [Node.ofEntries]

end

theorem State.run_start (v : Value) :
    State.start.run ((lexemes v).map Lexeme.token) = .complete (Node.ofValue .json v) none :=
  State.run_lexemes v []

theorem Document.ofBytes_encode (v : Value) :
    Document.ofBytes (encode v) = ⟨Node.ofValue .json v, none⟩ := by
  have h := State.run_start v
  rw [State.run] at h
  rw [Document.ofBytes, scan_encode, h]
  rfl

/-! ## The list or map around everything -/

inductive Outermost (P : Frame → Prop) : List Frame → Prop
  | only {f : Frame} (h : P f) : Outermost P [f]
  | cons (f : Frame) {frames : List Frame} (h : Outermost P frames) : Outermost P (f :: frames)

/-- A property that a frame keeps while it is open, and one of the tree it is given up as. -/
structure Holds (P : Frame → Prop) (Q : Node → Prop) : Prop where
  push {f : Frame} {n : Node} (h : P f) (hn : n.stop? = none) : P (f.push n)
  await {f : Frame} (k : Node) (h : P f) : P (f.await k)
  abandon {f : Frame} (fault : Fault) (h : P f) : Q (f.close (some fault))
  abandonPush {f : Frame} (n : Node) (fault : Fault) (h : P f) : Q ((f.push n).close (some fault))

/-- The outermost frame has the one property as long as it is open, and the tree the other. -/
def State.Rooted (P : Frame → Prop) (Q : Node → Prop) : State → Prop
  | within _ frames => Outermost P frames
  | complete root _ => Q root

section
variable {P : Frame → Prop} {Q : Node → Prop} {f g : Frame} {frames : List Frame}

theorem Outermost.update (h : Outermost P (f :: frames)) (hg : P f → P g) : Outermost P (g :: frames) := by
  cases h with
  | only h => exact .only (hg h)
  | cons f h => exact .cons g h

namespace State

theorem Rooted.abandonAround (hk : Holds P Q) (fault : Fault) (n : Node) (h : Outermost P frames) :
    (State.abandonAround fault n frames).Rooted P Q := by
  induction h generalizing n with
  | only h => exact hk.abandonPush n fault h
  | cons f h ih => exact ih _

theorem Rooted.abandon (hk : Holds P Q) (fault : Fault) (h : Outermost P frames) :
    (State.abandon fault frames).Rooted P Q := by
  cases h with
  | only h => exact hk.abandon fault h
  | cons f h => exact .abandonAround hk fault _ h

theorem Rooted.put (hk : Holds P Q) {n : Node} (hn : n.stop? = none) (h : Outermost P frames) :
    (State.put n frames).Rooted P Q := by
  cases frames with
  | nil => cases h
  | cons f frames => exact h.update fun hf => hk.push hf hn

theorem Rooted.putLeaf (hk : Holds P Q) (n : Node) (h : Outermost P frames) :
    (State.putLeaf n frames).Rooted P Q := by
  unfold State.putLeaf
  split
  · exact .put hk ‹_› h
  · exact .abandonAround hk _ n h

theorem Rooted.stepValue (hk : Holds P Q) (t : Token) (h : Outermost P frames) :
    (State.stepValue frames t).Rooted P Q := by
  unfold State.stepValue
  split
  · exact h.cons _
  · exact h.cons _
  · exact .putLeaf hk _ h
  · exact .putLeaf hk _ h
  · exact .abandonAround hk _ _ h

theorem Rooted.stepKey (hk : Holds P Q) (text number : Node) (rest : Option Fault) (h : Outermost P frames) :
    (State.stepKey text number rest frames).Rooted P Q := by
  cases frames with
  | nil => cases h
  | cons f frames =>
    have hawait : ∀ k, Outermost P (f.await k :: frames) := fun k => h.update (hk.await k)
    simp only [State.stepKey]
    split
    · exact hawait _
    · exact .abandonAround hk _ _ (hawait _)

def Closed (P : Frame → Prop) (s : State) : Prop :=
  ∃ f, P f ∧ s = .complete (f.close none) none

theorem Rooted.close (hk : Holds P Q) (h : Outermost P (f :: frames)) :
    (State.put (f.close none) frames).Rooted P Q ∨ (State.put (f.close none) frames).Closed P := by
  cases h with
  | only h => exact .inr ⟨f, h, rfl⟩
  | cons f h =>
    have hn : (f.close none).stop? = none := by cases f <;> rfl
    exact .inl (.put hk hn h)

/-- A token leaves the outermost list or map open or gives it up, unless it is the mark that ends it. -/
theorem Rooted.step (hk : Holds P Q) {place : Place} (h : Outermost P frames) (t : Token) :
    ((State.within place frames).step t).Rooted P Q ∨
      ¬ t.IsValue ∧ ((State.within place frames).step t).Closed P := by
  have hmark : ∀ {f : Frame} {gs : List Frame}, frames = f :: gs → ¬ t.IsValue →
      (State.put (f.close none) gs).Rooted P Q ∨ ¬ t.IsValue ∧ (State.put (f.close none) gs).Closed P := by
    intro f gs hf ht
    rw [hf] at h
    exact (Rooted.close hk h).imp id fun hc => ⟨ht, hc⟩
  simp only [State.step]
  split
  · exact .inl (.stepValue hk _ h)
  · exact hmark rfl id
  · exact .inl (.stepValue hk _ h)
  · exact hmark rfl id
  · exact .inl (.stepKey hk _ _ _ h)
  · exact .inl (.stepKey hk _ _ _ h)
  · exact .inl h
  · exact .inl (.abandonAround hk _ _ h)
  · exact .inl h
  · exact hmark rfl id
  · exact .inl h
  · exact hmark rfl id
  · exact .inl (.abandon hk _ h)

theorem abandonAround_eq_complete (fault : Fault) (n : Node) (frames : List Frame) :
    ∃ root, State.abandonAround fault n frames = .complete root (some fault) := by
  induction frames generalizing n with
  | nil => exact ⟨_, rfl⟩
  | cons f frames ih => exact ih _

/-- What is open at the end of the document is given up. -/
theorem finish_within (place : Place) (frames : List Frame) :
    ∃ root fault, (State.within place frames).finish = .complete root (some fault) := by
  have habandon : ∃ root, State.abandon .endOfInput frames = .complete root (some .endOfInput) := by
    cases frames with
    | nil => exact ⟨_, rfl⟩
    | cons f frames => exact abandonAround_eq_complete _ _ _
  obtain ⟨root, hroot⟩ := habandon
  obtain ⟨root', hroot'⟩ := abandonAround_eq_complete .endOfInput (.defect (.fatal .endOfInput)) frames
  cases place with
  | value => exact ⟨root', _, hroot'⟩
  | colon => exact ⟨root', _, hroot'⟩
  | firstItem => exact ⟨root, _, hroot⟩
  | firstKey => exact ⟨root, _, hroot⟩
  | key => exact ⟨root, _, hroot⟩
  | next => exact ⟨root, _, hroot⟩

theorem Rooted.finish (hk : Holds P Q) {s : State} (h : s.Rooted P Q) : Q (Document.ofState s.finish).root := by
  cases s with
  | complete root rest => exact h
  | within place frames =>
    have hrooted : (State.within place frames).finish.Rooted P Q := by
      cases place with
      | value => exact .abandonAround hk _ _ h
      | colon => exact .abandonAround hk _ _ h
      | firstItem => exact .abandon hk _ h
      | firstKey => exact .abandon hk _ h
      | key => exact .abandon hk _ h
      | next => exact .abandon hk _ h
    obtain ⟨root, fault, hfinish⟩ := finish_within place frames
    rw [hfinish] at hrooted ⊢
    exact hrooted

end State

end

def Frame.PassableMap (f : Frame) : Prop :=
  ∃ es k, f = .map es k ∧ ∀ e ∈ es, e.2.stop? = none

theorem Frame.PassableMap.push {f : Frame} {n : Node} (h : f.PassableMap) (hn : n.stop? = none) :
    (f.push n).PassableMap := by
  obtain ⟨es, k, rfl, hes⟩ := h
  cases k with
  | none => exact ⟨es, none, rfl, hes⟩
  | some k => exact ⟨(k, n) :: es, none, rfl, List.forall_mem_cons.mpr ⟨hn, hes⟩⟩

theorem Frame.PassableMap.await {f : Frame} (k : Node) (h : f.PassableMap) : (f.await k).PassableMap := by
  obtain ⟨es, k', rfl, hes⟩ := h
  exact ⟨es, some k, rfl, hes⟩

/-! ## Documents that break off -/

def IsUnclosed (n : Node) : Prop :=
  ∃ es fault, n = .map none es (some fault)

theorem holds_unclosed : Holds Frame.PassableMap IsUnclosed where
  push := Frame.PassableMap.push
  await := Frame.PassableMap.await
  abandon := by
    intro f fault h
    obtain ⟨es, k, rfl, -⟩ := h
    exact ⟨_, fault, rfl⟩
  abandonPush := by
    intro f n fault h
    obtain ⟨es, k, rfl, -⟩ := h
    cases k <;> exact ⟨_, fault, rfl⟩

theorem State.run_faulty (root : Node) (ts : List Token) (fault : Fault) :
    (State.complete root (some fault)).run ts = .complete root (some fault) := by
  induction ts with
  | nil => rfl
  | cons t ts ih => exact ih

theorem State.run_complete (root : Node) (rest : Option Fault) (t : Token) (ts : List Token) :
    ∃ fault, (State.complete root rest).run (t :: ts) = .complete root (some fault) := by
  cases rest with
  | none => exact ⟨_, State.run_faulty root ts .badSyntax⟩
  | some fault => exact ⟨fault, State.run_faulty root (t :: ts) fault⟩

/-- As long as a document is not ended without a fault, it has not ended at all. -/
theorem State.within_of_run {s : State} {ts us : List Token} {t : Token} {root : Node}
    (h : s.run (ts ++ t :: us) = .complete root none) : ∃ place frames, s.run ts = .within place frames := by
  cases hs : s.run ts with
  | within place frames => exact ⟨place, frames, rfl⟩
  | complete root' rest =>
    obtain ⟨fault, hfault⟩ := State.run_complete root' rest t us
    rw [State.run_append, hs, hfault] at h
    cases h

/-- A map is open until its last token. -/
theorem unclosed_of_run {es : List (Key × Value)} {ts us : List Token} {t : Token}
    (h : (lexemes (.map es)).map Lexeme.token = .openMap :: ts ++ t :: us) :
    ∃ place frames, State.start.run (.openMap :: ts) = .within place frames ∧
      Outermost Frame.PassableMap frames := by
  induction ts using List.reverseRecOn generalizing t us with
  | nil => exact ⟨.firstKey, [.map [] none], rfl, .only ⟨[], none, rfl, nofun⟩⟩
  | append_singleton ts u ih =>
    have hrun := State.run_start (.map es)
    have hshort : (lexemes (.map es)).map Lexeme.token = .openMap :: ts ++ u :: t :: us := by
      rw [h]
      simp
    obtain ⟨place, frames, hts, hbottom⟩ := ih hshort
    rw [h] at hrun
    obtain ⟨place', frames', hu⟩ := State.within_of_run hrun
    refine ⟨place', frames', hu, ?_⟩
    have hstep : (State.within place frames).step u = .within place' frames' := by
      rw [← hu, ← hts, ← List.cons_append, State.run_append]
      rfl
    -- The run goes on behind this token, so that the token does not complete the document.
    rcases State.Rooted.step holds_unclosed hbottom u with hs | ⟨-, f, -, hs⟩
    · rw [hstep] at hs
      exact hs
    · rw [hstep] at hs
      cases hs

/-- What a written map that breaks off looks like: nothing at all, or a map that is not closed. -/
theorem root_of_cut {es : List (Key × Value)} {p q : List UInt8} (h : p ++ q = encode (.map es))
    (hq : q ≠ []) :
    (Document.ofBytes p).root = .defect (.fatal .endOfInput) ∨
      ∃ ns fault, (Document.ofBytes p).root = .map none ns (some fault) := by
  obtain ⟨ts, t, us, htokens, hscan⟩ := scan_cut h hq
  have hhead : ∃ rest, (lexemes (.map es)).map Lexeme.token = .openMap :: rest := by
    cases es <;> exact ⟨_, rfl⟩
  obtain ⟨rest, hrest⟩ := hhead
  have hdoc : (Document.ofBytes p).root = (Document.ofState (State.start.run (Token.scan p)).finish).root :=
    rfl
  -- Either nothing is left of the mark that opens the map, or the map is open at the cut.
  cases ts with
  | nil =>
    rcases hscan with hscan | ⟨ht, -⟩
    · rw [hdoc, hscan]
      exact .inl rfl
    · rw [hrest] at htokens
      cases (List.cons.inj htokens).1
      exact absurd ht id
  | cons t' ts =>
    rw [hrest] at htokens
    cases (List.cons.inj htokens).1
    rw [← hrest] at htokens
    obtain ⟨place, frames, hrun, hbottom⟩ := unclosed_of_run htokens
    refine .inr ?_
    rw [hdoc]
    rcases hscan with hscan | ⟨-, u, hscan, hval⟩
    · rw [hscan, hrun]
      exact State.Rooted.finish holds_unclosed hbottom
    · rw [hscan, State.run_append, hrun]
      rcases State.Rooted.step holds_unclosed hbottom u with hs | ⟨hu, -⟩
      · exact State.Rooted.finish holds_unclosed hs
      · exact absurd hval hu

end TileTrace.Json
