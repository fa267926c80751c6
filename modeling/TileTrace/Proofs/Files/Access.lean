import TileTrace.Files.FileSystem
import TileTrace.Report

/-!
# Actions on file systems

How an action that reports ends on a file system as a value: the result of its report, and the file
system that it leaves. What it logs is left aside.
-/

namespace TileTrace.Reporting

variable {α β : Type} {fs fs' fs'' : FileSystem}

/-! ## Laws -/

section
variable {m : Type → Type}

theorem ext {x y : Reporting m α} (h : x.run = y.run) : x = y :=
  congrArg mk h

variable [Monad m] [LawfulMonad m]

theorem pure_bind_eq (a : α) (f : α → Reporting m β) : pure a >>= f = f a := by
  apply ext
  show pure (Report.mk [] (.ok a)) >>= _ = _
  simp

theorem bind_bind_eq {γ : Type} (x : Reporting m α) (f : α → Reporting m β) (g : β → Reporting m γ) :
    x >>= f >>= g = x >>= fun a => f a >>= g := by
  apply ext
  simp only [Bind.bind, bind, bind_assoc]
  congr 1
  funext r
  cases r.result with
  | error e => simp
  | ok a =>
    simp only [bind_assoc, pure_bind]
    congr 1
    funext s
    cases s.result <;> simp

end

/-! ## On a file system -/

def on (x : Reporting (StateM FileSystem) α) (fs : FileSystem) : Report α × FileSystem :=
  x.run fs

def Ends (x : Reporting (StateM FileSystem) α) (fs : FileSystem) (r : Except Failure α)
    (fs' : FileSystem) : Prop :=
  (x.on fs).1.result = r ∧ (x.on fs).2 = fs'

theorem on_run_bind (x : Reporting (StateM FileSystem) α)
    (f : Report α → StateM FileSystem (Report β)) (fs : FileSystem) :
    on ⟨x.run >>= f⟩ fs = f (x.on fs).1 (x.on fs).2 :=
  rfl

theorem on_bind (x : Reporting (StateM FileSystem) α) (f : α → Reporting (StateM FileSystem) β) :
    (x >>= f).on fs =
      match (x.on fs).1.result with
      | .error e => (⟨(x.on fs).1.log, .error e⟩, (x.on fs).2)
      | .ok a => (⟨(x.on fs).1.log ++ ((f a).on (x.on fs).2).1.log, ((f a).on (x.on fs).2).1.result⟩,
          ((f a).on (x.on fs).2).2) := by
  show (match (x.run fs).1.result with
    | .error e => (pure ⟨(x.run fs).1.log, .error e⟩ : StateM FileSystem (Report β))
    | .ok a => do
      let s ← (f a).run
      return ⟨(x.run fs).1.log ++ s.log, s.result⟩) (x.run fs).2 = _
  unfold on
  cases (x.run fs).1.result with
  | error e => rfl
  | ok a => rfl

theorem on_bind_ofReport (x : Reporting (StateM FileSystem) α) (f : α → Report β) (fs : FileSystem) :
    (x >>= fun a => ofReport (f a)).on fs = ((x.on fs).1.bind f, (x.on fs).2) := by
  rw [on_bind]
  unfold Report.bind
  cases (x.on fs).1.result <;> rfl

theorem result_bind_eq_ok {x : Reporting (StateM FileSystem) α}
    {f : α → Reporting (StateM FileSystem) β} {b : β} (h : ((x >>= f).on fs).1.result = .ok b) :
    ∃ a, (x.on fs).1.result = .ok a ∧ ((f a).on (x.on fs).2).1.result = .ok b := by
  rw [on_bind] at h
  cases hr : (x.on fs).1.result with
  | error e =>
    rw [hr] at h
    cases h
  | ok a =>
    rw [hr] at h
    exact ⟨a, rfl, h⟩

theorem Ends.bind {x : Reporting (StateM FileSystem) α} {f : α → Reporting (StateM FileSystem) β} {a : α}
    {r : Except Failure β} (hx : Ends x fs (.ok a) fs') (hf : Ends (f a) fs' r fs'') :
    Ends (x >>= f) fs r fs'' := by
  obtain ⟨hr, rfl⟩ := hx
  unfold Ends
  rw [on_bind, hr]
  exact hf

theorem Ends.bind_error {x : Reporting (StateM FileSystem) α} {f : α → Reporting (StateM FileSystem) β}
    {e : Failure} (hx : Ends x fs (.error e) fs') : Ends (x >>= f) fs (.error e) fs' := by
  obtain ⟨hr, rfl⟩ := hx
  unfold Ends
  rw [on_bind, hr]
  exact ⟨rfl, rfl⟩

theorem Ends.result_eq {x : Reporting (StateM FileSystem) α} {r r' : Except Failure α} (h : Ends x fs r fs')
    (h' : Ends x fs r' fs'') : r = r' :=
  h.1.symm.trans h'.1

theorem ends_ofReport (r : Report α) : Ends (ofReport r) fs r.result fs :=
  ⟨rfl, rfl⟩

theorem Ends.during {x : Reporting (StateM FileSystem) α} {r : Except Failure α} (h : Ends x fs r fs')
    (activity : Activity) : Ends (x.during activity) fs (r.mapError (.during activity)) fs' := by
  obtain ⟨hr, hfs⟩ := h
  exact ⟨congrArg (Except.mapError (Failure.during activity)) hr, hfs⟩

/-! ## Two file systems -/

/-- The action changes neither file system, and reports the same of both. -/
structure ReadsAlike (x : Reporting (StateM FileSystem) α) (fs fs' : FileSystem) : Prop where
  keeps : (x.on fs).2 = fs
  keeps' : (x.on fs').2 = fs'
  same : (x.on fs').1 = (x.on fs).1

theorem readsAlike_ofReport (r : Report α) : ReadsAlike (ofReport r) fs fs' :=
  ⟨rfl, rfl, rfl⟩

theorem readsAlike_open {path : String} (fail : FileFault → Failure) (h : fs'.find path = fs.find path) :
    ReadsAlike (ofAction fail (Files.openFile path)) fs fs' := by
  refine ⟨rfl, rfl, ?_⟩
  show Report.ofResult (((fs'.find path).map Entry.read).mapError fail) = _
  rw [h]
  rfl

/-- What follows has to read alike only after a result that there is. -/
theorem ReadsAlike.bind {x : Reporting (StateM FileSystem) α} {f : α → Reporting (StateM FileSystem) β}
    (hx : ReadsAlike x fs fs') (hf : ∀ a, (x.on fs).1.result = .ok a → ReadsAlike (f a) fs fs') :
    ReadsAlike (x >>= f) fs fs' := by
  obtain ⟨hkeeps, hkeeps', hsame⟩ := hx
  cases hr : (x.on fs).1.result with
  | error e =>
    -- Both runs stop here, and nothing has to be known of what would follow.
    constructor <;> simp only [on_bind, hsame, hr, hkeeps, hkeeps']
  | ok a =>
    obtain ⟨hk, hk', hs⟩ := hf a hr
    constructor <;> simp only [on_bind, hsame, hr, hkeeps, hkeeps', hk, hk', hs]

/-- A report that is changed without a look at any file. -/
theorem ReadsAlike.changed {x : Reporting (StateM FileSystem) α} {f : Report α → StateM FileSystem (Report β)}
    (hx : ReadsAlike x fs fs') (hf : ∀ r, ∃ s, f r = pure s) : ReadsAlike ⟨x.run >>= f⟩ fs fs' := by
  obtain ⟨hkeeps, hkeeps', hsame⟩ := hx
  obtain ⟨s, hs⟩ := hf (x.on fs).1
  constructor <;> rw [on_run_bind]
  · rw [hs]
    exact hkeeps
  · rw [hsame, hs]
    exact hkeeps'
  · rw [on_run_bind, hsame, hs]
    rfl

theorem ReadsAlike.during {x : Reporting (StateM FileSystem) α} (h : ReadsAlike x fs fs')
    (activity : Activity) :
    ReadsAlike (x.during activity) fs fs' :=
  h.changed fun r => ⟨r.during activity, rfl⟩

/-! ## File operations -/

theorem ends_open (fs : FileSystem) (path : String) (fail : FileFault → Failure) :
    Ends (ofAction fail (Files.openFile path)) fs (((fs.find path).map Entry.read).mapError fail) fs :=
  ⟨rfl, rfl⟩

theorem keep_of_ok (change : FileSystem → Except FileFault FileSystem) (h : change fs = .ok fs') :
    FileSystem.keep change fs = (.ok (), fs') := by
  simp only [FileSystem.keep, h]

theorem keep_of_error (change : FileSystem → Except FileFault FileSystem) {f : FileFault}
    (h : change fs = .error f) : FileSystem.keep change fs = (.error f, fs) := by
  simp only [FileSystem.keep, h]

theorem bind_of_eq {x : StateM FileSystem α} {a : α} (h : x fs = (a, fs')) (f : α → StateM FileSystem β) :
    (x >>= f) fs = f a fs' := by
  show f (x fs).1 (x fs).2 = _
  rw [h]

theorem ends_move {source target : String} (fail : FileFault → Failure) (h : fs.move source target = .ok fs') :
    Ends (ofAction fail (Files.move source target)) fs (.ok ()) fs' := by
  have hkeep := keep_of_ok (·.move source target) h
  exact ⟨congrArg (fun out => out.1.mapError fail) hkeep, congrArg (·.2) hkeep⟩

theorem ends_move_error {source target : String} {f : FileFault} (fail : FileFault → Failure)
    (h : fs.move source target = .error f) :
    Ends (ofAction fail (Files.move source target)) fs (.error (fail f)) fs := by
  have hkeep := keep_of_error (·.move source target) h
  exact ⟨congrArg (fun out => out.1.mapError fail) hkeep, congrArg (·.2) hkeep⟩

end TileTrace.Reporting
