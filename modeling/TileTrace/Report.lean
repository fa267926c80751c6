import TileTrace.Failure
import TileTrace.Log

/-!
# Reports

How something went: what was logged on the way, and the result or the failure at which it stopped. An
action of some monad that ends in a report goes on with the next action only after a result.
-/

namespace TileTrace

structure Report (α : Type) where
  log : List Log.Entry
  result : Except Failure α

namespace Report

variable {α β : Type}

def pure (a : α) : Report α := ⟨[], .ok a⟩

def fail (f : Failure) : Report α := ⟨[], .error f⟩

def note (e : Log.Entry) : Report Unit := ⟨[e], .ok ()⟩

def ofResult (r : Except Failure α) : Report α := ⟨[], r⟩

def bind (r : Report α) (f : α → Report β) : Report β :=
  match r.result with
  | .error e => ⟨r.log, .error e⟩
  | .ok a => let s := f a; ⟨r.log ++ s.log, s.result⟩

def during (activity : Activity) (r : Report α) : Report α :=
  ⟨r.log, r.result.mapError (.during activity)⟩

end Report

structure Reporting (m : Type → Type) (α : Type) where
  run : m (Report α)

namespace Reporting

variable {m : Type → Type} [Monad m] {α β : Type}

def ofReport (r : Report α) : Reporting m α :=
  ⟨pure r⟩

def bind (x : Reporting m α) (f : α → Reporting m β) : Reporting m β :=
  ⟨do
    let r ← x.run
    match r.result with
    | .error e => return ⟨r.log, .error e⟩
    | .ok a =>
      let s ← (f a).run
      return ⟨r.log ++ s.log, s.result⟩⟩

instance : Monad (Reporting m) where
  pure a := ofReport (.pure a)
  bind := bind

def ofAction (fail : FileFault → Failure) (x : m (Except FileFault α)) : Reporting m α :=
  ⟨return .ofResult ((← x).mapError fail)⟩

def during (activity : Activity) (x : Reporting m α) : Reporting m α :=
  ⟨return (← x.run).during activity⟩

end Reporting

end TileTrace
