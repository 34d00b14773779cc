import BorderTiles.Notice

/-!
# Logged

Steps that report.  A `Logged` step gives its reports in order, also if it ends in a fault.
-/

namespace BorderTiles

/-- A result, or the fault that prevents it, with the reports made on the way. -/
structure Logged (α τ : Type) where
  notices : List (Notice α)
  result : Except Fault τ

namespace Logged
variable {α τ σ : Type}

/-- A result without a report. -/
def pure (x : τ) : Logged α τ := ⟨[], .ok x⟩

/-- One step after another; a fault ends the first one's part. -/
def bind (m : Logged α τ) (f : τ → Logged α σ) : Logged α σ :=
  match m.result with
  | .error fault => ⟨m.notices, .error fault⟩
  | .ok x => ⟨m.notices ++ (f x).notices, (f x).result⟩

instance : Monad (Logged α) where
  pure := pure
  bind := bind

/-- A report. -/
def note (n : Notice α) : Logged α Unit := ⟨[n], .ok ()⟩

/-- A result or fault without a report. -/
def ofExcept (r : Except Fault τ) : Logged α τ := ⟨[], r⟩

/-- A fault without a report. -/
def fail (fault : Fault) : Logged α τ := ⟨[], .error fault⟩

end Logged
end BorderTiles
