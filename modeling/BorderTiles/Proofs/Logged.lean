import BorderTiles.Logged
import BorderTiles.Proofs.Results

/-!
# Logged — results and reports

What a step that reports gives.

* `result_bind`, `result_foldlM`: results do not depend on the reports, so steps end like the same steps
  without reports.
* `mem_notices_bind`: every report is one of the parts of a step.
-/

namespace BorderTiles.Logged
variable {α τ σ : Type}

theorem result_bind (m : Logged α τ) (f : τ → Logged α σ) :
    (m >>= f).result = m.result >>= fun x => (f x).result := by
  show (Logged.bind m f).result = _
  unfold Logged.bind
  cases h : m.result <;> rfl

/-- A step that goes on has a result if both of its parts have one. -/
theorem result_bind_eq_ok {m : Logged α τ} {f : τ → Logged α σ} {y : σ} :
    (m >>= f).result = .ok y ↔ ∃ x, m.result = .ok x ∧ (f x).result = .ok y := by
  rw [result_bind, BorderTiles.bind_eq_ok]

theorem ofExcept_ok_bind (x : τ) (f : τ → Logged α σ) : (ofExcept (.ok x) >>= f) = f x := rfl

theorem note_bind (n : Notice α) (f : Unit → Logged α σ) :
    (note n >>= f) = ⟨n :: (f ()).notices, (f ()).result⟩ := rfl

theorem result_foldlM (f : σ → τ → Logged α σ) (xs : List τ) (x : σ) :
    (xs.foldlM f x).result = xs.foldlM (fun y z => (f y z).result) x := by
  induction xs generalizing x with
  | nil => rfl
  | cons z rest ih =>
      rw [List.foldlM_cons, List.foldlM_cons, result_bind]
      simp only [ih]

theorem mem_notices_bind {m : Logged α τ} {f : τ → Logged α σ} {n : Notice α}
    (h : n ∈ (m >>= f).notices) :
    n ∈ m.notices ∨ ∃ x, m.result = .ok x ∧ n ∈ (f x).notices := by
  change n ∈ (Logged.bind m f).notices at h
  rw [Logged.bind] at h
  cases hm : m.result with
  | error fault =>
      rw [hm] at h
      exact .inl h
  | ok x =>
      rw [hm] at h
      rcases List.mem_append.mp h with h | h
      · exact .inl h
      · exact .inr ⟨x, rfl, h⟩

end BorderTiles.Logged
