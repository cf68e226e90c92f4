import TypeScribe.Registry

/-!
# Steps that may fail

Construction, conversion and the course of a compilation are steps that succeed with a value or fail,
and leave a state behind either way. `bind_apply` runs two steps in turn, and `ok_of_bind` takes a
success apart into the successes of its steps. Whether a given step succeeds or fails can be computed
(`succeeds`, `fails`).
-/

namespace TypeScribe

variable {ε σ α β : Type}

/-- Two steps in turn: the second is taken if the first succeeds. -/
theorem bind_apply (m : EStateM ε σ α) (k : α → EStateM ε σ β) (s : σ) :
    (m >>= k) s =
      match m s with
      | .ok a s' => k a s'
      | .error e s' => .error e s' := by
  have hrun := EStateM.run_bind (s := s) m k
  simp only [EStateM.run] at hrun
  rw [hrun]
  cases m s <;> rfl

/-- Steps in turn succeed if each of them does. -/
theorem ok_of_bind {m : EStateM ε σ α} {k : α → EStateM ε σ β} {s s'' : σ} {b : β}
    (h : (m >>= k) s = .ok b s'') : ∃ a s', m s = .ok a s' ∧ k a s' = .ok b s'' := by
  rw [bind_apply] at h
  cases hm : m s with
  | ok a s' =>
    rw [hm] at h
    exact ⟨a, s', rfl, h⟩
  | error e s' =>
    rw [hm] at h
    cases h

theorem bind_ok {m : EStateM ε σ α} (k : α → EStateM ε σ β) {s s' : σ} {a : α}
    (h : m s = .ok a s') : (m >>= k) s = k a s' := by
  rw [bind_apply, h]

theorem bind_error {m : EStateM ε σ α} (k : α → EStateM ε σ β) {s s' : σ} {e : ε}
    (h : m s = .error e s') : (m >>= k) s = .error e s' := by
  rw [bind_apply, h]

/-- The state that a step leaves behind, whether it succeeds or fails. -/
def leaves : EStateM.Result ε σ α → σ
  | .ok _ s => s
  | .error _ s => s

/-- Whether a step has succeeded, with a value and a state that pass a test. -/
def succeeds (test : α → σ → Bool) : EStateM.Result ε σ α → Bool
  | .ok a s => test a s
  | .error _ _ => false

/-- A test of the result that comes out true has a value and a state to show for it. -/
theorem exists_of_succeeds (result : EStateM.Result ε σ α) (test : α → σ → Bool)
    (h : succeeds test result = true) : ∃ a s, result = .ok a s ∧ test a s = true := by
  cases result with
  | ok a s => exact ⟨a, s, rfl, h⟩
  | error e s => cases h

/-- Whether a step has failed, in a way that passes a test. -/
def fails (test : ε → Bool) : EStateM.Result ε σ α → Bool
  | .ok _ _ => false
  | .error e _ => test e

theorem exists_of_fails (result : EStateM.Result ε σ α) (test : ε → Bool)
    (h : fails test result = true) : ∃ e s, result = .error e s ∧ test e = true := by
  cases result with
  | ok a s => cases h
  | error e s => exact ⟨e, s, rfl, h⟩

end TypeScribe
