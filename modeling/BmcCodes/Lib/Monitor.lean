import Mathlib.Data.List.Basic

/-!
# Monitors

A monitor reads a log and moves from state to state, as long as it finds nothing wrong.
Whatever holds of every step that it accepts is passed on to the logs that it accepts.

* `run_append` — logs are read one after the other.
* `count_le_of_run` — events that the monitor budgets for: each of them takes from a
  budget that other events fill up.
-/

namespace BmcCodes.Lib.Monitor

variable {σ α : Type*} (step : σ → α → Option σ)

/-- The state after a log, unless something is wrong with it. -/
def run (s : σ) (l : List α) : Option σ := l.foldlM step s

variable {step}

@[simp] theorem run_nil (s : σ) : run step s [] = some s := rfl

theorem run_cons (s : σ) (a : α) (l : List α) :
    run step s (a :: l) = (step s a).bind (run step · l) := by
  rw [run, List.foldlM_cons]
  rfl

theorem run_append (s : σ) (l l' : List α) :
    run step s (l ++ l') = (run step s l).bind (run step · l') := by
  rw [run, List.foldlM_append]
  rfl

theorem run_append_eq_some {s s' : σ} {l l' : List α} (h : run step s (l ++ l') = some s') :
    ∃ s₁, run step s l = some s₁ ∧ run step s₁ l' = some s' := by
  rw [run_append] at h
  exact Option.bind_eq_some_iff.mp h

/-- A log of events that change nothing. -/
theorem run_of_forall {s : σ} {l : List α} (h : ∀ a ∈ l, step s a = some s) :
    run step s l = some s := by
  induction l with
  | nil => rfl
  | cons a l ih =>
      rw [run_cons, h a List.mem_cons_self, Option.bind_some]
      exact ih fun b hb => h b (List.mem_cons_of_mem a hb)

/-- Logs that lead from a state back to it can be joined. -/
theorem run_append_of_loop {s : σ} {l l' : List α} (h : run step s l = some s)
    (h' : run step s l' = some s) : run step s (l ++ l') = some s := by
  rw [run_append, h, Option.bind_some, h']

/-- **Budgets.**  If every event of the kind `p` takes one from a budget that holds `φ` in a
state, and only events of the kind `q` fill it up, by `c` at most, then there are at most
`c` events of the one kind for each of the other. -/
theorem count_le_of_run {φ : σ → Nat} {p q : α → Bool} {c : Nat}
    (hstep : ∀ s a s', step s a = some s' →
      φ s' + (if p a then 1 else 0) ≤ φ s + if q a then c else 0)
    {s s' : σ} {l : List α} (h : run step s l = some s') :
    φ s' + l.countP p ≤ φ s + c * l.countP q := by
  induction l generalizing s with
  | nil =>
      obtain rfl : s = s' := Option.some_inj.mp h
      exact Nat.le_refl _
  | cons a l ih =>
      rw [run_cons] at h
      obtain ⟨s₁, hfirst, hrest⟩ := Option.bind_eq_some_iff.mp h
      have hone := hstep s a s₁ hfirst
      have hmore := ih hrest
      have hfill : c * (l.countP q + if q a then 1 else 0) =
          c * l.countP q + if q a then c else 0 := by
        rw [Nat.mul_add]
        split <;> simp
      rw [List.countP_cons, List.countP_cons, hfill]
      omega

end BmcCodes.Lib.Monitor
