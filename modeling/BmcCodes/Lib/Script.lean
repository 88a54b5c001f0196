import Mathlib.Data.List.Basic

/-!
# Scripts of fallible steps

A transfer is a list of steps, performed in order and numbered from `p` on; the
other side decides by `ok` whether the step with a given number succeeds.  Two
disciplines occur in drivers.  Either the first failure ends the script, and
`attempted` is what was performed; or the script runs to its end and a failure
is only remembered, in which case `allOk` is what is reported.  `trace` collects
what the performed steps emit.

Steps, emissions and the decisions of the other side are arbitrary types.
-/

namespace BmcCodes.Lib.Script

variable {σ τ υ : Type*} (ok : Nat → σ → Bool) (emit : Nat → σ → List τ)

/-- The steps performed when the first failure ends the script; the failing
step is the last of them. -/
def attempted : Nat → List σ → List σ
  | _, [] => []
  | p, x :: xs => if ok p x then x :: attempted (p + 1) xs else [x]

/-- Whether every step of the script succeeds. -/
def allOk : Nat → List σ → Bool
  | _, [] => true
  | p, x :: xs => ok p x && allOk (p + 1) xs

/-- What the steps of the script emit, all of them being performed. -/
def trace : Nat → List σ → List τ
  | _, [] => []
  | p, x :: xs => emit p x ++ trace (p + 1) xs

@[simp] theorem attempted_nil (p : Nat) : attempted ok p [] = [] := rfl

@[simp] theorem allOk_nil (p : Nat) : allOk ok p [] = true := rfl

@[simp] theorem trace_nil (p : Nat) : trace emit p [] = [] := rfl

theorem attempted_cons (p : Nat) (x : σ) (xs : List σ) :
    attempted ok p (x :: xs) =
      if ok p x then x :: attempted ok (p + 1) xs else [x] := rfl

theorem allOk_cons (p : Nat) (x : σ) (xs : List σ) :
    allOk ok p (x :: xs) = (ok p x && allOk ok (p + 1) xs) := rfl

theorem trace_cons (p : Nat) (x : σ) (xs : List σ) :
    trace emit p (x :: xs) = emit p x ++ trace emit (p + 1) xs := rfl

/-! ## Success -/

theorem allOk_append (p : Nat) (xs ys : List σ) :
    allOk ok p (xs ++ ys) =
      (allOk ok p xs && allOk ok (p + xs.length) ys) := by
  induction xs generalizing p with
  | nil => simp
  | cons x xs ih =>
      simp only [List.cons_append, allOk_cons, List.length_cons, ih,
        Bool.and_assoc]
      rw [show p + 1 + xs.length = p + (xs.length + 1) by omega]

/-- A script succeeds exactly when the step at every position does. -/
theorem allOk_iff (p : Nat) (xs : List σ) :
    allOk ok p xs = true ↔
      ∀ i (hi : i < xs.length), ok (p + i) xs[i] = true := by
  induction xs generalizing p with
  | nil => simp
  | cons x xs ih =>
      simp only [allOk_cons, Bool.and_eq_true, ih]
      constructor
      · intro h i hi
        obtain ⟨hx, hxs⟩ := h
        cases i with
        | zero => exact hx
        | succ i =>
            have h := hxs i (by simpa using hi)
            rw [show p + 1 + i = p + (i + 1) by omega] at h
            simpa using h
      · intro h
        refine ⟨h 0 (Nat.succ_pos _), fun i hi => ?_⟩
        have hsucc := h (i + 1) (by simpa using hi)
        rw [show p + (i + 1) = p + 1 + i by omega] at hsucc
        simpa using hsucc

/-! ## What is performed -/

theorem attempted_isPrefix (p : Nat) (xs : List σ) :
    attempted ok p xs <+: xs := by
  induction xs generalizing p with
  | nil => exact List.nil_prefix
  | cons x xs ih =>
      rw [attempted_cons]
      split
      · exact (List.prefix_cons_inj x).mpr (ih (p + 1))
      · exact ⟨xs, rfl⟩

/-- A script without failure is performed whole. -/
theorem attempted_of_allOk (p : Nat) (xs : List σ)
    (h : allOk ok p xs = true) : attempted ok p xs = xs := by
  induction xs generalizing p with
  | nil => rfl
  | cons x xs ih =>
      rw [allOk_cons, Bool.and_eq_true] at h
      rw [attempted_cons, if_pos h.1, ih (p + 1) h.2]

/-- The steps up to the first failure are what is performed of them. -/
theorem attempted_attempted (p : Nat) (xs : List σ) :
    attempted ok p (attempted ok p xs) = attempted ok p xs := by
  induction xs generalizing p with
  | nil => rfl
  | cons x xs ih =>
      rw [attempted_cons]
      split
      · next h => rw [attempted_cons, if_pos h, ih]
      · next h => rw [attempted_cons, if_neg h]

theorem allOk_attempted (p : Nat) (xs : List σ) :
    allOk ok p (attempted ok p xs) = allOk ok p xs := by
  induction xs generalizing p with
  | nil => rfl
  | cons x xs ih =>
      rw [attempted_cons, allOk_cons]
      split
      · next h => rw [allOk_cons, ih]
      · next h => rw [allOk_cons, (Bool.not_eq_true _).mp h, Bool.false_and, Bool.false_and]

/-- A script runs to its end exactly when no step before the last one fails. -/
theorem attempted_eq_self_iff (p : Nat) (xs : List σ) :
    attempted ok p xs = xs ↔
      ∀ i (hi : i + 1 < xs.length), ok (p + i) xs[i] = true := by
  induction xs generalizing p with
  | nil => simp
  | cons x xs ih =>
      rw [attempted_cons]
      by_cases hx : ok p x = true
      · rw [if_pos hx, List.cons_inj_right, ih]
        constructor
        · intro h i hi
          cases i with
          | zero => exact hx
          | succ i =>
              have hrest := h i (by simpa using hi)
              rwa [Nat.add_right_comm] at hrest
        · intro h i hi
          have hsucc := h (i + 1) (by simpa using hi)
          rwa [show p + (i + 1) = p + 1 + i by omega] at hsucc
      · rw [if_neg hx]
        constructor
        · intro h i hi
          -- a failing first step is then the whole script
          rw [List.cons_inj_right] at h
          subst h
          simp at hi
        · intro h
          cases xs with
          | nil => rfl
          | cons y ys => exact absurd (h 0 (by simp)) hx

/-- A failing script is a prefix of what is performed of any longer one. -/
theorem attempted_append (p : Nat) (xs ys : List σ) :
    attempted ok p (xs ++ ys) =
      if allOk ok p xs then xs ++ attempted ok (p + xs.length) ys
      else attempted ok p xs := by
  induction xs generalizing p with
  | nil => simp
  | cons x xs ih =>
      rw [List.cons_append, attempted_cons, attempted_cons, allOk_cons, ih]
      rw [List.length_cons, show p + 1 + xs.length = p + (xs.length + 1) by omega]
      cases ok p x <;> cases allOk ok (p + 1) xs <;> simp

/-! ## What is emitted -/

theorem trace_append (p : Nat) (xs ys : List σ) :
    trace emit p (xs ++ ys) =
      trace emit p xs ++ trace emit (p + xs.length) ys := by
  induction xs generalizing p with
  | nil => simp
  | cons x xs ih =>
      rw [List.cons_append, trace_cons, trace_cons, ih, List.append_assoc,
        List.length_cons, show p + 1 + xs.length = p + (xs.length + 1) by omega]

/-- A filtered trace whose emissions do not depend on the step's number lists
the steps themselves. -/
theorem filterMap_trace {f : τ → Option υ} {g : σ → List υ}
    (h : ∀ p x, (emit p x).filterMap f = g x) (p : Nat) (xs : List σ) :
    (trace emit p xs).filterMap f = xs.flatMap g := by
  induction xs generalizing p with
  | nil => rfl
  | cons x xs ih =>
      rw [trace_cons, List.filterMap_append, h, ih, List.flatMap_cons]

end BmcCodes.Lib.Script
