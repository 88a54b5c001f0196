import Mathlib.Data.List.Basic

/-!
# Runs of deterministic machines

A component that is called again and again is a machine: each call takes an
input, moves the state and, where that matters, returns an output.  Two things
are said about its runs.

* `Each step P s is` — the property `P` of a state and an input holds at every
  call of the run.  Where an abstract machine tracks the concrete one and
  decides `P`, runs can be judged on the abstract side (`each_iff_of_tracks`).
* `Simulation` — every call returns the same output on both sides and keeps the
  states related; then so does every run (`Simulation.run`).
-/

namespace BmcCodes.Lib.Machine

variable {σ τ ι ω : Type*}

/-! ## Properties of every call -/

/-- `P` holds at every call of the run, in the state that the call finds. -/
def Each (step : σ → ι → σ) (P : σ → ι → Prop) : σ → List ι → Prop
  | _, [] => True
  | s, i :: is => P s i ∧ Each step P (step s i) is

section Each

variable (step : σ → ι → σ) (P : σ → ι → Prop)

@[simp] theorem each_nil (s : σ) : Each step P s [] := trivial

@[simp] theorem each_cons (s : σ) (i : ι) (is : List ι) :
    Each step P s (i :: is) ↔ P s i ∧ Each step P (step s i) is := Iff.rfl

theorem each_of_forall (s : σ) {is : List ι} (h : ∀ s, ∀ i ∈ is, P s i) :
    Each step P s is := by
  induction is generalizing s with
  | nil => trivial
  | cons i is ih =>
      exact ⟨h s i (by simp), ih _ fun s j hj => h s j (by simp [hj])⟩

end Each

/-- An abstract machine that tracks the concrete one, and on whose states `ok`
says what `P` says on the concrete ones, decides which runs keep `P`. -/
theorem each_iff_of_tracks {step : σ → ι → σ} {step' : τ → ι → τ}
    {P : σ → ι → Prop} {ok : τ → ι → Prop} {R : σ → τ → Prop}
    (hstep : ∀ s t i, R s t → R (step s i) (step' t i))
    (hok : ∀ s t i, R s t → (P s i ↔ ok t i)) {s : σ} {t : τ} (h : R s t)
    (is : List ι) : Each step P s is ↔ Each step' ok t is := by
  induction is generalizing s t with
  | nil => exact Iff.rfl
  | cons i is ih =>
      rw [each_cons, each_cons, hok s t i h, ih (hstep s t i h)]

/-! ## Outputs -/

/-- The outputs of a run, and the state it ends in. -/
def run (step : σ → ι → ω × σ) : σ → List ι → List ω × σ
  | s, [] => ([], s)
  | s, i :: is =>
      let (out, s') := step s i
      let (outs, s'') := run step s' is
      (out :: outs, s'')

@[simp] theorem run_nil (step : σ → ι → ω × σ) (s : σ) : run step s [] = ([], s) :=
  rfl

theorem run_cons (step : σ → ι → ω × σ) (s : σ) (i : ι) (is : List ι) :
    run step s (i :: is) =
      ((step s i).1 :: (run step (step s i).2 is).1,
        (run step (step s i).2 is).2) := rfl

theorem run_append (step : σ → ι → ω × σ) (s : σ) (is js : List ι) :
    run step s (is ++ js) =
      ((run step s is).1 ++ (run step (run step s is).2 js).1,
        (run step (run step s is).2 js).2) := by
  induction is generalizing s with
  | nil => rfl
  | cons i is ih => rw [List.cons_append, run_cons, ih, run_cons, List.cons_append]

/-- The state of a run does not look at the outputs. -/
theorem run_snd (step : σ → ι → ω × σ) (s : σ) (is : List ι) :
    (run step s is).2 = is.foldl (fun s i => (step s i).2) s := by
  induction is generalizing s with
  | nil => rfl
  | cons i is ih => rw [run_cons, ih, List.foldl_cons]

/-- On related states, an admissible input has one output and leads to related
states again. -/
structure Simulation (step : σ → ι → ω × σ) (step' : τ → ι → ω × τ)
    (R : σ → τ → Prop) (ok : ι → Prop) : Prop where
  output : ∀ {s t i}, R s t → ok i → (step s i).1 = (step' t i).1
  next : ∀ {s t i}, R s t → ok i → R (step s i).2 (step' t i).2

/-- **Simulations lift to runs.** -/
theorem Simulation.run {step : σ → ι → ω × σ} {step' : τ → ι → ω × τ}
    {R : σ → τ → Prop} {ok : ι → Prop} (sim : Simulation step step' R ok)
    {s : σ} {t : τ} (h : R s t) {is : List ι} (his : ∀ i ∈ is, ok i) :
    (Machine.run step s is).1 = (Machine.run step' t is).1 ∧
      R (Machine.run step s is).2 (Machine.run step' t is).2 := by
  induction is generalizing s t with
  | nil => exact ⟨rfl, h⟩
  | cons i is ih =>
      have hi := his i (by simp)
      obtain ⟨houts, hstates⟩ := ih (sim.next h hi) fun j hj => his j (by simp [hj])
      rw [run_cons, run_cons]
      exact ⟨List.cons_eq_cons.mpr ⟨sim.output h hi, houts⟩, hstates⟩

end BmcCodes.Lib.Machine
