import BmcCodes.UnitTest.Template

/-!
# The verdict of a suite

A suite should count the tests in which an assertion fails.  `__ASSERT_TRUE` compares
its condition with `1`, though, so a condition that is true in C without being `1`
fails as well.  The count is right exactly when each test with such a condition has
an assertion that fails by rights.
-/

namespace BmcCodes.UnitTest

/-- The assertion fails: the two values differ, or the condition is false in C. -/
def Assertion.fails : Assertion → Bool
  | .equalInt _ expected actual => expected ≠ actual
  | .isTrue _ condition => condition = 0

/-- The condition is true in C and is not `1`. -/
def Assertion.oddlyTrue : Assertion → Bool
  | .equalInt _ _ _ => false
  | .isTrue _ condition => condition ≠ 0 ∧ condition ≠ 1

/-- The counter is the number of tests with a failing assertion, and the suite is
reported as good if there is none. -/
structure Verdict (tests : List (List Assertion)) (result : Int × List Event) : Prop where
  counter : result.1 = tests.countP fun test => test.any Assertion.fails
  report : .output .ok ∈ result.2 ↔ ∀ test ∈ tests, ∀ a ∈ test, a.fails = false

/-! ## One test -/

/-- A helper returns `false` for an assertion that fails, and for one whose condition
is oddly true. -/
theorem run_eq_cFalse_iff (a : Assertion) :
    cFalse = a.run.1 ↔ (a.fails || a.oddlyTrue) = true := by
  cases a with
  | equalInt site expected actual =>
      by_cases h : expected = actual <;>
        simp [Assertion.run, assertEqualInt, Assertion.fails, Assertion.oddlyTrue, cFalse,
          cTrue, h]
  | isTrue site condition =>
      by_cases hone : condition = 1
      · simp [Assertion.run, assertTrue, Assertion.fails, Assertion.oddlyTrue, cFalse, cTrue,
          hone]
      · by_cases hzero : condition = 0 <;>
          simp [Assertion.run, assertTrue, Assertion.fails, Assertion.oddlyTrue, cFalse,
            cTrue, hone, hzero, Ne.symm hone]

/-- A test returns `false` exactly when one of its helpers would. -/
theorem runAssertions_eq_cFalse_iff (test : List Assertion) :
    cFalse = (runAssertions test).1 ↔
      (test.any fun a => a.fails || a.oddlyTrue) = true := by
  induction test with
  | nil => decide
  | cons a as ih =>
      rw [runAssertions, List.any_cons, Bool.or_eq_true, ← run_eq_cFalse_iff, ← ih]
      dsimp only
      split
      · next h => exact iff_of_true rfl (.inl h)
      · next h => exact (or_iff_right h).symm

/-- No helper prints the verdict of the suite. -/
theorem ok_not_mem_runAssertions (test : List Assertion) :
    .output .ok ∉ (runAssertions test).2 := by
  have hrun : ∀ a : Assertion, .output .ok ∉ a.run.2 := by
    intro a
    cases a with
    | equalInt site expected actual =>
        simp only [Assertion.run, assertEqualInt]
        split <;> simp
    | isTrue site condition =>
        simp only [Assertion.run, assertTrue]
        split <;> simp
  induction test with
  | nil => simp [runAssertions]
  | cons a as ih =>
      rw [runAssertions]
      dsimp only
      split
      · exact hrun a
      · exact fun h => (List.mem_append.mp h).elim (hrun a) ih

/-! ## Suites -/

theorem runTests_counter (tests : List (List Assertion)) (cnt : Int) :
    (runTests tests cnt).1 =
      cnt + tests.countP fun test => test.any fun a => a.fails || a.oddlyTrue := by
  induction tests generalizing cnt with
  | nil => simp [runTests]
  | cons test tests ih =>
      rw [runTests, List.countP_cons]
      dsimp only
      rw [ih, runTest]
      simp only [runAssertions_eq_cFalse_iff]
      split <;> push_cast <;> omega

theorem ok_not_mem_runTests (tests : List (List Assertion)) (cnt : Int) :
    .output .ok ∉ (runTests tests cnt).2 := by
  induction tests generalizing cnt with
  | nil => simp [runTests]
  | cons test tests ih =>
      rw [runTests]
      exact fun h => (List.mem_append.mp h).elim (ok_not_mem_runAssertions test) (ih _)

theorem runSuite_counter (tests : List (List Assertion)) :
    (runSuite tests).1 =
      tests.countP fun test => test.any fun a => a.fails || a.oddlyTrue := by
  have hcounter := runTests_counter tests 0
  rw [Int.zero_add] at hcounter
  exact hcounter

/-- A suite is reported as good exactly when its counter is not positive. -/
theorem ok_mem_runSuite_iff (tests : List (List Assertion)) :
    .output .ok ∈ (runSuite tests).2 ↔ (runSuite tests).1 ≤ 0 := by
  have hend : ∀ cnt : Int, .output .ok ∈ testEnd cnt ↔ cnt ≤ 0 := by
    intro cnt
    unfold testEnd
    split <;> simp <;> omega
  have hsuite : (runSuite tests).2 = [.output .beginning, .testSetup] ++
      (runTests tests 0).2 ++ testEnd (runSuite tests).1 := rfl
  rw [hsuite, List.mem_append, List.mem_append, hend]
  simp [ok_not_mem_runTests]

/-- Where one count is of fewer elements than another, they agree only if both are of
the same. -/
theorem countP_eq_countP_iff {α : Type*} {p q : α → Bool} {l : List α}
    (h : ∀ x ∈ l, p x = true → q x = true) :
    l.countP q = l.countP p ↔ ∀ x ∈ l, q x = true → p x = true := by
  constructor
  · intro hcount
    induction l with
    | nil => simp
    | cons x l ih =>
        have htail : ∀ y ∈ l, p y = true → q y = true := fun y hy => h y (by simp [hy])
        have hmono := List.countP_mono_left htail
        have hx := h x (by simp)
        rw [List.countP_cons, List.countP_cons] at hcount
        rw [List.forall_mem_cons]
        cases hp : p x <;> cases hq : q x <;> simp_all
        · omega
  · intro hback
    exact List.countP_congr fun x hx => ⟨hback x hx, h x hx⟩

/-- **When the verdict of a suite is right**: if and only if each test that asserts a
condition other than `0` and `1` has an assertion that fails. -/
theorem verdict_iff_oddlyTrue_fails (tests : List (List Assertion)) :
    Verdict tests (runSuite tests) ↔
      ∀ test ∈ tests, (∃ a ∈ test, a.oddlyTrue = true) → ∃ a ∈ test, a.fails = true := by
  have himp : ∀ test ∈ tests, (test.any Assertion.fails) = true →
      (test.any fun a => a.fails || a.oddlyTrue) = true := by
    intro test _ h
    obtain ⟨a, ha, hfails⟩ := List.any_eq_true.mp h
    exact List.any_eq_true.mpr ⟨a, ha, by simp [hfails]⟩
  have hcounts : (runSuite tests).1 = tests.countP (fun test => test.any Assertion.fails) ↔
      ∀ test ∈ tests, (∃ a ∈ test, a.oddlyTrue = true) → ∃ a ∈ test, a.fails = true := by
    rw [runSuite_counter, Int.natCast_inj, countP_eq_countP_iff himp]
    refine forall₂_congr fun test _ => ?_
    simp only [List.any_eq_true, Bool.or_eq_true]
    constructor
    · intro h hsome
      obtain ⟨a, ha, hodd⟩ := hsome
      exact h ⟨a, ha, .inr hodd⟩
    · intro h hsome
      obtain ⟨a, ha, hfails | hodd⟩ := hsome
      · exact ⟨a, ha, hfails⟩
      · exact h ⟨a, ha, hodd⟩
  rw [← hcounts]
  constructor
  · exact Verdict.counter
  · intro hcounter
    refine ⟨hcounter, ?_⟩
    have hnone : ((tests.countP fun test => test.any Assertion.fails : Nat) : Int) ≤ 0 ↔
        tests.countP (fun test => test.any Assertion.fails) = 0 := by omega
    rw [ok_mem_runSuite_iff, hcounter, hnone, List.countP_eq_zero]
    refine forall₂_congr fun test _ => ?_
    rw [Bool.not_eq_true, List.any_eq_false]
    exact forall₂_congr fun a _ => by rw [Bool.not_eq_true]

/-- A masked flag is true in C. -/
theorem masked_flag_counted :
    ¬ Verdict [[.isTrue ⟨"test_unity.c", "test", 1⟩ 0x10]]
        (runSuite [[.isTrue ⟨"test_unity.c", "test", 1⟩ 0x10]]) := by
  intro h
  exact absurd h.counter (by decide)

end BmcCodes.UnitTest
