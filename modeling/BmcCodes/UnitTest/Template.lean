import Mathlib.Data.List.Basic

/-!
# The unit-test template

`test_template.h`: the assertion helpers and the macros around them.  An assertion
returns from the test that contains it when it fails; `RUN_TEST` counts the tests
that return `false`, and `TEST_END` reports the counter.

A test is the list of its assertions, with the values their arguments have when they
are reached; it ends with `return true`.  The counter is a variable of the caller.
The string assertion has a module of its own, `StringAssertion`.
-/

namespace BmcCodes.UnitTest

/-- The `false` and `true` of the template. -/
def cFalse : Int := 0
def cTrue : Int := 1

/-- `__FILE__`, `__func__` and `__LINE__` at an assertion. -/
structure Site where
  file : String
  func : String
  line : Int
  deriving DecidableEq, Repr

/-- What is printed, one constructor for each format. -/
inductive Message where
  | equalIntFailed (site : Site) (expected actual : Int)
  | equalIntOk (site : Site)
  | trueFailed (site : Site)
  | beginning
  | testsFailed (cnt : Int)
  | ok
  | ending
  deriving DecidableEq, Repr

/-- What a suite does: it prints, and calls the two functions its author provides. -/
inductive Event where
  | output (m : Message)
  | testSetup
  | testTeardown
  deriving DecidableEq, Repr

/-! ## Assertions -/

/-- `__ASSERT_EQUAL_INT`. -/
def assertEqualInt (site : Site) (expected actual : Int) : Int × List Event :=
  if expected ≠ actual then (cFalse, [.output (.equalIntFailed site expected actual)])
  else (cTrue, [.output (.equalIntOk site)])

/-- `__ASSERT_TRUE`. -/
def assertTrue (site : Site) (condition : Int) : Int × List Event :=
  if cTrue ≠ condition then (cFalse, [.output (.trueFailed site)]) else (cTrue, [])

/-- An assertion of a test, `TEST_ASSERT_EQUAL_INT` or `TEST_ASSERT_TRUE`. -/
inductive Assertion where
  | equalInt (site : Site) (expected actual : Int)
  | isTrue (site : Site) (condition : Int)
  deriving DecidableEq, Repr

/-- What the helper of the assertion returns, and what it prints. -/
def Assertion.run : Assertion → Int × List Event
  | .equalInt site expected actual => assertEqualInt site expected actual
  | .isTrue site condition => assertTrue site condition

/-! ## Tests and suites -/

/-- A test function: the macros return `false` from it at the first assertion whose
helper does. -/
def runAssertions : List Assertion → Int × List Event
  | [] => (cTrue, [])
  | a :: as =>
      let (passed, events) := a.run
      if cFalse = passed then (cFalse, events)
      else
        let (ret, rest) := runAssertions as
        (ret, events ++ rest)

/-- `TEST_BEGIN`, with the counter it leaves. -/
def testBegin : Int × List Event := (0, [.output .beginning, .testSetup])

/-- `RUN_TEST`. -/
def runTest (test : List Assertion) (cnt : Int) : Int × List Event :=
  let (ret, events) := runAssertions test
  (if cFalse = ret then cnt + 1 else cnt, events)

/-- `TEST_END`. -/
def testEnd (cnt : Int) : List Event :=
  (if cnt > 0 then [.output (.testsFailed cnt)] else [.output .ok]) ++
    [.output .ending, .testTeardown]

/-- The `RUN_TEST` lines of a suite. -/
def runTests : List (List Assertion) → Int → Int × List Event
  | [], cnt => (cnt, [])
  | test :: tests, cnt =>
      let (cnt, events) := runTest test cnt
      let (cnt, rest) := runTests tests cnt
      (cnt, events ++ rest)

/-- A suite, with the counter as `TEST_END` finds it. -/
def runSuite (tests : List (List Assertion)) : Int × List Event :=
  let (cnt, beginning) := testBegin
  let (cnt, events) := runTests tests cnt
  (cnt, beginning ++ events ++ testEnd cnt)

end BmcCodes.UnitTest
