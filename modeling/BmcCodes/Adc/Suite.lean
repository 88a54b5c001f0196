import BmcCodes.Adc.StubValues
import BmcCodes.UnitTest.Template

/-!
# The tests of the rewritten driver

The test half of `linux_driver/ADC_TDD/adc_drv.c`, and `adc_mod_init`, which runs
it when the module is loaded.  The nine tests share one set of registers, cleared
once before the first of them, so a test finds what the tests before it left.

On the converter each test is a condition and an update, which the register file
tracks (`run_test`).  Hence for any choice and order of the tests: the one that
wants the initial divisor fails after the one that sets another, and nothing else
ever fails (`runAdcSuite_counts_stale`).
-/

namespace BmcCodes.Adc.Tdd

open BmcCodes.UnitTest (cFalse cTrue Site Message Event assertEqualInt testBegin testEnd)

/-! ## Translation -/

/-- The registers that `test_setup` allocates and clears. -/
def testSetup : RegFile := fun _ => 0

def adcSetIoDataAddr (addr : Word) : IoAccessData := ⟨0, addr, 0, 0, 0, 0⟩

def adcSetIoDataData (data : Word) : IoAccessData := ⟨0, 0, data, 0, 0, 0⟩

def adcSetIoDataAddrData (addr data : Word) : IoAccessData := ⟨0, addr, data, 0, 0, 0⟩

/-- `__FILE__`, `__func__` and `__LINE__`.  A carriage return by itself, in `test_teardown`,
counts as the end of a line. -/
def testSite (func : String) (line : Int) : Site := ⟨"adc_drv.c", func, line⟩

/-- `TEST_ASSERT_EQUAL_INT`, which leaves the test or goes on with `k`. -/
def testAssertEqualInt (site : Site) (expected actual : Int) (s : RegFile)
    (k : Int × List Event × RegFile) : Int × List Event × RegFile :=
  let (passed, events) := assertEqualInt site expected actual
  if cFalse = passed then (cFalse, events, s)
  else
    let (ret, rest, s) := k
    (ret, events ++ rest, s)

/-- The test functions, by what follows `test_` in their names. -/
inductive SuiteTest where
  | adcModInitAllChanDisable
  | adcModInitClockDivisor0x40
  | adcModInitRegChardev
  | adcModInitIoctlSetClock
  | adcMeasureBeforeEnable
  | adcGetChanStatusAfterEnableStatusOn
  | adcGetChanStatusAfterDisableStatusOff
  | adcMeasureWhenChanEnable
  | adcMeasureWhenChanDisable
  deriving DecidableEq, Repr

def testAdcModInitAllChanDisable (s : RegFile) : Int × List Event × RegFile :=
  let site := testSite "test_adc_mod_init__all_chan_disable"
  testAssertEqualInt (site 179) 0 (adcGetChanStatus 0 s) s <|
  testAssertEqualInt (site 180) 0 (adcGetChanStatus 1 s) s
  (cTrue, [], s)

def testAdcModInitClockDivisor0x40 (s : RegFile) : Int × List Event × RegFile :=
  testAssertEqualInt (testSite "test_adc_mod_init__clock_divisor_0x40" 186) 0x40
    (adcGetClockDivisor s) s
  (cTrue, [], s)

def testAdcModInitRegChardev (s : RegFile) : Int × List Event × RegFile := (cTrue, [], s)

def testAdcModInitIoctlSetClock (s : RegFile) : Int × List Event × RegFile :=
  let setDivisor : Int := 0xa5
  let ioData := adcSetIoDataData (BitVec.ofInt 32 setDivisor)
  let (_, _, s) := adcIoctl ioctlSetAdcClock ioData s
  let resultDivisor := adcGetClockDivisor s
  testAssertEqualInt (testSite "test_adc_mod_init__ioctl_set_clock" 210) resultDivisor
    setDivisor s
  (cTrue, [], s)

def testAdcMeasureBeforeEnable (s : RegFile) : Int × List Event × RegFile :=
  let (ret, _, s) := adcIoctl ioctlAdcMeasure (adcSetIoDataAddr 1) s
  testAssertEqualInt (testSite "test_adc_measure__before_enable" 224) (-1) ret s
  (cTrue, [], s)

def testAdcGetChanStatusAfterEnableStatusOn (s : RegFile) : Int × List Event × RegFile :=
  -- disable firstly
  let (_, _, s) := adcIoctl ioctlEnableAdc (adcSetIoDataAddrData 2 0) s
  -- enable secondly
  let (_, _, s) := adcIoctl ioctlEnableAdc (adcSetIoDataAddrData 2 1) s
  -- check status
  let ret := adcGetChanStatus 2 s
  testAssertEqualInt (testSite "test_adc_get_chan_status__after_enable_status_on" 244) 1 ret s
  (cTrue, [], s)

def testAdcGetChanStatusAfterDisableStatusOff (s : RegFile) : Int × List Event × RegFile :=
  -- enable firstly
  let (_, _, s) := adcIoctl ioctlEnableAdc (adcSetIoDataAddrData 3 1) s
  -- disable secondly
  let (_, _, s) := adcIoctl ioctlEnableAdc (adcSetIoDataAddrData 3 0) s
  let ret := adcGetChanStatus 3 s
  testAssertEqualInt (testSite "test_adc_get_chan_status__after_disable_status_off" 264) 0 ret s
  (cTrue, [], s)

def testAdcMeasureWhenChanEnable (s : RegFile) : Int × List Event × RegFile :=
  let site := testSite "test_adc_measure__when_chan_enable"
  let stubval : BitVec 16 := 0xa5
  let s := adcSetStubval 4 stubval s
  -- first, enable one chan
  let (_, _, s) := adcIoctl ioctlEnableAdc (adcSetIoDataAddrData 4 1) s
  -- second, measure
  let (ret, ioData, s) := adcIoctl ioctlAdcMeasure (adcSetIoDataAddr 4) s
  testAssertEqualInt (site 305) 0 ret s <|
  testAssertEqualInt (site 306) stubval.toNat ioData.data.toInt s
  (cTrue, [], s)

def testAdcMeasureWhenChanDisable (s : RegFile) : Int × List Event × RegFile :=
  let site := testSite "test_adc_measure__when_chan_disable"
  -- enable chan 5
  let (_, _, s) := adcIoctl ioctlEnableAdc (adcSetIoDataAddrData 5 1) s
  let (ret, _, s) := adcIoctl ioctlAdcMeasure (adcSetIoDataAddr 5) s
  testAssertEqualInt (site 322) 0 ret s <|
  -- disable chan 5
  let (_, _, s) := adcIoctl ioctlEnableAdc (adcSetIoDataAddrData 5 0) s
  let (ret, _, s) := adcIoctl ioctlAdcMeasure (adcSetIoDataAddr 5) s
  testAssertEqualInt (site 330) (-1) ret s
  (cTrue, [], s)

def SuiteTest.run : SuiteTest → RegFile → Int × List Event × RegFile
  | .adcModInitAllChanDisable => testAdcModInitAllChanDisable
  | .adcModInitClockDivisor0x40 => testAdcModInitClockDivisor0x40
  | .adcModInitRegChardev => testAdcModInitRegChardev
  | .adcModInitIoctlSetClock => testAdcModInitIoctlSetClock
  | .adcMeasureBeforeEnable => testAdcMeasureBeforeEnable
  | .adcGetChanStatusAfterEnableStatusOn => testAdcGetChanStatusAfterEnableStatusOn
  | .adcGetChanStatusAfterDisableStatusOff => testAdcGetChanStatusAfterDisableStatusOff
  | .adcMeasureWhenChanEnable => testAdcMeasureWhenChanEnable
  | .adcMeasureWhenChanDisable => testAdcMeasureWhenChanDisable

/-- The `RUN_TEST` lines. -/
def runSuiteTests : List SuiteTest → Int → RegFile → Int × List Event × RegFile
  | [], cnt, s => (cnt, [], s)
  | test :: tests, cnt, s =>
      let (ret, events, s) := test.run s
      let cnt := if cFalse = ret then cnt + 1 else cnt
      let (cnt, rest, s) := runSuiteTests tests cnt s
      (cnt, events ++ rest, s)

/-- From `TEST_BEGIN` to `TEST_END`, with the counter that `TEST_END` finds. -/
def runAdcSuite (tests : List SuiteTest) : Int × List Event × RegFile :=
  let (cnt, beginning) := testBegin
  let s := testSetup
  let s := adcInit s
  let (cnt, events, s) := runSuiteTests tests cnt s
  (cnt, beginning ++ events ++ testEnd cnt, s)

/-- What `register_chrdev` returned, if that is printed; the function returns `0`
either way. -/
def adcDrvRegChardev (ret : Int) : Int × Option Int :=
  (0, if ret < 0 then some ret else none)

/-- The tests as `adc_mod_init` lists them. -/
def suiteTests : List SuiteTest :=
  [.adcModInitAllChanDisable, .adcModInitClockDivisor0x40, .adcModInitRegChardev,
    .adcModInitIoctlSetClock, .adcMeasureBeforeEnable, .adcGetChanStatusAfterEnableStatusOn,
    .adcGetChanStatusAfterDisableStatusOff, .adcMeasureWhenChanEnable,
    .adcMeasureWhenChanDisable]

/-- `ret` as for `adcDrvRegChardev`. -/
def adcModInit (ret : Int) : Int × Option Int × List Event × RegFile :=
  let (_, printed) := adcDrvRegChardev ret
  let (_, events, s) := runAdcSuite suiteTests
  (0, printed, events, s)

/-! ## Tests on the converter -/

/-- The channel that the tests give the number `addr`. -/
def channelOf (addr : Word) : Fin 16 :=
  Request.channel ⟨ioctlEnableAdc, adcSetIoDataAddr addr⟩

/-- Whether a test passes, by what the converter is like when it starts. -/
def SuiteTest.passes (c : Converter) : SuiteTest → Bool
  | .adcModInitAllChanDisable => !c.enabled (channelOf 0) && !c.enabled (channelOf 1)
  | .adcModInitClockDivisor0x40 => c.divisor = 0x40
  | .adcMeasureBeforeEnable => !c.enabled (channelOf 1)
  | _ => true

/-- What a test does to the converter. -/
def SuiteTest.effect (c : Converter) : SuiteTest → Converter
  | .adcModInitIoctlSetClock => { c with divisor := 0xa5 }
  | .adcGetChanStatusAfterEnableStatusOn =>
      { c with enabled := Function.update c.enabled (channelOf 2) true }
  | .adcGetChanStatusAfterDisableStatusOff =>
      { c with enabled := Function.update c.enabled (channelOf 3) false }
  | .adcMeasureWhenChanEnable =>
      { c with
        enabled := Function.update c.enabled (channelOf 4) true
        sample := Function.update c.sample (channelOf 4) 0xa5 }
  | .adcMeasureWhenChanDisable =>
      { c with enabled := Function.update c.enabled (channelOf 5) false }
  | _ => c

/-- The result `r` of a test or of the rest of one: whether it passes, the converter it
leaves, and that it does not print the verdict of the suite. -/
structure Tracks (pass : Bool) (c : Converter) (r : Int × List Event × RegFile) : Prop where
  ret : r.1 = if pass then cTrue else cFalse
  state : converter r.2.2 = c
  quiet : .output .ok ∉ r.2.1

/-! ## Driver calls on the converter -/

section Calls

variable (s : RegFile)

theorem adcIoctl_enable (io : IoAccessData) :
    adcIoctl ioctlEnableAdc io s = (0, io, adcEnableChan io.address.toInt io.data.toInt s) :=
  rfl

/-- A measurement returns the sample of an enabled channel in the data of the request. -/
theorem adcIoctl_measure (n : Fin 16) (io : IoAccessData)
    (haddress : io.address.toInt = (n : Nat)) :
    adcIoctl ioctlAdcMeasure io s =
      if (converter s).enabled n then
        (0, { io with data := ((converter s).sample n).setWidth 32 }, s)
      else (-1, io, s) := by
  have hcode : adcIoctl ioctlAdcMeasure io s =
      if adcMeasure io.address.toInt s < 0 then (-1, io, s)
      else (0, { io with data := BitVec.ofInt 32 (adcMeasure io.address.toInt s) }, s) := rfl
  rw [hcode, haddress, adcMeasure_eq]
  split
  · rw [if_neg (by omega), ofInt_toNat]
  · rfl

theorem converter_enable (n : Fin 16) (on : Bool) (io : IoAccessData)
    (haddress : io.address.toInt = (n : Nat)) (hdata : decide (io.data.toInt = 1) = on) :
    converter (adcIoctl ioctlEnableAdc io s).2.2 =
      { converter s with enabled := Function.update (converter s).enabled n on } := by
  rw [adcIoctl_enable, haddress, converter_adcEnableChan, hdata]
  refine congrArg (fun e => { converter s with enabled := e }) (funext fun m => ?_)
  rw [Function.update_apply]

end Calls

/-! ## Assertions -/

theorem tracks_done (s : RegFile) : Tracks true (converter s) (cTrue, [], s) :=
  ⟨rfl, rfl, List.not_mem_nil⟩

/-- An assertion that holds lets the rest of the test decide. -/
theorem tracks_of_eq {site : Site} {expected actual : Int} {s : RegFile} {pass : Bool}
    {c : Converter} {k : Int × List Event × RegFile} (h : expected = actual)
    (hk : Tracks pass c k) : Tracks pass c (testAssertEqualInt site expected actual s k) := by
  have hrun : testAssertEqualInt site expected actual s k =
      (k.1, .output (.equalIntOk site) :: k.2.1, k.2.2) := by
    simp [testAssertEqualInt, assertEqualInt, h, cTrue, cFalse]
  rw [hrun]
  exact ⟨hk.ret, hk.state, by simpa using hk.quiet⟩

/-- One that does not hold fails the test where it stands. -/
theorem tracks_of_ne {site : Site} {expected actual : Int} {s : RegFile}
    (k : Int × List Event × RegFile) (h : expected ≠ actual) :
    Tracks false (converter s) (testAssertEqualInt site expected actual s k) := by
  have hrun : testAssertEqualInt site expected actual s k =
      (cFalse, [.output (.equalIntFailed site expected actual)], s) := by
    simp [testAssertEqualInt, assertEqualInt, h, cFalse]
  rw [hrun]
  exact ⟨rfl, rfl, by simp⟩

/-- An assertion before a rest that leaves the converter alone. -/
theorem tracks_assert {site : Site} {expected actual : Int} {s : RegFile} {pass : Bool}
    {k : Int × List Event × RegFile} (hk : Tracks pass (converter s) k) :
    Tracks (decide (expected = actual) && pass) (converter s)
      (testAssertEqualInt site expected actual s k) := by
  by_cases h : expected = actual
  · rw [decide_eq_true h, Bool.true_and]
    exact tracks_of_eq h hk
  · rw [decide_eq_false h, Bool.false_and]
    exact tracks_of_ne k h

/-! ## The nine tests -/

section Tests

variable (s : RegFile)

theorem status_eq (n : Fin 16) :
    decide (0 = adcGetChanStatus (n : Nat) s) = !(converter s).enabled n := by
  rw [adcGetChanStatus_eq]
  cases (converter s).enabled n <;> rfl

theorem tracks_allChanDisable :
    Tracks (!(converter s).enabled 0 && !(converter s).enabled 1) (converter s)
      (testAdcModInitAllChanDisable s) := by
  have h : Tracks (decide (0 = adcGetChanStatus 0 s) &&
      (decide (0 = adcGetChanStatus 1 s) && true)) (converter s)
      (testAdcModInitAllChanDisable s) := tracks_assert (tracks_assert (tracks_done s))
  rw [Bool.and_true] at h
  exact status_eq s 0 ▸ status_eq s 1 ▸ h

theorem tracks_clockDivisor0x40 :
    Tracks (decide ((converter s).divisor = 0x40)) (converter s)
      (testAdcModInitClockDivisor0x40 s) := by
  have hdivisor : (0x40 = adcGetClockDivisor s) ↔ (converter s).divisor = 0x40 := by
    rw [adcGetClockDivisor_eq, ← BitVec.toNat_inj]
    exact ⟨fun h => (Int.ofNat.inj h).symm, fun h => congrArg Nat.cast h.symm⟩
  have h : Tracks (decide (0x40 = adcGetClockDivisor s) && true) (converter s)
      (testAdcModInitClockDivisor0x40 s) := tracks_assert (tracks_done s)
  rwa [Bool.and_true, decide_eq_decide.mpr hdivisor] at h

theorem tracks_ioctlSetClock :
    Tracks true { converter s with divisor := 0xa5 } (testAdcModInitIoctlSetClock s) := by
  have hset : converter (adcSetClock (0xa5 : Word).toInt s) =
      { converter s with divisor := 0xa5 } := converter_adcSetClock s 0xa5
  rw [← hset]
  refine tracks_of_eq ?_ (tracks_done _)
  rw [adcGetClockDivisor_eq]
  exact congrArg (fun c => ((Converter.divisor c).toNat : Int)) hset

theorem tracks_beforeEnable :
    Tracks (!(converter s).enabled 1) (converter s) (testAdcMeasureBeforeEnable s) := by
  unfold testAdcMeasureBeforeEnable
  rw [adcIoctl_measure s 1 _ rfl]
  cases henabled : (converter s).enabled 1
  · exact tracks_of_eq rfl (tracks_done s)
  · exact tracks_of_ne _ (by decide)

/-- Two requests for the same channel leave what the second one says. -/
theorem converter_enable_twice (n : Fin 16) (on on' : Bool) (io io' : IoAccessData)
    (haddress : io.address.toInt = (n : Nat)) (haddress' : io'.address.toInt = (n : Nat))
    (hdata : decide (io.data.toInt = 1) = on) (hdata' : decide (io'.data.toInt = 1) = on') :
    converter (adcIoctl ioctlEnableAdc io' (adcIoctl ioctlEnableAdc io s).2.2).2.2 =
      { converter s with enabled := Function.update (converter s).enabled n on' } := by
  rw [converter_enable _ n on' io' haddress' hdata', converter_enable s n on io haddress hdata]
  simp only [Function.update_idem]

theorem tracks_afterEnableStatusOn :
    Tracks true { converter s with enabled := Function.update (converter s).enabled 2 true }
      (testAdcGetChanStatusAfterEnableStatusOn s) := by
  have hstate := converter_enable_twice s 2 false true (adcSetIoDataAddrData 2 0)
    (adcSetIoDataAddrData 2 1) rfl rfl rfl rfl
  rw [← hstate]
  refine tracks_of_eq ?_ (tracks_done _)
  have hstatus := adcGetChanStatus_eq (adcIoctl ioctlEnableAdc (adcSetIoDataAddrData 2 1)
    (adcIoctl ioctlEnableAdc (adcSetIoDataAddrData 2 0) s).2.2).2.2 2
  rw [hstate] at hstatus
  exact hstatus.symm

theorem tracks_afterDisableStatusOff :
    Tracks true { converter s with enabled := Function.update (converter s).enabled 3 false }
      (testAdcGetChanStatusAfterDisableStatusOff s) := by
  have hstate := converter_enable_twice s 3 true false (adcSetIoDataAddrData 3 1)
    (adcSetIoDataAddrData 3 0) rfl rfl rfl rfl
  rw [← hstate]
  refine tracks_of_eq ?_ (tracks_done _)
  have hstatus := adcGetChanStatus_eq (adcIoctl ioctlEnableAdc (adcSetIoDataAddrData 3 0)
    (adcIoctl ioctlEnableAdc (adcSetIoDataAddrData 3 1) s).2.2).2.2 3
  rw [hstate] at hstatus
  exact hstatus.symm

theorem tracks_whenChanEnable :
    Tracks true { converter s with
        enabled := Function.update (converter s).enabled 4 true
        sample := Function.update (converter s).sample 4 0xa5 }
      (testAdcMeasureWhenChanEnable s) := by
  have hstub : converter (adcSetStubval 4 0xa5 s) =
      { converter s with sample := Function.update (converter s).sample 4 0xa5 } := by
    have h := converter_adcSetStubval s 4 0xa5
    refine h.trans (congrArg (fun f => { converter s with sample := f }) (funext fun m => ?_))
    rw [Function.update_apply]
    simp only [eq_comm]
    rfl
  have hstate := converter_enable (adcSetStubval 4 0xa5 s) 4 true (adcSetIoDataAddrData 4 1)
    rfl rfl
  rw [hstub] at hstate
  rw [← hstate]
  unfold testAdcMeasureWhenChanEnable
  have hmeasure := adcIoctl_measure
    (adcIoctl ioctlEnableAdc (adcSetIoDataAddrData 4 1) (adcSetStubval 4 0xa5 s)).2.2 4
    (adcSetIoDataAddr 4) rfl
  rw [hstate] at hmeasure
  simp only [Function.update_self, if_true] at hmeasure
  simp only [hmeasure]
  exact tracks_of_eq rfl (tracks_of_eq rfl (tracks_done _))

theorem tracks_whenChanDisable :
    Tracks true { converter s with enabled := Function.update (converter s).enabled 5 false }
      (testAdcMeasureWhenChanDisable s) := by
  have hon := converter_enable s 5 true (adcSetIoDataAddrData 5 1) rfl rfl
  have hoff := converter_enable_twice s 5 true false (adcSetIoDataAddrData 5 1)
    (adcSetIoDataAddrData 5 0) rfl rfl rfl rfl
  have hmeasureOn := adcIoctl_measure (adcIoctl ioctlEnableAdc (adcSetIoDataAddrData 5 1) s).2.2
    5 (adcSetIoDataAddr 5) rfl
  have hmeasureOff := adcIoctl_measure (adcIoctl ioctlEnableAdc (adcSetIoDataAddrData 5 0)
    (adcIoctl ioctlEnableAdc (adcSetIoDataAddrData 5 1) s).2.2).2.2 5 (adcSetIoDataAddr 5) rfl
  rw [hon] at hmeasureOn
  rw [hoff] at hmeasureOff
  simp only [Function.update_self, if_true, Bool.false_eq_true, if_false] at hmeasureOn hmeasureOff
  rw [← hoff]
  unfold testAdcMeasureWhenChanDisable
  simp only [hmeasureOn, hmeasureOff]
  exact tracks_of_eq rfl (tracks_of_eq rfl (tracks_done _))

/-- **One test** passes, and leaves the converter, as the abstract tests say. -/
theorem run_test (t : SuiteTest) :
    Tracks (t.passes (converter s)) (t.effect (converter s)) (t.run s) := by
  cases t with
  | adcModInitAllChanDisable => exact tracks_allChanDisable s
  | adcModInitClockDivisor0x40 => exact tracks_clockDivisor0x40 s
  | adcModInitRegChardev => exact tracks_done s
  | adcModInitIoctlSetClock => exact tracks_ioctlSetClock s
  | adcMeasureBeforeEnable => exact tracks_beforeEnable s
  | adcGetChanStatusAfterEnableStatusOn => exact tracks_afterEnableStatusOn s
  | adcGetChanStatusAfterDisableStatusOff => exact tracks_afterDisableStatusOff s
  | adcMeasureWhenChanEnable => exact tracks_whenChanEnable s
  | adcMeasureWhenChanDisable => exact tracks_whenChanDisable s

end Tests

/-! ## Suites -/

/-- What no test disturbs: channels 0 and 1 are off, and the divisor is one of two. -/
structure SuiteInv (fresh : Bool) (c : Converter) : Prop where
  enabled_zero : c.enabled 0 = false
  enabled_one : c.enabled 1 = false
  divisor : c.divisor = if fresh then 0x40 else 0xa5

/-- The test is not the one that sets the divisor. -/
def SuiteTest.keepsDivisor (t : SuiteTest) : Bool := t ≠ .adcModInitIoctlSetClock

theorem suiteInv_effect {fresh : Bool} {c : Converter} (h : SuiteInv fresh c) (t : SuiteTest) :
    SuiteInv (fresh && t.keepsDivisor) (t.effect c) := by
  obtain ⟨hzero, hone, hdivisor⟩ := h
  have hupdate : ∀ (n m : Fin 16) (on : Bool), m ≠ n → c.enabled m = false →
      Function.update c.enabled n on m = false := by
    intro n m on hne hoff
    rw [Function.update_of_ne hne, hoff]
  by_cases hset : t = .adcModInitIoctlSetClock
  · subst hset
    exact ⟨hzero, hone, by cases fresh <;> rfl⟩
  · rw [SuiteTest.keepsDivisor, decide_eq_true hset, Bool.and_true]
    cases t with
    | adcModInitIoctlSetClock => exact absurd rfl hset
    | adcGetChanStatusAfterEnableStatusOn =>
        exact ⟨hupdate 2 0 true (by decide) hzero, hupdate 2 1 true (by decide) hone, hdivisor⟩
    | adcGetChanStatusAfterDisableStatusOff =>
        exact ⟨hupdate 3 0 false (by decide) hzero, hupdate 3 1 false (by decide) hone, hdivisor⟩
    | adcMeasureWhenChanEnable =>
        exact ⟨hupdate 4 0 true (by decide) hzero, hupdate 4 1 true (by decide) hone, hdivisor⟩
    | adcMeasureWhenChanDisable =>
        exact ⟨hupdate 5 0 false (by decide) hzero, hupdate 5 1 false (by decide) hone, hdivisor⟩
    | _ => exact ⟨hzero, hone, hdivisor⟩

/-- Only the test of the divisor can fail, and only once that has been set. -/
theorem passes_of_suiteInv {fresh : Bool} {c : Converter} (h : SuiteInv fresh c) (t : SuiteTest) :
    t.passes c = (fresh || decide (t ≠ .adcModInitClockDivisor0x40)) := by
  have hzero : c.enabled (channelOf 0#32) = false := h.enabled_zero
  have hone : c.enabled (channelOf 1#32) = false := h.enabled_one
  have hdivisor := h.divisor
  cases t with
  | adcModInitAllChanDisable => simp [SuiteTest.passes, hzero, hone]
  | adcModInitClockDivisor0x40 => cases fresh <;> simp [SuiteTest.passes, hdivisor]
  | adcMeasureBeforeEnable => simp [SuiteTest.passes, hone]
  | _ => simp [SuiteTest.passes]

/-- The tests of the divisor that find another one. -/
def staleTests (fresh : Bool) (tests : List SuiteTest) : Nat :=
  (if fresh then tests.dropWhile SuiteTest.keepsDivisor else tests).count
    .adcModInitClockDivisor0x40

theorem staleTests_cons (fresh : Bool) (t : SuiteTest) (tests : List SuiteTest) :
    staleTests fresh (t :: tests) =
      (if fresh || decide (t ≠ .adcModInitClockDivisor0x40) then 0 else 1) +
        staleTests (fresh && t.keepsDivisor) tests := by
  cases fresh with
  | false =>
      by_cases hdivisor : t = .adcModInitClockDivisor0x40 <;>
        simp [staleTests, hdivisor, Nat.add_comm]
  | true =>
      by_cases hset : t = .adcModInitIoctlSetClock <;>
        simp [staleTests, SuiteTest.keepsDivisor, hset]

/-- The lines of a suite. -/
theorem runSuiteTests_spec (tests : List SuiteTest) (cnt : Int) (fresh : Bool) (s : RegFile)
    (h : SuiteInv fresh (converter s)) :
    (runSuiteTests tests cnt s).1 = cnt + staleTests fresh tests ∧
      .output .ok ∉ (runSuiteTests tests cnt s).2.1 ∧
      SuiteInv (fresh && tests.all SuiteTest.keepsDivisor)
        (converter (runSuiteTests tests cnt s).2.2) := by
  induction tests generalizing cnt fresh s with
  | nil =>
      refine ⟨?_, List.not_mem_nil, ?_⟩
      · cases fresh <;> simp [runSuiteTests, staleTests]
      · rw [List.all_nil, Bool.and_true]
        exact h
  | cons t tests ih =>
      obtain ⟨hret, hstate, hquiet⟩ := run_test s t
      have hinv := suiteInv_effect h t
      rw [← hstate] at hinv
      obtain ⟨hcnt, hrest, hfinal⟩ := ih (if cFalse = (t.run s).1 then cnt + 1 else cnt) _ _ hinv
      refine ⟨?_, ?_, ?_⟩
      · refine hcnt.trans ?_
        rw [staleTests_cons, hret, passes_of_suiteInv h]
        split
        · simp [cTrue, cFalse]
        · simp [cFalse]
          omega
      · rw [runSuiteTests]
        exact fun hmem => (List.mem_append.mp hmem).elim hquiet hrest
      · rw [List.all_cons, ← Bool.and_assoc]
        exact hfinal

theorem suiteInv_adcInit : SuiteInv true (converter (adcInit testSetup)) := by
  have hinit : converter (adcInit testSetup) = { converter testSetup with divisor := 0x40 } :=
    converter_adcSetClock testSetup 0x40
  rw [hinit]
  exact ⟨by decide, by decide, rfl⟩

/-- The verdict is printed at the end of a suite only. -/
theorem ok_mem_testEnd_iff (cnt : Int) : .output .ok ∈ testEnd cnt ↔ cnt ≤ 0 := by
  unfold testEnd
  by_cases h : cnt > 0
  · simp [h]
  · simp [h]
    omega

theorem runAdcSuite_spec (tests : List SuiteTest) :
    (runAdcSuite tests).1 = staleTests true tests ∧
      (.output .ok ∈ (runAdcSuite tests).2.1 ↔ staleTests true tests = 0) ∧
      SuiteInv (tests.all SuiteTest.keepsDivisor) (converter (runAdcSuite tests).2.2) := by
  obtain ⟨hcnt, hquiet, hinv⟩ :=
    runSuiteTests_spec tests 0 true (adcInit testSetup) suiteInv_adcInit
  have hcounter : (runAdcSuite tests).1 = staleTests true tests :=
    hcnt.trans (Int.zero_add _)
  have hevents : (runAdcSuite tests).2.1 = [.output .beginning, .testSetup] ++
      (runSuiteTests tests 0 (adcInit testSetup)).2.1 ++ testEnd (runAdcSuite tests).1 := rfl
  refine ⟨hcounter, ?_, hinv⟩
  rw [hevents, List.mem_append, List.mem_append, ok_mem_testEnd_iff, hcounter]
  simp only [hquiet, List.mem_cons, List.not_mem_nil, Event.output.injEq, reduceCtorEq, or_false,
    false_or]
  omega

/-- **The verdict of any suite of these tests.**  Whichever of the tests are run, in whatever
order and how often: the counter is the number of times that the initial divisor is wanted
after another one has been set, the suite is reported as good if and only if that is `0`,
and channels 0 and 1 are still off. -/
theorem runAdcSuite_counts_stale (tests : List SuiteTest) :
    let result := runAdcSuite tests
    let stale := (tests.dropWhile (· ≠ .adcModInitIoctlSetClock)).count .adcModInitClockDivisor0x40
    result.1 = stale ∧
      (.output .ok ∈ result.2.1 ↔ stale = 0) ∧
      SuiteInv (tests.all (· ≠ .adcModInitIoctlSetClock)) (converter result.2.2) :=
  runAdcSuite_spec tests

/-- The suite of the module is reported as good, and loading it succeeds, whatever
`register_chrdev` returned. -/
theorem adcModInit_reports_ok (ret : Int) :
    (adcModInit ret).1 = 0 ∧ .output .ok ∈ (adcModInit ret).2.2.1 :=
  ⟨rfl, (runAdcSuite_spec suiteTests).2.1.mpr (by decide)⟩

end BmcCodes.Adc.Tdd
