import BmcCodes.Adc.TddSimulation
import Mathlib.Algebra.Group.Nat.Defs

/-!
# The divisor field of the rewritten driver

`adc_set_clock` clears bits `[9:0]` of the clock register and ors the new divisor
in as the request gives it.  The divisor that `adc_get_clock_divisor` reads back
is always the last one, but any higher bit of a request reaches bits `[31:10]`,
the inverse flag among them, and no later request clears it.
-/

namespace BmcCodes.Adc.Tdd

open BmcCodes.Lib

/-- The registers after an `IOCTL_SET_ADC_CLOCK` request. -/
def setClock (s : RegFile) (arg : IoAccessData) : RegFile :=
  (adcIoctl ioctlSetAdcClock arg s).2.2

theorem setClock_clock (s : RegFile) (arg : IoAccessData) :
    setClock s arg adcClockControlRegister =
      (⟨~~~adcDivisorOfAdcClock, arg.data⟩ : Update 32).apply
        (s adcClockControlRegister) := by
  have hset : setClock s arg = adcSetClock arg.data.toInt s := rfl
  rw [hset, adcSetClock, writel, if_pos rfl, BitVec.ofInt_toInt]
  rfl

/-- The clock register of `s'` is that of `s` with the low ten bits of the data of
`last` for a divisor. -/
structure DivisorReplaced (s : RegFile) (last : IoAccessData) (s' : RegFile) : Prop where
  upper : ∀ i < 32, 10 ≤ i →
    (s' adcClockControlRegister).getLsbD i = (s adcClockControlRegister).getLsbD i
  divisor : adcGetClockDivisor s' = ((last.data.toNat % 2 ^ 10 : Nat) : Int)
  content : s' adcClockControlRegister =
    (s adcClockControlRegister &&& ~~~adcDivisorOfAdcClock) |||
      (last.data &&& adcDivisorOfAdcClock)

/-- Bits `[31:10]` of the data are among those of the content `r`. -/
def UpperBitsIn (r : Word) (arg : IoAccessData) : Prop :=
  arg.data &&& ~~~adcDivisorOfAdcClock &&& ~~~r = 0

theorem divisorMask_getLsbD (i : Nat) (hi : i < 32) :
    adcDivisorOfAdcClock.getLsbD i = decide (i < 10) := by
  have hmask : ∀ i < 32, adcDivisorOfAdcClock.getLsbD i = decide (i < 10) := by decide
  exact hmask i hi

theorem upperBitsIn_iff (r : Word) (arg : IoAccessData) :
    UpperBitsIn r arg ↔
      ∀ i < 32, 10 ≤ i → arg.data.getLsbD i = true → r.getLsbD i = true := by
  rw [UpperBitsIn, Update.and_not_eq_zero_iff]
  refine forall₂_congr fun i hi => ?_
  rw [BitVec.getLsbD_and, BitVec.getLsbD_not, divisorMask_getLsbD i hi, decide_eq_true hi,
    Bool.true_and, Bool.and_eq_true, Bool.not_eq_true', decide_eq_false_iff_not, Nat.not_lt,
    and_comm, and_imp]

/-- After a run of requests, a bit of the field comes from the last request, and
any other is set if it was or if some request sets it. -/
theorem run_clock_getLsbD (s : RegFile) (earlier : List IoAccessData)
    (last : IoAccessData) (i : Nat) (hi : i < 32) :
    ((earlier ++ [last]).foldl setClock s adcClockControlRegister).getLsbD i =
      if i < 10 then last.data.getLsbD i
      else (s adcClockControlRegister).getLsbD i ||
        (earlier ++ [last]).any fun arg => arg.data.getLsbD i := by
  have hrun := Update.foldl_sameKeep (fun s : RegFile => s adcClockControlRegister)
    setClock (~~~adcDivisorOfAdcClock) IoAccessData.data setClock_clock s earlier last
  rw [hrun, BitVec.getLsbD_or, BitVec.getLsbD_and, BitVec.getLsbD_or, BitVec.getLsbD_not,
    divisorMask_getLsbD i hi, Update.staleBits_getLsbD, List.any_map, List.any_append,
    List.any_cons, List.any_nil, decide_eq_true hi]
  by_cases hfield : i < 10
  · simp [hfield]
  · simp [hfield, Function.comp_def, Bool.or_assoc]

/-- **When the clock requests replace the divisor only**: if and only if no request
of the run has a bit above the field that was not set before the run. -/
theorem divisorReplaced_iff_upperBitsIn (s : RegFile) (earlier : List IoAccessData)
    (last : IoAccessData) :
    DivisorReplaced s last ((earlier ++ [last]).foldl setClock s) ↔
      ∀ arg ∈ earlier ++ [last], UpperBitsIn (s adcClockControlRegister) arg := by
  have hbit := run_clock_getLsbD s earlier last
  generalize (earlier ++ [last]).foldl setClock s = s' at hbit
  constructor
  · intro h arg harg
    rw [upperBitsIn_iff]
    intro i hi hupper hdata
    rw [← h.upper i hi hupper, hbit i hi, if_neg (by omega), Bool.or_eq_true,
      List.any_eq_true]
    exact .inr ⟨arg, harg, hdata⟩
  · intro h
    have hupper : ∀ i < 32, 10 ≤ i → (s' adcClockControlRegister).getLsbD i =
        (s adcClockControlRegister).getLsbD i := by
      intro i hi hten
      rw [hbit i hi, if_neg (by omega), Bool.or_eq_left_iff_imp, List.any_eq_true]
      intro hset
      obtain ⟨arg, harg, hdata⟩ := hset
      exact (upperBitsIn_iff _ arg).mp (h arg harg) i hi hten hdata
    have hcontent : s' adcClockControlRegister =
        (s adcClockControlRegister &&& ~~~adcDivisorOfAdcClock) |||
          (last.data &&& adcDivisorOfAdcClock) := by
      apply BitVec.eq_of_getLsbD_eq
      intro i hi
      rw [BitVec.getLsbD_or, BitVec.getLsbD_and, BitVec.getLsbD_and, BitVec.getLsbD_not,
        divisorMask_getLsbD i hi, decide_eq_true hi, Bool.true_and]
      by_cases hfield : i < 10
      · rw [hbit i hi, if_pos hfield]
        simp [hfield]
      · rw [hupper i hi (by omega)]
        simp [hfield]
    refine ⟨hupper, ?_, hcontent⟩
    have hfield : (s' adcClockControlRegister).extractLsb' 0 10 =
        last.data.extractLsb' 0 10 := by
      apply BitVec.eq_of_getLsbD_eq
      intro i hi
      rw [BitVec.getLsbD_extractLsb', BitVec.getLsbD_extractLsb', Nat.zero_add,
        hbit i (by omega), if_pos hi]
    rw [adcGetClockDivisor_eq, converter, hfield, BitVec.extractLsb'_toNat,
      Nat.shiftRight_zero]

/-- The divisor that fits its field, and then the inverse flag: bit 16 is set by
the request and stays. -/
theorem setClock_sets_inverse_flag :
    ¬ DivisorReplaced (fun _ => 0) ⟨0, 0, 0x10040, 0, 0, 0⟩
        ([⟨0, 0, 0x10040, 0, 0, 0⟩].foldl setClock fun _ => 0) := by
  intro h
  exact absurd (h.upper 16 (by decide) (by decide)) (by decide)

end BmcCodes.Adc.Tdd
