import BmcCodes.Adc.TddSimulation

/-!
# Channel numbers the converter does not have

The rewritten driver does not look at the channel number of a request.  An enable
request always succeeds; a measurement is refused if the status bit it looks at
is clear, and there are such bits for the numbers below 32 only, since the driver
shifts `1` by the channel number.
-/

namespace BmcCodes.Adc.Tdd

namespace Request

/-- `chan_no`, the address field as an `int`. -/
def chanNo (q : Request) : Int := q.arg.address.toInt

/-- What is asked of a request for a channel outside `0..15`. -/
structure Validated (s : RegFile) (q : Request) : Prop where
  /-- The request fails, and changes neither the registers nor the caller's data. -/
  refused : step s q = ((-1, q.arg), s)
  /-- `1 << chan_no`, which both commands compute first, is defined. -/
  shifts : 0 ≤ q.chanNo ∧ q.chanNo < 32
  /-- The offset that a measurement computes does not wrap as a `u8`. -/
  offset : q.cmd = ioctlAdcMeasure → 0 ≤ 4 * q.chanNo.tdiv 2 ∧ 4 * q.chanNo.tdiv 2 < 256

end Request

/-- A reading is not negative, so `-1` tells of a clear status bit. -/
theorem adcMeasure_lt_zero_iff (chanNo : Int) (s : RegFile) :
    adcMeasure chanNo s < 0 ↔ adcGetChanStatus chanNo s = 0 := by
  rw [adcMeasure]
  dsimp only
  by_cases hstatus : 0 = adcGetChanStatus chanNo s
  · rw [if_pos hstatus]
    exact iff_of_true (by decide) hstatus.symm
  · have hmasked : ∀ x : Word, 0 ≤ (x &&& 0x3ff).toInt := by
      intro x
      rw [and_0x3ff_eq, toInt_setWidth_10]
      exact Int.natCast_nonneg _
    rw [if_neg hstatus]
    refine iff_of_false ?_ (Ne.symm hstatus)
    split
    · exact Int.not_lt.mpr (hmasked _)
    · exact Int.not_lt.mpr (hmasked _)

theorem step_measure (s : RegFile) (q : Request) (hcmd : q.cmd = ioctlAdcMeasure) :
    step s q = ((-1, q.arg), s) ↔ adcGetChanStatus q.chanNo s = 0 := by
  have hset : ioctlAdcMeasure ≠ ioctlSetAdcClock := by decide
  rw [← adcMeasure_lt_zero_iff]
  simp only [step, adcIoctl, hcmd, hset, if_true, if_false, Request.chanNo]
  split
  · next hneg => exact iff_of_true rfl hneg
  · next hpos => exact iff_of_false (by simp) hpos

theorem step_enable_ne (s : RegFile) (q : Request) (hcmd : q.cmd = ioctlEnableAdc) :
    step s q ≠ ((-1, q.arg), s) := by
  have hset : ioctlEnableAdc ≠ ioctlSetAdcClock := by decide
  have hmeasure : ioctlEnableAdc ≠ ioctlAdcMeasure := by decide
  simp only [step, adcIoctl, hcmd, hset, hmeasure, if_true, if_false]
  simp

/-- **When a request for a channel outside `0..15` is refused as it should be**: if
and only if it is a measurement, its channel number is below 32, and the bit of
that number in the engine register is clear. -/
theorem validated_iff_measure_clear (s : RegFile) (q : Request)
    (hcmd : q.cmd = ioctlEnableAdc ∨ q.cmd = ioctlAdcMeasure)
    (hrange : 16 ≤ q.arg.address.toNat) :
    q.Validated s ↔
      q.cmd = ioctlAdcMeasure ∧ q.arg.address.toNat < 32 ∧
        (s adcEngineControlRegister).getLsbD q.arg.address.toNat = false := by
  have hchan : q.arg.address.toNat < 32 → q.chanNo = (q.arg.address.toNat : Int) :=
    fun h => BitVec.toInt_eq_toNat_of_lt (by omega)
  have hstatus : ∀ h : q.arg.address.toNat < 32, adcGetChanStatus q.chanNo s =
      if (s adcEngineControlRegister).getLsbD q.arg.address.toNat then 1 else 0 := by
    intro h
    rw [hchan h]
    exact adcGetChanStatus_natCast s ⟨_, h⟩
  constructor
  · intro h
    rcases hcmd with henable | hmeasure
    · exact absurd h.refused (step_enable_ne s q henable)
    · have hlt : q.arg.address.toNat < 32 := by
        have hbounds := h.shifts
        rw [Request.chanNo, BitVec.toInt_eq_toNat_cond] at hbounds
        split at hbounds <;> omega
      have hzero := (step_measure s q hmeasure).mp h.refused
      rw [hstatus hlt] at hzero
      refine ⟨hmeasure, hlt, ?_⟩
      by_contra hset
      rw [if_pos (by simpa using hset)] at hzero
      exact absurd hzero (by decide)
  · intro h
    obtain ⟨hmeasure, hlt, hclear⟩ := h
    refine ⟨(step_measure s q hmeasure).mpr ?_, ?_, fun _ => ?_⟩
    · rw [hstatus hlt, hclear]
      rfl
    · rw [hchan hlt]
      omega
    · rw [hchan hlt, Int.tdiv_eq_ediv_of_nonneg (by omega)]
      omega

/-- Channel 20 is refused while bit 20 of the engine register is clear. -/
theorem validated_iff_measure_clear_twenty :
    Request.Validated (fun _ => 0x0000000f) ⟨ioctlAdcMeasure, 0, 20, 0, 0, 0, 0⟩ :=
  (validated_iff_measure_clear _ ⟨ioctlAdcMeasure, 0, 20, 0, 0, 0, 0⟩ (.inr rfl)
    (by decide)).mpr (by decide)

/-- Channel 16 is enabled, in bit 16 of the engine register. -/
theorem enable_channel_sixteen_accepted :
    ¬ Request.Validated (fun _ => 0) ⟨ioctlEnableAdc, 0, 16, 1, 0, 0, 0⟩ := by
  intro h
  exact step_enable_ne _ _ rfl h.refused

end BmcCodes.Adc.Tdd
