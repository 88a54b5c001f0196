import BmcCodes.Adc.Original

/-!
# Calibrated readings of the original driver

`adc_init` measures channel 0 and keeps in `CV_Data` how far the sample is from
`0x200`.  A measurement adds this correction to every sample but `0`, and turns a
negative sum into `0`.  Nothing bounds the sum from above: a sample is corrected
into the converter's range exactly when it is `0`, or exceeds the calibration
sample by less than `0x200`.
-/

namespace BmcCodes.Adc.Original

/-- The sample of channel `n`, two channels in each data register. -/
def sample (regs : Word → Word) (n : Fin 16) : BitVec 10 :=
  (regs (dataRegister + 4 * BitVec.ofNat 32 (n / 2))).extractLsb' (16 * (n % 2)) 10

theorem adcMeasure_eq (s : Driver) (n : Fin 16) :
    adcMeasure (BitVec.ofNat 8 n) s = (sample s.regs n).toNat := by
  have hregister : ∀ n : Fin 16, (BitVec.ofNat 8 n).setWidth 32 / 2 =
      BitVec.ofNat 32 (n / 2) := by decide
  have hodd : ∀ n : Fin 16, BitVec.ofNat 8 n % 2 ≠ 0 ↔ n.val % 2 = 1 := by decide
  have hshift : ∀ x : Word, (x >>> 16).extractLsb' 0 10 = x.extractLsb' 16 10 := by
    intro x
    apply BitVec.eq_of_getLsbD_eq
    intro i hi
    rw [BitVec.getLsbD_extractLsb', BitVec.getLsbD_extractLsb', BitVec.getLsbD_ushiftRight,
      Nat.zero_add]
  simp only [adcMeasure, Driver.readRegister, hregister, hodd, sample]
  rcases Nat.mod_two_eq_zero_or_one n.val with hn | hn
  · rw [hn, if_neg (by decide), and_0x3ff_eq, toInt_setWidth_10]
  · rw [hn, if_pos rfl, and_0x3ff_eq, toInt_setWidth_10, hshift]

/-- The correction that `adc_init` derives from the sample of channel 0. -/
theorem adcInit_cvData {hw : Hardware} {n : Nat} {s₀ s : Driver}
    (h : adcInit hw n s₀ = some s) : s.cvData = 0x200 - (sample hw.sampled 0).toNat := by
  rw [adcInit] at h
  dsimp only at h
  split at h
  · rw [Option.some_inj] at h
    rw [← h]
    exact congrArg (0x200 - ·) (adcMeasure_eq _ 0)
  · simp at h

/-! ## Readings -/

/-- What a measurement makes of a sample. -/
def reading (raw : BitVec 10) (cvData : Int) : Int :=
  if raw = 0 then 0 else max 0 (raw.toNat + cvData)

/-- What it is meant to make of it: the corrected sample, saturated to the range of
the converter. -/
def calibrated (raw : BitVec 10) (cvData : Int) : Int :=
  if raw = 0 then 0 else max 0 (min 0x3ff (raw.toNat + cvData))

/-- `IOCTL_ADC_MEASURE` for channel `n`. -/
def measure (arg : IoAccessData) (n : Fin 16) (s : Driver) : Int × IoAccessData × Driver :=
  ioaccessIoctl ioctlAdcMeasure { arg with address := BitVec.ofNat 32 n } s

/-- The code's test of a sum against `CV_Data` is one for a zero sample. -/
theorem ioaccessIoctl_measure_eq (arg : IoAccessData) {s : Driver} {raw : BitVec 10}
    (hraw : adcMeasure (arg.address.setWidth 8) s = raw.toNat) :
    ioaccessIoctl ioctlAdcMeasure arg s =
      let data := BitVec.ofInt 32 (reading raw s.cvData)
      (data.toInt, { arg with data := data }, s) := by
  have hread : ioctlAdcMeasure ≠ ioctlIoRead := by decide
  have hwrite : ioctlAdcMeasure ≠ ioctlIoWrite := by decide
  have hclock : ioctlAdcMeasure ≠ ioctlSetAdcClock := by decide
  have hdata :
      (if (raw.toNat : Int) + s.cvData < 0 ∨ (raw.toNat : Int) + s.cvData = s.cvData then
          { arg with data := 0 }
        else { arg with data := BitVec.ofInt 32 (raw.toNat + s.cvData) }) =
        { arg with data := BitVec.ofInt 32 (reading raw s.cvData) } := by
    unfold reading
    by_cases hzero : raw = 0
    · rw [if_pos hzero, if_pos (.inr (by simp [hzero]))]
      rfl
    · have hne : raw.toNat ≠ 0 := fun h => hzero (BitVec.eq_of_toNat_eq h)
      rw [if_neg hzero]
      by_cases hneg : (raw.toNat : Int) + s.cvData < 0
      · rw [if_pos (.inl hneg), Int.max_eq_left (by omega)]
        rfl
      · rw [if_neg (by omega), Int.max_eq_right (by omega)]
  simp only [ioaccessIoctl, hread, hwrite, hclock, if_true, if_false, hraw, hdata]

theorem reading_nonneg (raw : BitVec 10) (cvData : Int) : 0 ≤ reading raw cvData := by
  unfold reading
  split <;> omega

theorem reading_mono {raw raw' : BitVec 10} (cvData : Int) (h : raw.toNat ≤ raw'.toNat) :
    reading raw cvData ≤ reading raw' cvData := by
  have hzero : raw' = 0 → raw = 0 := by
    intro h'
    rw [h'] at h
    exact BitVec.eq_of_toNat_eq (Nat.le_zero.mp h)
  unfold reading
  split
  · split <;> omega
  · next hraw =>
      rw [if_neg fun h' => hraw (hzero h')]
      omega

/-- The correction after calibrating with the sample `raw₀`. -/
theorem reading_eq_calibrated_iff (raw raw₀ : BitVec 10) :
    reading raw (0x200 - raw₀.toNat) = calibrated raw (0x200 - raw₀.toNat) ↔
      raw = 0 ∨ raw.toNat ≤ raw₀.toNat + 0x1ff := by
  unfold reading calibrated
  by_cases hzero : raw = 0
  · simp [hzero]
  · rw [if_neg hzero, if_neg hzero, or_iff_right hzero]
    omega

/-! ## Measurements -/

/-- A measurement of channel `c` stores and returns the calibrated sample, which
fits the converter's ten bits. -/
structure MeasuresCalibrated (s : Driver) (arg : IoAccessData) (c : Fin 16) : Prop where
  returned : (measure arg c s).1 = calibrated (sample s.regs c) s.cvData
  stored : (measure arg c s).2.1.data =
    BitVec.ofInt 32 (calibrated (sample s.regs c) s.cvData)
  fits : 0 ≤ (measure arg c s).1 ∧ (measure arg c s).1 ≤ 0x3ff

theorem measure_eq (arg : IoAccessData) (c : Fin 16) (s : Driver) :
    measure arg c s =
      let data := BitVec.ofInt 32 (reading (sample s.regs c) s.cvData)
      (data.toInt, { arg with address := BitVec.ofNat 32 c, data := data }, s) := by
  have haddress : ∀ c : Fin 16, (BitVec.ofNat 32 c).setWidth 8 = BitVec.ofNat 8 c := by
    decide
  refine ioaccessIoctl_measure_eq _ ?_
  rw [haddress, adcMeasure_eq]

section Measure

variable {s : Driver} (arg : IoAccessData) (c : Fin 16)
  (hcv : -0x1ff ≤ s.cvData ∧ s.cvData ≤ 0x200)

include hcv

theorem measure_returned : (measure arg c s).1 = reading (sample s.regs c) s.cvData := by
  have hraw := (sample s.regs c).isLt
  have hnonneg := reading_nonneg (sample s.regs c) s.cvData
  have hsmall : reading (sample s.regs c) s.cvData ≤ 0x5ff := by
    unfold reading
    split <;> omega
  rw [measure_eq]
  exact BitVec.toInt_ofInt_eq_self (by decide) (by omega) (by omega)

theorem measuresCalibrated_iff :
    MeasuresCalibrated s arg c ↔
      reading (sample s.regs c) s.cvData = calibrated (sample s.regs c) s.cvData := by
  have hreturned := measure_returned arg c hcv
  constructor
  · intro h
    rw [← hreturned, h.returned]
  · intro h
    have hstored : (measure arg c s).2.1.data =
        BitVec.ofInt 32 (reading (sample s.regs c) s.cvData) := by
      rw [measure_eq]
    refine ⟨hreturned.trans h, by rw [hstored, h], ?_⟩
    rw [hreturned, h]
    unfold calibrated
    split <;> omega

end Measure

/-- **When a measurement is calibrated**: after `adc_init`, whatever the registers
hold later, if and only if the sample is `0` or exceeds the calibration sample by
less than `0x200`.  In any case a larger sample never yields a smaller value. -/
theorem measuresCalibrated_iff_sample_le (hw : Hardware) (n : Nat) (s₀ s : Driver)
    (hinit : adcInit hw n s₀ = some s) (arg : IoAccessData) (c : Fin 16) :
    (∀ regs : Word → Word, MeasuresCalibrated { s with regs := regs } arg c ↔
      sample regs c = 0 ∨ (sample regs c).toNat ≤ (sample hw.sampled 0).toNat + 0x1ff) ∧
    ∀ regs regs' : Word → Word, (sample regs c).toNat ≤ (sample regs' c).toNat →
      (measure arg c { s with regs := regs }).1 ≤
        (measure arg c { s with regs := regs' }).1 := by
  have hcvData := adcInit_cvData hinit
  have hraw := (sample hw.sampled 0).isLt
  have hcv : -0x1ff ≤ s.cvData ∧ s.cvData ≤ 0x200 := by omega
  constructor
  · intro regs
    have hreading := reading_eq_calibrated_iff (sample regs c) (sample hw.sampled 0)
    rw [← hcvData] at hreading
    exact (measuresCalibrated_iff (s := { s with regs := regs }) arg c hcv).trans hreading
  · intro regs regs' hle
    have hreturned : ∀ regs, (measure arg c { s with regs := regs }).1 =
        reading (sample regs c) s.cvData := fun regs =>
      measure_returned (s := { s with regs := regs }) arg c hcv
    rw [hreturned, hreturned]
    exact reading_mono _ hle

/-- Calibrated with the sample `0x1F0`, the sample `0x1A5` of channel 0 reads as
`0x1B5`. -/
theorem measuresCalibrated_iff_sample_le_sample :
    ∃ s, adcInit ⟨fun _ => 0x100, fun _ => 0x1F0⟩ 1 ⟨fun _ => 0, 0⟩ = some s ∧
      MeasuresCalibrated { s with regs := fun _ => 0x1A5 } ⟨0, 0, 0, 0, 0, 0⟩ 0 :=
  ⟨_, rfl, ((measuresCalibrated_iff_sample_le ⟨fun _ => 0x100, fun _ => 0x1F0⟩ 1
    ⟨fun _ => 0, 0⟩ _ rfl ⟨0, 0, 0, 0, 0, 0⟩ 0).1 fun _ => 0x1A5).mpr (.inr (by decide))⟩

/-- Calibrated with the sample `0`, the largest sample reads as `0x5FF`. -/
theorem measure_exceeds_range :
    ∃ s, adcInit ⟨fun _ => 0x100, fun _ => 0⟩ 1 ⟨fun _ => 0, 0⟩ = some s ∧
      ¬ MeasuresCalibrated { s with regs := fun _ => 0x3ff } ⟨0, 0, 0, 0, 0, 0⟩ 0 := by
  refine ⟨_, rfl, fun h => ?_⟩
  exact absurd h.fits.2 (by decide)

end BmcCodes.Adc.Original
