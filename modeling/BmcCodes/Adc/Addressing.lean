import BmcCodes.Adc.Calibration
import BmcCodes.Adc.ChannelBits

/-!
# What the original driver makes of an address

The address field of a request is a channel or a divisor.  `ioaccess_ioctl` casts it
to `unsigned char` and refuses nothing, so it acts on the low eight bits of whatever
it is given.  The caller is served as asked where the address is a channel, for a
measurement or an enable, and where it is at most `0xff`, for the clock, whose field
is wider than that.
-/

namespace BmcCodes.Adc.Original

open BmcCodes.Lib

/-- The request is turned down: an error is returned, a negative one or the `3` of an
unknown command, and nothing is changed. -/
structure Refused (arg : IoAccessData) (s : Driver)
    (result : Int × IoAccessData × Driver) : Prop where
  error : result.1 < 0 ∨ result.1 = 3
  unchanged : result.2 = (arg, s)

/-- A measurement reports the sample of the channel that the address names. -/
structure ReportsChannel (arg : IoAccessData) (s : Driver)
    (result : Int × IoAccessData × Driver) (n : Fin 16) : Prop where
  channel : arg.address = BitVec.ofNat 32 n
  reported : result.2.1 =
    { arg with data := BitVec.ofInt 32 (reading (sample s.regs n) s.cvData) }
  returned : result.1 = result.2.1.data.toInt
  registers : result.2.2 = s

/-- An enable sets the bit of the channel that the address names, and no other, by a
shift that is defined. -/
structure EnablesChannel (arg : IoAccessData) (s : Driver)
    (result : Int × IoAccessData × Driver) (n : Fin 16) : Prop where
  channel : arg.address = BitVec.ofNat 32 n
  shift : adcChannelEnable + ((arg.address.setWidth 8).toNat : Int) < 32
  registers : result.2.2 = s.writeRegister engineControl
    ((Update.assignBit (16 + n) true).apply (s.regs engineControl))

def MeasureHonoured (address : Word) : Prop :=
  ∀ (s : Driver) (arg : IoAccessData), arg.address = address →
    (∃ n, ReportsChannel arg s (ioaccessIoctl ioctlAdcMeasure arg s) n) ∨
      Refused arg s (ioaccessIoctl ioctlAdcMeasure arg s)

def EnableHonoured (address : Word) : Prop :=
  ∀ (s : Driver) (arg : IoAccessData), arg.address = address →
    (∃ n, EnablesChannel arg s (ioaccessIoctl ioctlEnableAdc arg s) n) ∨
      Refused arg s (ioaccessIoctl ioctlEnableAdc arg s)

/-- On a zeroed clock register, and without the inverse flag. -/
def ClockHonoured (address : Word) : Prop :=
  ∀ (s : Driver) (arg : IoAccessData), arg.address = address → arg.data = 0 →
    s.regs clockControl = 0 →
      if address.toNat ≤ 0x3ff then
        (ioaccessIoctl ioctlSetAdcClock arg s).2.2.regs clockControl = address
      else Refused arg s (ioaccessIoctl ioctlSetAdcClock arg s)

/-- Every command acts on the address it is given, or refuses it. -/
def NoSilentChange (address : Word) : Prop :=
  MeasureHonoured address ∧ EnableHonoured address ∧ ClockHonoured address

theorem exists_channel_iff (address : Word) :
    (∃ n : Fin 16, address = BitVec.ofNat 32 n) ↔ address.toNat < 16 := by
  constructor
  · rintro ⟨n, rfl⟩
    rw [BitVec.toNat_ofNat]
    omega
  · intro h
    refine ⟨⟨address.toNat, h⟩, ?_⟩
    rw [BitVec.ofNat_toNat, BitVec.setWidth_eq]

theorem setWidth_ofNat (n : Fin 16) :
    (BitVec.ofNat 32 n).setWidth 8 = BitVec.ofNat 8 n := by
  revert n
  decide

/-! ## Measurements -/

theorem measureHonoured_iff (address : Word) :
    MeasureHonoured address ↔ address.toNat < 16 := by
  rw [← exists_channel_iff]
  constructor
  · intro h
    -- a converter whose registers are all ones reports a full sample
    have hfull : adcMeasure (address.setWidth 8) ⟨fun _ => 0xFFFFFFFF, 0⟩ =
        ((0x3ff : BitVec 10).toNat : Int) := by
      rw [adcMeasure]
      dsimp only [Driver.readRegister]
      split <;> decide
    have heq := ioaccessIoctl_measure_eq ⟨0, address, 0, 0, 0, 0⟩ hfull
    rcases h ⟨fun _ => 0xFFFFFFFF, 0⟩ ⟨0, address, 0, 0, 0, 0⟩ rfl with hreports | hrefused
    · obtain ⟨n, hn⟩ := hreports
      exact ⟨n, hn.channel⟩
    · have herror := hrefused.error
      rw [heq] at herror
      dsimp only at herror
      exact absurd herror (by decide)
  · rintro ⟨n, rfl⟩ s arg harg
    have hraw : adcMeasure (arg.address.setWidth 8) s = (sample s.regs n).toNat := by
      rw [harg, setWidth_ofNat, adcMeasure_eq]
    rw [ioaccessIoctl_measure_eq arg hraw]
    exact .inl ⟨n, harg, rfl, rfl, rfl⟩

/-! ## Enabling -/

theorem ioaccessIoctl_enable_eq (arg : IoAccessData) (s : Driver) :
    ioaccessIoctl ioctlEnableAdc arg s =
      (1, arg, (enableAdcChannel (arg.address.setWidth 8) s).2) := by
  have hread : ioctlEnableAdc ≠ ioctlIoRead := by decide
  have hwrite : ioctlEnableAdc ≠ ioctlIoWrite := by decide
  have hclock : ioctlEnableAdc ≠ ioctlSetAdcClock := by decide
  have hmeasure : ioctlEnableAdc ≠ ioctlAdcMeasure := by decide
  simp only [ioaccessIoctl, hread, hwrite, hclock, hmeasure, if_true, if_false]
  rfl

theorem enableHonoured_iff (address : Word) :
    EnableHonoured address ↔ address.toNat < 16 := by
  rw [← exists_channel_iff]
  constructor
  · intro h
    rcases h ⟨fun _ => 0, 0⟩ ⟨0, address, 0, 0, 0, 0⟩ rfl with henables | hrefused
    · obtain ⟨n, hn⟩ := henables
      exact ⟨n, hn.channel⟩
    · have herror := hrefused.error
      rw [ioaccessIoctl_enable_eq] at herror
      simp at herror
  · rintro ⟨n, rfl⟩ s arg harg
    have hbyte : (BitVec.ofNat 8 n).toNat = n := by
      rw [BitVec.toNat_ofNat]
      omega
    rw [ioaccessIoctl_enable_eq]
    refine .inl ⟨n, harg, ?_, ?_⟩
    · rw [harg, setWidth_ofNat, hbyte, adcChannelEnable]
      omega
    · have hcount : adcChannelEnable + ((n : Nat) : Int) = ((16 + n : Nat) : Int) := by
        rw [adcChannelEnable]
        omega
      have hor : (Update.assignBit (16 + n) true).apply (s.regs engineControl) =
          s.regs engineControl ||| BitVec.twoPow 32 (16 + n) := by
        apply BitVec.eq_of_getLsbD_eq
        intro i hi
        rw [Update.assignBit_apply_getLsbD _ _ _ i hi, BitVec.getLsbD_or,
          BitVec.getLsbD_twoPow]
        by_cases hni : 16 + n.val = i
        · simp [hni, hi]
        · simp [hni]
      rw [harg, setWidth_ofNat, enableAdcChannel, Driver.writeRegisterOr, hbyte, hcount,
        shl_one_natCast, hor]
      rfl

/-! ## The clock -/

theorem ioaccessIoctl_clock_eq (arg : IoAccessData) (s : Driver) :
    ioaccessIoctl ioctlSetAdcClock arg s =
      (1, arg, (setAdcClock (arg.address.setWidth 8) (arg.data.setWidth 8) s).2) := by
  have hread : ioctlSetAdcClock ≠ ioctlIoRead := by decide
  have hwrite : ioctlSetAdcClock ≠ ioctlIoWrite := by decide
  simp only [ioaccessIoctl, hread, hwrite, if_true, if_false]
  rfl

theorem clockHonoured_iff (address : Word) :
    ClockHonoured address ↔ address.toNat ≤ 0xff := by
  -- on a zeroed register the low eight bits of the address are what is left
  have hwritten : ∀ s : Driver, s.regs clockControl = 0 →
      ((setAdcClock (address.setWidth 8) 0 s).2.regs clockControl) =
        (address.setWidth 8).setWidth 32 := by
    intro s hzero
    have hflag : shl ((0 : Byte).setWidth 32) adcClockInverse = 0 := by decide
    simp only [setAdcClock, Driver.writeRegisterAnd, Driver.writeRegister,
      Driver.readRegister, if_true, hzero, hflag]
    simp
  have hnarrow : (address.setWidth 8).setWidth 32 = address ↔ address.toNat ≤ 0xff := by
    rw [← BitVec.toNat_inj, BitVec.toNat_setWidth, BitVec.toNat_setWidth]
    omega
  constructor
  · intro h
    have hzeroed := h ⟨fun _ => 0, 0⟩ ⟨0, address, 0, 0, 0, 0⟩ rfl rfl rfl
    rw [ioaccessIoctl_clock_eq] at hzeroed
    split at hzeroed
    · rw [← hnarrow]
      exact (hwritten ⟨fun _ => 0, 0⟩ rfl).symm.trans hzeroed
    · have herror := hzeroed.error
      simp at herror
  · intro haddress s arg harg hdata hzero
    rw [if_pos (by omega), ioaccessIoctl_clock_eq, harg, hdata]
    exact (hwritten s hzero).trans (hnarrow.mpr haddress)

/-- **When the driver acts on the address it is given**: a measurement and an enable
on the channels `0..15` only, and the clock on the divisors that fit eight bits. -/
theorem honoured_iff (address : Word) :
    (MeasureHonoured address ↔ address.toNat < 16) ∧
      (EnableHonoured address ↔ address.toNat < 16) ∧
      (ClockHonoured address ↔ address.toNat ≤ 0xff) :=
  ⟨measureHonoured_iff address, enableHonoured_iff address, clockHonoured_iff address⟩

/-- The address `0x103` enables channel 3. -/
theorem enable_address_0x103_enables_three : ¬ NoSilentChange 0x103 := by
  intro h
  exact absurd ((enableHonoured_iff 0x103).mp h.2.1) (by decide)

end BmcCodes.Adc.Original
