import BmcCodes.Adc.Tdd
import BmcCodes.Lib.LastWrite
import BmcCodes.Lib.Machine
import BmcCodes.Lib.Update

/-!
# The rewritten driver simulates a converter

`Converter` says what the driver is for: sixteen channels that are enabled or
not, a clock divisor, and a sample for each channel.  Requests act on it with no
mention of registers.  The driver packs all of this into the engine register
(bit `n` is channel `n`), the low ten bits of the clock register, and the data
registers (two channels in each); `converter` reads it back.

Each request returns the same and moves both sides alike, so any run of requests
does.  On the abstract side, channels and divisor are last-write cells.
-/

namespace BmcCodes.Adc.Tdd

open BmcCodes.Lib BmcCodes.Lib.LastWrite BmcCodes.Lib.Machine

/-! ## The abstract machine -/

@[ext] structure Converter where
  enabled : Fin 16 → Bool
  divisor : BitVec 10
  sample : Fin 16 → BitVec 10

/-- A call of `adc_ioctl`. -/
structure Request where
  cmd : Word
  arg : IoAccessData

namespace Request

/-- The channel that the address field names. -/
def channel (q : Request) : Fin 16 := Fin.ofNat 16 q.arg.address.toNat

/-- A request that names a channel names one of the sixteen, and a divisor fits
its ten bits. -/
def InRange (q : Request) : Prop :=
  (q.cmd = ioctlSetAdcClock → q.arg.data.toNat ≤ 0x3ff) ∧
    (q.cmd = ioctlEnableAdc ∨ q.cmd = ioctlAdcMeasure → q.arg.address.toNat < 16)

instance (q : Request) : Decidable q.InRange := inferInstanceAs (Decidable (_ ∧ _))

/-- What the request stores in the enable state of channel `n`. -/
def enables (n : Fin 16) (q : Request) : Option Bool :=
  if q.cmd = ioctlEnableAdc ∧ q.channel = n then some (q.arg.data = 1) else none

/-- What the request stores in the divisor. -/
def setsDivisor (q : Request) : Option (BitVec 10) :=
  if q.cmd = ioctlSetAdcClock then some (q.arg.data.setWidth 10) else none

end Request

/-- The converter's answer to a request, and its next state. -/
def Converter.step (c : Converter) (q : Request) : (Int × IoAccessData) × Converter :=
  if q.cmd = ioctlSetAdcClock then
    ((0, q.arg), { c with divisor := q.arg.data.setWidth 10 })
  else if q.cmd = ioctlAdcMeasure then
    if c.enabled q.channel then
      ((0, { q.arg with data := (c.sample q.channel).setWidth 32 }), c)
    else ((-1, q.arg), c)
  else if q.cmd = ioctlEnableAdc then
    ((0, q.arg), { c with
      enabled := fun n => if n = q.channel then q.arg.data = 1 else c.enabled n })
  else ((-1, q.arg), c)

/-- The driver as a machine of the same kind. -/
def step (s : RegFile) (q : Request) : (Int × IoAccessData) × RegFile :=
  let (ret, arg, s) := adcIoctl q.cmd q.arg s
  ((ret, arg), s)

/-- The register that holds the sample of channel `n`, two channels in each. -/
def sampleRegister (n : Fin 16) : Word := adcDataRegister + 4 * BitVec.ofNat 32 (n / 2)

/-- What the registers say about the converter. -/
def converter (s : RegFile) : Converter where
  enabled n := (s adcEngineControlRegister).getLsbD n
  divisor := (s adcClockControlRegister).extractLsb' 0 10
  sample n := (s (sampleRegister n)).extractLsb' (16 * (n % 2)) 10

/-! ## Data registers -/

theorem dataOffset_eq (n : Fin 16) :
    (BitVec.ofInt 8 (4 * ((n : Nat) : Int).tdiv 2)).setWidth 32 =
      4 * BitVec.ofNat 32 (n / 2) := by
  revert n
  decide

theorem tmod_two_eq (n : Fin 16) : ((n : Nat) : Int).tmod 2 = ((n % 2 : Nat) : Int) := by
  revert n
  decide

theorem sampleRegister_ne_engine (n : Fin 16) :
    sampleRegister n ≠ adcEngineControlRegister := by
  revert n
  decide

theorem sampleRegister_ne_clock (n : Fin 16) :
    sampleRegister n ≠ adcClockControlRegister := by
  revert n
  decide

/-! ## Packed fields -/

theorem ofInt_toNat (x : BitVec 10) : BitVec.ofInt 32 (x.toNat : Int) = x.setWidth 32 := by
  apply BitVec.eq_of_toNat_eq
  rw [BitVec.ofInt_natCast, BitVec.toNat_ofNat, BitVec.toNat_setWidth]

/-- An arithmetic shift moves the upper field down like any other. -/
theorem extractLsb'_sshiftRight (x : Word) :
    (x.sshiftRight 16).extractLsb' 0 10 = x.extractLsb' 16 10 := by
  apply BitVec.eq_of_getLsbD_eq
  intro i hi
  rw [BitVec.getLsbD_extractLsb', BitVec.getLsbD_extractLsb',
    BitVec.getLsbD_sshiftRight, Nat.zero_add, if_pos (by omega),
    decide_eq_false (by omega : ¬32 ≤ i), Bool.not_false, Bool.true_and]

/-- Shifting a masked bit down makes a flag of it. -/
theorem shr_and_shl_one (r : Word) (n : Fin 32) :
    shr (r &&& shl 1 (n : Nat)) (n : Nat) = if r.getLsbD n then 1 else 0 := by
  have hdown : ∀ n : Fin 32, BitVec.twoPow 32 n >>> n.val = 1 := by decide
  rw [shr_natCast, shl_one_natCast, BitVec.and_twoPow]
  split
  · exact hdown n
  · exact BitVec.zero_ushiftRight

theorem adcGetChanStatus_natCast (s : RegFile) (n : Fin 32) :
    adcGetChanStatus (n : Nat) s =
      if (s adcEngineControlRegister).getLsbD n then 1 else 0 := by
  rw [adcGetChanStatus, readl, shr_and_shl_one]
  split <;> rfl

/-! ## The driver's functions on the abstract state -/

section Functions

variable (s : RegFile) (n : Fin 16)

theorem adcGetChanStatus_eq :
    adcGetChanStatus (n : Nat) s = if (converter s).enabled n then 1 else 0 :=
  adcGetChanStatus_natCast s ⟨n, by omega⟩

theorem adcGetClockDivisor_eq :
    adcGetClockDivisor s = (converter s).divisor.toNat := by
  rw [adcGetClockDivisor, readl, adcDivisorOfAdcClock, and_0x3ff_eq,
    toInt_setWidth_10]
  rfl

theorem adcMeasure_eq :
    adcMeasure (n : Nat) s =
      if (converter s).enabled n then (((converter s).sample n).toNat : Int)
      else -1 := by
  rw [adcMeasure, adcGetChanStatus_eq, dataOffset_eq, tmod_two_eq, readl, ← sampleRegister]
  cases hon : (converter s).enabled n with
  | false => rfl
  | true =>
      rw [if_neg (by decide), if_pos rfl]
      rcases Nat.mod_two_eq_zero_or_one n.val with hn | hn
      · rw [hn, if_neg (by decide), and_0x3ff_eq, toInt_setWidth_10]
        simp only [converter, hn]
      · rw [hn, if_pos (by decide), and_0x3ff_eq, toInt_setWidth_10,
          extractLsb'_sshiftRight]
        simp only [converter, hn]

theorem adcSetClock_getLsbD (data : Word) (i : Nat) (hi : i < 32) :
    (adcSetClock data.toInt s adcClockControlRegister).getLsbD i =
      if i < 10 then data.getLsbD i
      else ((s adcClockControlRegister).getLsbD i || data.getLsbD i) := by
  have hmask : ∀ i < 32, (~~~adcDivisorOfAdcClock).getLsbD i = decide (10 ≤ i) := by
    decide
  rw [adcSetClock, writel, if_pos rfl, readl, BitVec.ofInt_toInt, BitVec.getLsbD_or,
    BitVec.getLsbD_and, hmask i hi]
  split
  · rw [decide_eq_false (by omega), Bool.and_false, Bool.false_or]
  · rw [decide_eq_true (by omega), Bool.and_true]

theorem adcSetClock_of_ne (divisor : Int) {o : Word}
    (ho : o ≠ adcClockControlRegister) : adcSetClock divisor s o = s o :=
  if_neg ho

/-- The channel's bit is assigned, and no other register changes. -/
theorem adcEnableChan_eq (enable : Int) :
    adcEnableChan (n : Nat) enable s =
      writel ((Update.assignBit n (decide (enable = 1))).apply
        (s adcEngineControlRegister)) adcEngineControlRegister s := by
  rw [adcEnableChan, readl, shl_one_natCast, Update.apply, Update.assignBit]
  by_cases h : enable = 1
  · simp only [h, if_true, decide_true]
  · simp only [h, Ne.symm h, if_false, decide_false, Bool.false_eq_true,
      BitVec.or_zero]

theorem adcEnableChan_getLsbD (enable : Int) (i : Nat) (hi : i < 32) :
    (adcEnableChan (n : Nat) enable s adcEngineControlRegister).getLsbD i =
      if n = i then decide (enable = 1)
      else (s adcEngineControlRegister).getLsbD i := by
  rw [adcEnableChan_eq, writel, if_pos rfl, Update.assignBit_apply_getLsbD _ _ _ i hi]

theorem adcEnableChan_of_ne (chanNo enable : Int) {o : Word}
    (ho : o ≠ adcEngineControlRegister) : adcEnableChan chanNo enable s o = s o :=
  if_neg ho

end Functions

/-! ## One request -/

theorem converter_adcSetClock (s : RegFile) (data : Word) :
    converter (adcSetClock data.toInt s) =
      { converter s with divisor := data.setWidth 10 } := by
  have hengine : adcEngineControlRegister ≠ adcClockControlRegister := by decide
  simp only [converter, adcSetClock_of_ne s _ hengine,
    adcSetClock_of_ne s _ (sampleRegister_ne_clock _),
    Converter.mk.injEq, true_and, and_true]
  apply BitVec.eq_of_getLsbD_eq
  intro i hi
  rw [BitVec.getLsbD_extractLsb', Nat.zero_add, adcSetClock_getLsbD s data i (by omega),
    if_pos hi, BitVec.getLsbD_setWidth]

theorem converter_adcEnableChan (s : RegFile) (n : Fin 16) (enable : Int) :
    converter (adcEnableChan (n : Nat) enable s) =
      { converter s with
        enabled := fun m => if m = n then decide (enable = 1)
          else (converter s).enabled m } := by
  have hclock : adcClockControlRegister ≠ adcEngineControlRegister := by decide
  simp only [converter, adcEnableChan_of_ne s _ _ hclock,
    adcEnableChan_of_ne s _ _ (sampleRegister_ne_engine _), Converter.mk.injEq, and_true]
  funext m
  rw [adcEnableChan_getLsbD s n enable m (by omega)]
  simp only [Fin.ext_iff, eq_comm]

/-- In range, the address field is the channel as an `int`. -/
theorem Request.address_toInt {q : Request} (h : q.arg.address.toNat < 16) :
    q.arg.address.toInt = (q.channel : Nat) := by
  rw [BitVec.toInt_eq_toNat_of_lt (by omega), Request.channel, Fin.val_ofNat,
    Nat.mod_eq_of_lt h]

theorem toInt_eq_one_iff (x : Word) : x.toInt = 1 ↔ x = 1 := by
  constructor
  · intro h
    rw [← BitVec.ofInt_toInt (x := x), h]
    rfl
  · rintro rfl
    rfl

/-- **One request** returns the same on both sides and moves them alike. -/
theorem simulation :
    Simulation step Converter.step (fun s c => converter s = c) Request.InRange := by
  have hmeasure : ioctlAdcMeasure ≠ ioctlSetAdcClock := by decide
  have henable : ioctlEnableAdc ≠ ioctlSetAdcClock := by decide
  have henable' : ioctlEnableAdc ≠ ioctlAdcMeasure := by decide
  have hboth : ∀ (s : RegFile) (q : Request), q.InRange →
      (step s q).1 = ((converter s).step q).1 ∧
        converter (step s q).2 = ((converter s).step q).2 := by
    rintro s ⟨cmd, arg⟩ ⟨-, hchannel⟩
    by_cases hset : cmd = ioctlSetAdcClock
    · subst hset
      simp only [step, adcIoctl, Converter.step, if_true]
      exact ⟨trivial, converter_adcSetClock s arg.data⟩
    by_cases hmeas : cmd = ioctlAdcMeasure
    · subst hmeas
      have haddress := Request.address_toInt (hchannel (.inr rfl))
      simp only [step, adcIoctl, Converter.step, hmeasure, if_true, if_false]
      rw [haddress, adcMeasure_eq]
      -- a sample is not negative, so `-1` means a disabled channel
      split
      · rw [if_neg (by omega), ofInt_toNat]
        exact ⟨rfl, rfl⟩
      · exact ⟨rfl, rfl⟩
    by_cases hen : cmd = ioctlEnableAdc
    · subst hen
      have haddress := Request.address_toInt (hchannel (.inl rfl))
      simp only [step, adcIoctl, Converter.step, henable, henable', if_true, if_false]
      rw [haddress, converter_adcEnableChan]
      simp only [toInt_eq_one_iff, and_self]
    · simp only [step, adcIoctl, Converter.step, hset, hmeas, hen, if_false, and_self]
  constructor
  · rintro s _ q rfl hq
    exact (hboth s q hq).1
  · rintro s _ q rfl hq
    exact (hboth s q hq).2

/-- What a request that finds the registers `s` and leaves `s'` does not touch:
the data registers; the clock register, but for the divisor when it sets that;
the engine register, but for the bit of its channel when it enables or disables
that. -/
structure Untouched (s : RegFile) (q : Request) (s' : RegFile) : Prop where
  others : ∀ o, o ≠ adcEngineControlRegister → o ≠ adcClockControlRegister →
    s' o = s o
  clock : q.cmd ≠ ioctlSetAdcClock →
    s' adcClockControlRegister = s adcClockControlRegister
  clockUpper : ∀ i, 10 ≤ i →
    (s' adcClockControlRegister).getLsbD i = (s adcClockControlRegister).getLsbD i
  engine : q.cmd ≠ ioctlEnableAdc →
    s' adcEngineControlRegister = s adcEngineControlRegister
  channels : ∀ i : Nat, i ≠ q.channel →
    (s' adcEngineControlRegister).getLsbD i = (s adcEngineControlRegister).getLsbD i

theorem untouched_self (s : RegFile) (q : Request) : Untouched s q s :=
  ⟨fun _ _ _ => rfl, fun _ => rfl, fun _ _ => rfl, fun _ => rfl, fun _ _ => rfl⟩

/-- A divisor that fits its field does not reach the bits above it. -/
theorem adcSetClock_untouched (s : RegFile) {q : Request} (hset : q.cmd = ioctlSetAdcClock)
    (hdata : q.arg.data.toNat ≤ 0x3ff) : Untouched s q (adcSetClock q.arg.data.toInt s) := by
  have hengine : adcSetClock q.arg.data.toInt s adcEngineControlRegister =
      s adcEngineControlRegister := adcSetClock_of_ne s _ (by decide)
  refine ⟨fun o _ ho => adcSetClock_of_ne s _ ho, fun h => absurd hset h, ?_,
    fun _ => hengine, fun i _ => by rw [hengine]⟩
  intro i hi
  by_cases hwidth : i < 32
  · have hbit : q.arg.data.getLsbD i = false := by
      have hpow : 2 ^ 10 ≤ 2 ^ i := Nat.pow_le_pow_right (by decide) hi
      rw [← BitVec.testBit_toNat]
      exact Nat.testBit_lt_two_pow (by omega)
    rw [adcSetClock_getLsbD s _ i hwidth, if_neg (by omega), hbit, Bool.or_false]
  · rw [BitVec.getLsbD_of_ge _ _ (by omega), BitVec.getLsbD_of_ge _ _ (by omega)]

theorem adcEnableChan_untouched (s : RegFile) {q : Request} (henable : q.cmd = ioctlEnableAdc)
    (enable : Int) : Untouched s q (adcEnableChan (q.channel : Nat) enable s) := by
  have hkept : adcEnableChan (q.channel : Nat) enable s adcClockControlRegister =
      s adcClockControlRegister := adcEnableChan_of_ne s _ _ (by decide)
  refine ⟨fun o ho _ => adcEnableChan_of_ne s _ _ ho, fun _ => hkept,
    fun i _ => by rw [hkept], fun h => absurd henable h, ?_⟩
  intro i hi
  by_cases hwidth : i < 32
  · rw [adcEnableChan_getLsbD s _ _ i hwidth, if_neg (Ne.symm hi)]
  · rw [BitVec.getLsbD_of_ge _ _ (by omega), BitVec.getLsbD_of_ge _ _ (by omega)]

theorem step_untouched (s : RegFile) (q : Request) (hq : q.InRange) :
    Untouched s q (step s q).2 := by
  obtain ⟨hdata, hchannel⟩ := hq
  by_cases hset : q.cmd = ioctlSetAdcClock
  · have hstep : (step s q).2 = adcSetClock q.arg.data.toInt s := by
      simp only [step, adcIoctl, hset, if_true]
    rw [hstep]
    exact adcSetClock_untouched s hset (hdata hset)
  by_cases hen : q.cmd = ioctlEnableAdc
  · have hstep : (step s q).2 = adcEnableChan (q.channel : Nat) q.arg.data.toInt s := by
      rw [← Request.address_toInt (hchannel (.inl hen))]
      simp only [step, adcIoctl, hen, if_true]
      rfl
    rw [hstep]
    exact adcEnableChan_untouched s hen _
  · have hstep : (step s q).2 = s := by
      simp only [step, adcIoctl, hset, hen, if_false]
      split
      · split <;> rfl
      · rfl
    rw [hstep]
    exact untouched_self s q

/-! ## Runs of requests -/

/-- On the abstract machine, a channel holds what was last stored in it. -/
theorem run_enabled (c : Converter) (qs : List Request) (n : Fin 16) :
    (run Converter.step c qs).2.enabled n =
      lastWrite (Request.enables n) (c.enabled n) qs := by
  rw [run_snd]
  refine foldl_eq_lastWrite (fun c : Converter => c.enabled n) _ _ ?_ c qs
  intro c q
  unfold Converter.step Request.enables
  by_cases hen : q.cmd = ioctlEnableAdc
  · simp only [hen, show ioctlEnableAdc ≠ ioctlSetAdcClock by decide,
      show ioctlEnableAdc ≠ ioctlAdcMeasure by decide, if_true, if_false, true_and,
      eq_comm (a := n)]
    split <;> rfl
  · simp only [hen, false_and, if_false, Option.getD_none]
    split
    · rfl
    · split
      · split <;> rfl
      · rfl

theorem run_divisor (c : Converter) (qs : List Request) :
    (run Converter.step c qs).2.divisor =
      lastWrite Request.setsDivisor c.divisor qs := by
  rw [run_snd]
  refine foldl_eq_lastWrite Converter.divisor _ _ ?_ c qs
  intro c q
  unfold Converter.step Request.setsDivisor
  by_cases hset : q.cmd = ioctlSetAdcClock
  · simp only [hset, if_true, Option.getD_some]
  · simp only [hset, if_false, Option.getD_none]
    split
    · split <;> rfl
    · split <;> rfl

/-- **The driver simulates the converter** over any run of requests in range:
the results and the final states agree, each channel and the divisor are what
was last stored in them, and no request touches what is not its own. -/
theorem adcIoctl_run_simulates (s : RegFile) (qs : List Request)
    (hqs : ∀ q ∈ qs, q.InRange) :
    let driver := run step s qs
    let abstract := run Converter.step (converter s) qs
    driver.1 = abstract.1 ∧ converter driver.2 = abstract.2 ∧
      (∀ n : Fin 16, adcGetChanStatus (n : Nat) driver.2 =
        if lastWrite (Request.enables n) ((s adcEngineControlRegister).getLsbD n) qs
          then 1 else 0) ∧
      adcGetClockDivisor driver.2 =
        (lastWrite Request.setsDivisor
          ((s adcClockControlRegister).extractLsb' 0 10) qs).toNat ∧
      Each (fun s q => (step s q).2) (fun s q => Untouched s q (step s q).2) s qs := by
  intro driver abstract
  obtain ⟨houtputs, hstates⟩ := simulation.run rfl hqs
  refine ⟨houtputs, hstates, fun n => ?_, ?_, ?_⟩
  · rw [adcGetChanStatus_eq, hstates, run_enabled]
    rfl
  · rw [adcGetClockDivisor_eq, hstates, run_divisor]
    rfl
  · exact each_of_forall _ _ s fun s q hq => step_untouched s q (hqs q hq)

/-- A register file whose only sample is `0xA5` for channel 4, and requests that
enable the channel, measure it and its neighbour, and set the clock. -/
theorem adcIoctl_run_simulates_sample :
    (run step (fun o => if o = sampleRegister 4 then 0xA5 else 0)
        [⟨ioctlEnableAdc, 0, 4, 1, 0, 0, 0⟩, ⟨ioctlAdcMeasure, 0, 4, 0, 0, 0, 0⟩,
          ⟨ioctlAdcMeasure, 0, 5, 0, 0, 0, 0⟩,
          ⟨ioctlSetAdcClock, 0, 0, 0x40, 0, 0, 0⟩]).1 =
      [(0, ⟨0, 4, 1, 0, 0, 0⟩), (0, ⟨0, 4, 0xA5, 0, 0, 0⟩),
        (-1, ⟨0, 5, 0, 0, 0, 0⟩), (0, ⟨0, 0, 0x40, 0, 0, 0⟩)] :=
  (adcIoctl_run_simulates _ _ (by decide)).1.trans (by decide)

end BmcCodes.Adc.Tdd
