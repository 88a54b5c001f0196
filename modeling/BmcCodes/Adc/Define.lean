import BmcCodes.Lib.CInt

/-!
# Registers and requests of the ADC drivers

What the two drivers share: the register map of `adc_define.h`, and the request
codes and the request record of `ioaccess.h`.
-/

namespace BmcCodes.Adc

/-! ## `adc_define.h` -/

/-- The SCU registers that guard and reset the converter, by physical address. -/
def scuPasswordRegister : Word := 0x1E6E2000
def scuResetControlRegister : Word := 0x1E6E2004
def scuProtectionKey : Word := 0x1688A8A8
def adcResetBit : Word := 1 <<< 23

/-- `ADC_ENGINE_ADDRESS`.  The original driver adds it to the register offsets,
the rewritten one maps the registers at `adc_reg_base` and uses the offsets. -/
def adcEngineAddress : Word := 0x1E6E9000

def adcEngineControlRegister : Word := 0x0
def adcClockControlRegister : Word := 0xC
def adcDataRegister : Word := 0x10

/-- `ADC_CHANNEL_ENABLE`, the bit of `ADC_ENGINE_CONTROL_REGISTER` that enables
channel 0.  The bits below belong to the engine. -/
def adcChannelEnable : Int := 16

/-- `ADC_DIVISOR_OF_ADC_CLOCK`, a mask, and `ADC_CLOCK_INVERSE`, a position. -/
def adcDivisorOfAdcClock : Word := 0x3ff
def adcClockInverse : Int := 16

/-! ## `ioaccess.h` -/

def ioctlIoRead : Word := 0x1103
def ioctlIoWrite : Word := 0x1104
def ioctlEnableAdc : Word := 0x111C
def ioctlAdcMeasure : Word := 0x111D
def ioctlSetAdcClock : Word := 0x111E

/-- `IO_ACCESS_DATA`. -/
structure IoAccessData where
  type : Byte
  address : Word
  data : Word
  value : Word
  i2cValue : Word
  kernelSocket : Int
  deriving DecidableEq, Repr

/-! ## Ten-bit fields -/

/-- Masking with `0x3ff` extracts a ten-bit field. -/
theorem and_0x3ff_eq (x : Word) : x &&& 0x3ff = (x.extractLsb' 0 10).setWidth 32 := by
  have hmask : ∀ i < 32, (0x3ff : Word).getLsbD i = decide (i < 10) := by decide
  apply BitVec.eq_of_getLsbD_eq
  intro i hi
  rw [BitVec.getLsbD_and, hmask i hi, BitVec.getLsbD_setWidth,
    BitVec.getLsbD_extractLsb', Nat.zero_add, decide_eq_true hi, Bool.true_and,
    Bool.and_comm]

theorem toInt_setWidth_10 (x : BitVec 10) : (x.setWidth 32).toInt = x.toNat := by
  have hx := x.isLt
  rw [BitVec.toInt_eq_toNat_of_lt] <;>
    rw [BitVec.toNat_setWidth, Nat.mod_eq_of_lt (by omega)]
  omega

end BmcCodes.Adc
