import BmcCodes.Adc.Define

/-!
# The original ADC driver

`linux_driver/ADC/adc_drv.c`, translated function by function.  Reading a
register yields what it holds; what the converter itself puts into the data
registers is part of the state a call finds.  Only `adc_init` waits for the
converter, whose part in it is a `Hardware`.

The driver updates its registers through macros, whose parameters the C
preprocessor replaces by the text of the arguments.  The parameter `anddata` of
`write_register_and` follows a `~` without parentheses, and `~` binds tighter
than the operators in the arguments.
-/

namespace BmcCodes.Adc.Original

/-- The registers, by physical address, and `CV_Data`. -/
structure Driver where
  regs : Word → Word
  cvData : Int

def engineControl : Word := adcEngineControlRegister + adcEngineAddress
def clockControl : Word := adcClockControlRegister + adcEngineAddress
def dataRegister : Word := adcDataRegister + adcEngineAddress

namespace Driver

def readRegister (address : Word) (s : Driver) : Word := s.regs address

def writeRegister (address data : Word) (s : Driver) : Driver :=
  { s with regs := fun a => if a = address then data else s.regs a }

def writeRegisterOr (address data : Word) (s : Driver) : Driver :=
  s.writeRegister address (s.readRegister address ||| data)

/-- `write_register_and`, with the value of the text `~anddata`, wherever its
`~` ends up, in place of `anddata`. -/
def writeRegisterAnd (address notAnddata data : Word) (s : Driver) : Driver :=
  s.writeRegister address ((s.readRegister address &&& notAnddata) ||| data)

end Driver

/-- `~anddata` expands to `~(0x01 << ADC_CLOCK_INVERSE) +
ADC_DIVISOR_OF_ADC_CLOCK`. -/
def setAdcClock (adcClockDivisor inverse : Byte) (s : Driver) : Byte × Driver :=
  (1, s.writeRegisterAnd clockControl
    (~~~(shl 0x01 adcClockInverse) + adcDivisorOfAdcClock)
    (adcClockDivisor.setWidth 32 ||| shl (inverse.setWidth 32) adcClockInverse))

def adcMeasure (adcChannelSelection : Byte) (s : Driver) : Int :=
  let rawData := s.readRegister
    (dataRegister + 4 * (adcChannelSelection.setWidth 32 / 2))
  if adcChannelSelection % 2 ≠ 0 then ((rawData >>> 16) &&& 0x3ff).toInt
  else (rawData &&& 0x3ff).toInt

def enableAdcChannel (adcChannelSelection : Byte) (s : Driver) : Int × Driver :=
  (1, s.writeRegisterOr engineControl
    (shl 0x01 (adcChannelEnable + adcChannelSelection.toNat)))

/-- `~anddata` expands to `~0x01 << (ADC_CHANNEL_ENABLE +
adc_channel_selection)`. -/
def disableAdcChannel (adcChannelSelection : Byte) (s : Driver) : Int × Driver :=
  (1, s.writeRegisterAnd engineControl
    (shl (~~~0x01) (adcChannelEnable + adcChannelSelection.toNat))
    0x00)

/-- The answers of the converter to `adc_init`. -/
structure Hardware where
  /-- The engine control register at reading `i` of the waiting loop. -/
  engine : Nat → Word
  /-- The registers `mdelay (1000)` after channel 0 has been enabled. -/
  sampled : Word → Word

/-- The waiting loop, with `n` readings left of which the next is number `i`:
whether one of them has bit 8 set. -/
def initialSequenceCheck (hw : Hardware) : (n i : Nat) → Bool
  | 0, _ => false
  | n + 1, i =>
      if hw.engine i &&& (1 <<< 8) = 0 then initialSequenceCheck hw n (i + 1) else true

/-- There is no result where the waiting loop goes on for more than `n` readings. -/
def adcInit (hw : Hardware) (n : Nat) (s : Driver) : Option Driver :=
  let s := s.writeRegister scuPasswordRegister scuProtectionKey
  let s := s.writeRegisterOr scuResetControlRegister adcResetBit
  let s := s.writeRegisterAnd scuResetControlRegister (~~~adcResetBit) 0
  let s := s.writeRegister clockControl 0x40
  let s := s.writeRegister engineControl 0x0000000f
  if initialSequenceCheck hw n 0 then
    let s := s.writeRegister engineControl 0x0000001f
    let s := s.writeRegister engineControl 0x0001001f
    let s := { s with regs := hw.sampled }
    let s := { s with cvData := 0x200 - adcMeasure 0 s }
    let s := s.writeRegister engineControl 0x0000000f
    some (s.writeRegister scuPasswordRegister 0xaa)
  else none

/-- The request as the caller finds it afterwards is returned with the result. -/
def ioaccessIoctl (cmd : Word) (arg : IoAccessData) (s : Driver) :
    Int × IoAccessData × Driver :=
  let kernelIoData := arg
  if cmd = ioctlIoRead then
    let kernelIoData :=
      { kernelIoData with data := s.readRegister kernelIoData.address }
    (0, kernelIoData, s)
  else if cmd = ioctlIoWrite then
    (0, arg, s.writeRegister kernelIoData.address kernelIoData.data)
  else if cmd = ioctlSetAdcClock then
    let (ret, s) := setAdcClock (kernelIoData.address.setWidth 8)
      (kernelIoData.data.setWidth 8) s
    (ret.toNat, arg, s)
  else if cmd = ioctlAdcMeasure then
    let readdata := adcMeasure (kernelIoData.address.setWidth 8) s
    let readdata := readdata + s.cvData
    let kernelIoData :=
      if readdata < 0 ∨ readdata = s.cvData then { kernelIoData with data := 0 }
      else { kernelIoData with data := BitVec.ofInt 32 readdata }
    (kernelIoData.data.toInt, kernelIoData, s)
  else if cmd = ioctlEnableAdc then
    let (ret, s) := enableAdcChannel (kernelIoData.address.setWidth 8) s
    (ret, arg, s)
  else (3, arg, s)

end BmcCodes.Adc.Original
