import BmcCodes.Adc.Define

/-!
# The rewritten ADC driver

The driver functions of `linux_driver/ADC_TDD/adc_drv.c`, translated one by
one.  Its registers are mapped at `adc_reg_base`; the state is their content by
offset.  Channel numbers and the like are `int`s, converted from the `unsigned
long` fields of a request.
-/

namespace BmcCodes.Adc.Tdd

/-- The mapped registers, by offset from `adc_reg_base`. -/
abbrev RegFile := Word → Word

def readl (offset : Word) (s : RegFile) : Word := s offset

def writel (regv offset : Word) (s : RegFile) : RegFile :=
  fun o => if o = offset then regv else s o

def adcGetChanStatus (chanNo : Int) (s : RegFile) : Int :=
  let regv := readl adcEngineControlRegister s
  (shr (regv &&& shl 1 chanNo) chanNo).toInt

def adcGetClockDivisor (s : RegFile) : Int :=
  let regv := readl adcClockControlRegister s
  (regv &&& adcDivisorOfAdcClock).toInt

def adcSetClock (divisor : Int) (s : RegFile) : RegFile :=
  let regv := readl adcClockControlRegister s
  let regv := regv &&& ~~~adcDivisorOfAdcClock  -- clear [9:0]
  let regv := regv ||| BitVec.ofInt 32 divisor
  writel regv adcClockControlRegister s

def adcEnableChan (chanNo enable : Int) (s : RegFile) : RegFile :=
  let regv := readl adcEngineControlRegister s
  let regv := regv &&& ~~~(shl 1 chanNo)
  let regv := if 1 = enable then regv ||| shl 1 chanNo else regv
  writel regv adcEngineControlRegister s

/-- The offset is a `u8`, and `regv` a signed `int`. -/
def adcMeasure (chanNo : Int) (s : RegFile) : Int :=
  let offset : Byte := BitVec.ofInt 8 (4 * chanNo.tdiv 2)
  if 0 = adcGetChanStatus chanNo s then -1
  else
    let regv := readl (adcDataRegister + offset.setWidth 32) s
    if 0 ≠ chanNo.tmod 2 then (regv.sshiftRight 16 &&& 0x3ff).toInt
    else (regv &&& 0x3ff).toInt

/-- The request as the caller finds it afterwards is returned with the result. -/
def adcIoctl (cmd : Word) (ioAccess : IoAccessData) (s : RegFile) :
    Int × IoAccessData × RegFile :=
  if cmd = ioctlSetAdcClock then
    (0, ioAccess, adcSetClock ioAccess.data.toInt s)
  else if cmd = ioctlAdcMeasure then
    let rawdata := adcMeasure ioAccess.address.toInt s
    if rawdata < 0 then (-1, ioAccess, s)
    else (0, { ioAccess with data := BitVec.ofInt 32 rawdata }, s)
  else if cmd = ioctlEnableAdc then
    (0, ioAccess, adcEnableChan ioAccess.address.toInt ioAccess.data.toInt s)
  else (-1, ioAccess, s)

def adcInit (s : RegFile) : RegFile := adcSetClock 0x40 s

end BmcCodes.Adc.Tdd
