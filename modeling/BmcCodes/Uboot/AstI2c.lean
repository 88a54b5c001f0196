import BmcCodes.Lib.CInt
import Mathlib.Data.List.Basic

/-!
# The AST2500 I2C driver of the boot loader

`ast_i2c.c`, with the register offsets of `i2c-hw.h` and the register helper of
`i2c.h`, translated function by function.  The state is the module's globals,
the SCU registers it shares with other code, and the log of every volatile
access; the hardware's answers are a `Controller`.

* `speed` and `mode` are parameters of `realI2cInit` that its body ignores.
* The console output of the driver is left out, but for the register value
  that `doMasterrw` reports.

A C `for` loop is a recursive function on the number of iterations left; its
loop variable is kept beside it, since the bodies compute with it.
-/

namespace BmcCodes.Uboot.AstI2c

/-! ## Registers -/

/-- `AST_I2C_REG_BASE`, the address of the controller's register block. -/
def astI2cRegBase : Int := 0x1E78A000

/-- The registers of one bus, at fixed offsets from `i2c_bus_base_addr`. -/
inductive BusReg where
  | fcr | catcr1 | catcr2 | icr | isr | csr | dr | trbb
  deriving DecidableEq, Repr

/-- The offsets of `i2c-hw.h`. -/
def BusReg.offset : BusReg → Int
  | .fcr => 0x00
  | .catcr1 => 0x04
  | .catcr2 => 0x08
  | .icr => 0x0C
  | .isr => 0x10
  | .csr => 0x14
  | .dr => 0x18
  | .trbb => 0x20

/-- A register the driver touches: the SCU at some offset from `AST_SCU_BASE`,
the device interrupt status `I2C_DISR` that all buses share, or a register of
the bus whose window starts at `base`. -/
inductive Reg where
  | scu (offset : Word)
  | disr
  | bus (base : Int) (r : BusReg)
  deriving DecidableEq, Repr

/-- One volatile access, with the value read or written. -/
inductive Access where
  | read (r : Reg) (v : Word)
  | write (r : Reg) (v : Word)
  deriving DecidableEq, Repr

/-- The answers of the hardware.  Calls of `i2c_interrupt_status` are numbered
by `p`, and the readings of `I2C_DISR` inside one call by `i`. -/
structure Controller where
  /-- `I2C_DISR` at reading `i` of poll `p`. -/
  disr : Nat → Nat → Word
  /-- `I2C_ISR` directly after that reading. -/
  isr : Nat → Nat → Word
  /-- `I2C_TRBB` once `p` polls have been made. -/
  trbb : Nat → Word

/-- The globals of the module, the SCU, and what has happened so far. -/
structure Board where
  i2cInitPending : Bool
  i2cBusBaseAddr : Int
  i2cBusNum : Int
  /-- The SCU registers by offset; reading one yields what was last written. -/
  scu : Word → Word
  /-- The number of polls made so far. -/
  polls : Nat
  /-- Every volatile access so far, the oldest first. -/
  accesses : List Access

/-- The state the module starts in, whatever the SCU holds. -/
def Board.initial (scu : Word → Word) : Board where
  i2cInitPending := true
  i2cBusBaseAddr := 0
  i2cBusNum := -1
  scu := scu
  polls := 0
  accesses := []

def i2cBusSlaveaddr : Int := 0x10
def i2cBusSpeed : Int := 100000

namespace Board

/-- `s` after one more access. -/
def log (s : Board) (a : Access) : Board :=
  { s with accesses := s.accesses ++ [a] }

/-- Write to a register of the current bus window. -/
def writeBus (s : Board) (r : BusReg) (v : Word) : Board :=
  s.log (.write (.bus s.i2cBusBaseAddr r) v)

def writeScu (s : Board) (offset v : Word) : Board :=
  { s.log (.write (.scu offset) v) with
    scu := fun o => if o = offset then v else s.scu o }

/-- The state after reading the SCU register at `offset`, whose content the
reader takes from `s.scu`. -/
def readScu (s : Board) (offset : Word) : Board :=
  s.log (.read (.scu offset) (s.scu offset))

end Board

/-! ## Initialisation -/

/-- The base address `real_i2c_init` computes for the bus number `n`. -/
def busBase (n : Int) : Int :=
  if n ≥ 7 then astI2cRegBase + 0x100 + 0x040 * (n + 1)
  else astI2cRegBase + 0x040 * (n + 1)

/-- The multi-function pins of a bus, which only buses from 2 on share. -/
def enablePins (s : Board) : Board :=
  if s.i2cBusNum ≥ 2 then
    let scuReg := s.scu 0x90
    let s := s.readScu 0x90
    let scuReg := if 9 ≤ s.i2cBusNum ∧ s.i2cBusNum ≤ 12 then scuReg &&& ~~~0x01
      else scuReg
    s.writeScu 0x90 (scuReg ||| shl 0x4000 s.i2cBusNum)
  else s

def realI2cInit (_speed slaveadd _mode : Int) (s : Board) : Board :=
  let s := { s with i2cBusBaseAddr := busBase s.i2cBusNum }
  let s := s.writeScu 0x00 0x1688A8A8
  let s := enablePins s
  -- stop I2C controller reset
  let scuReg := s.scu 0x04
  let s := s.readScu 0x04
  let s := s.writeScu 0x04 (scuReg &&& ~~~0x04)
  let s := s.writeBus .catcr1 0x77777344
  let s := s.writeBus .catcr2 0x00000000
  let s := s.writeBus .dr (BitVec.ofInt 32 slaveadd)
  let s := s.writeBus .isr 0xFFFFFFFF
  let s := s.writeBus .fcr (1 <<< 0 ||| 1 <<< 1 ||| 1 <<< 2)
  let s := s.writeBus .icr 0x0000002F
  { s with i2cInitPending := false }

/-! ## One command of the controller -/

/-- The polling loop, with `n` readings left of which the next is number `i`. -/
def pollLoop (ctl : Controller) : (n i : Nat) → Board → Word × Board
  | 0, _, s => (0, s)
  | n + 1, i, s =>
      let isr := ctl.disr s.polls i
      let s := s.log (.read .disr isr)
      let deviceBit := shl 0x01 s.i2cBusNum
      if isr &&& deviceBit ≠ 0 then
        let status := ctl.isr s.polls i
        (status, s.log (.read (.bus s.i2cBusBaseAddr .isr) status))
      else pollLoop ctl n (i + 1) s

/-- The number of readings of `I2C_DISR` before the driver gives up. -/
def pollLimit : Nat := 100000

def i2cInterruptStatus (ctl : Controller) (s : Board) : Word × Board :=
  let (status, s) := pollLoop ctl pollLimit 0 s
  let s := s.writeBus .isr 0xFFFFFFFF
  (status, { s with polls := s.polls + 1 })

/-- `enum { slavem, masterm }`. -/
def slavem : Int := 0
def masterm : Int := 1

/-- `I2C_WRITE` and `I2C_READ`. -/
def i2cWriteFlag : Byte := 0
def i2cReadFlag : Byte := 1

def i2cSendByte (ctl : Controller) (byte : Byte) (mode : Int) (s : Board) :
    Int × Board :=
  let s := s.writeBus .trbb (byte.setWidth 32 &&& 0x000000FF)
  let s := if slavem = mode then s.writeBus .csr (1 <<< 2)
    else s.writeBus .csr (1 <<< 1)
  let (status, s) := i2cInterruptStatus ctl s
  if status &&& 0x03 = 0 then (1, s) else (0, s)

/-- The second component is what the call stores through its pointer `byte`,
if it stores at all. -/
def i2cReceiveByte (ctl : Controller) (last mode : Int) (s : Board) :
    Int × Option Byte × Board :=
  let s := if masterm = mode then
      s.writeBus .csr (0x08 ||| shl (BitVec.ofInt 32 last) 4)
    else s.writeBus .csr (shl (BitVec.ofInt 32 last) 4)
  let (status, s) := i2cInterruptStatus ctl s
  if status &&& 0x04 = 0 then (1, none, s)
  else
    let trbb := ctl.trbb s.polls
    let s := s.log (.read (.bus s.i2cBusBaseAddr .trbb) trbb)
    (0, some (((trbb &&& 0x0000FF00) >>> 8).setWidth 8), s)

def i2cStart (ctl : Controller) (chip readWrite : Byte) (s : Board) :
    Int × Board :=
  let s := s.writeBus .trbb
    (chip.setWidth 32 <<< 1 ||| (readWrite.setWidth 32 &&& 0x1))
  let s := s.writeBus .csr 0x03
  let (status, s) := i2cInterruptStatus ctl s
  if status &&& 0x01 ≠ 0 then (0, s) else (1, s)

def i2cStop (s : Board) : Board := s.writeBus .csr 0x0030

/-! ## The interface of the driver -/

def i2cProbe (ctl : Controller) (chip : Byte) (mode : Int) (s : Board) :
    Int × Board :=
  let s := realI2cInit i2cBusSpeed i2cBusSlaveaddr mode s
  let (failed, s) := i2cStart ctl chip i2cWriteFlag s
  let ret := if failed ≠ 0 then 1 else 0
  (ret, i2cStop s)

/-- `real_i2c_init`, while it is pending. -/
def initIfPending (mode : Int) (s : Board) : Board :=
  if s.i2cInitPending then realI2cInit i2cBusSpeed i2cBusSlaveaddr mode s else s

/-- Byte `i` of the address as the address loops of `i2c_read` and `i2c_write`
compute it.  With more than four bytes the first counts reach 32, which is
undefined in C and yields `0` here. -/
def addrByte (addr : Word) (alen : Int) (i : Nat) : Byte :=
  (addr >>> ((alen - 1 - i) * 8).toNat &&& 0xFF).setWidth 8

/-- The address loop, which gives up at the first byte that fails. -/
def sendAddr (ctl : Controller) (addr : Word) (alen mode : Int) :
    (n i : Nat) → Board → Int × Board
  | 0, _, s => (0, s)
  | n + 1, i, s =>
      let (failed, s) := i2cSendByte ctl (addrByte addr alen i) mode s
      if failed ≠ 0 then (1, s) else sendAddr ctl addr alen mode n (i + 1) s

/-- The data loop of `i2c_write`, which remembers a failure and goes on. -/
def sendData (ctl : Controller) (buffer : List Byte) (mode : Int) :
    (n i : Nat) → (ret : Int) → Board → Int × Board
  | 0, _, ret, s => (ret, s)
  | n + 1, i, ret, s =>
      let (failed, s) := i2cSendByte ctl (buffer.getD i 0) mode s
      sendData ctl buffer mode n (i + 1) (if failed ≠ 0 then 1 else ret) s

/-- The data loop of `i2c_read`, likewise. -/
def receiveData (ctl : Controller) (len mode : Int) :
    (n i : Nat) → (ret : Int) → List Byte → Board → Int × List Byte × Board
  | 0, _, ret, buffer, s => (ret, buffer, s)
  | n + 1, i, ret, buffer, s =>
      let last := if (i : Int) < len - 1 then 0 else 1
      let (failed, stored, s) := i2cReceiveByte ctl last mode s
      let buffer := match stored with
        | some byte => buffer.set i byte
        | none => buffer
      receiveData ctl len mode n (i + 1) (if failed ≠ 0 then 1 else ret) buffer s

def i2cRead (ctl : Controller) (chip : Byte) (addr : Word) (alen : Int)
    (buffer : List Byte) (len mode : Int) (s : Board) :
    Int × List Byte × Board :=
  let s := initIfPending mode s
  let (failed, s) := i2cStart ctl chip i2cWriteFlag s
  if failed ≠ 0 then (1, buffer, s) else
  let (failed, s) := sendAddr ctl addr alen mode alen.toNat 0 s
  if failed ≠ 0 then (1, buffer, s) else
  let (failed, s) := i2cStart ctl chip i2cReadFlag s
  if failed ≠ 0 then (1, buffer, s) else
  let (ret, buffer, s) := receiveData ctl len mode len.toNat 0 0 buffer s
  (ret, buffer, i2cStop s)

def i2cWrite (ctl : Controller) (chip : Byte) (addr : Word) (alen : Int)
    (buffer : List Byte) (len mode : Int) (s : Board) : Int × Board :=
  let s := initIfPending mode s
  let (failed, s) := i2cStart ctl chip i2cWriteFlag s
  if failed ≠ 0 then (1, s) else
  let (failed, s) := sendAddr ctl addr alen mode alen.toNat 0 s
  if failed ≠ 0 then (1, s) else
  let (ret, s) := sendData ctl buffer mode len.toNat 0 0 s
  (ret, i2cStop s)

/-- `-1` is returned as an `unsigned char`.  The local buffer is not
initialised in the source, and returned only after `i2c_read` stored in it. -/
def i2cRegRead (ctl : Controller) (addr reg : Byte) (mode : Int) (s : Board) :
    Byte × Board :=
  let (ret, buf, s) := i2cRead ctl addr (reg.setWidth 32) 1 [0] 1 mode s
  if ret ≠ 0 then (0xFF, s) else (buf.getD 0 0, s)

/-- The result of `i2c_write` is dropped. -/
def i2cRegWrite (ctl : Controller) (addr reg val : Byte) (mode : Int) (s : Board) :
    Board :=
  (i2cWrite ctl addr (reg.setWidth 32) 1 [val] 1 mode s).2

/-! ## Console commands -/

/-- The loop of `do_slaverw`, which `ctrlc` ends after `n` iterations. -/
def slaveLoop (ctl : Controller) : (n : Nat) → Byte → Board → Board
  | 0, _, s => s
  | n + 1, byte, s =>
      let (_, stored, s) :=
        i2cReceiveByte ctl (if 0x21 = byte then 1 else 0) slavem s
      let byte := stored.getD byte
      if 0x21 = byte then
        let (_, s) := i2cSendByte ctl 0x00 slavem s
        let (_, s) := i2cSendByte ctl 0x55 slavem s
        slaveLoop ctl n 0 s
      else slaveLoop ctl n byte s

/-- `bus` is the value of `simple_strtoul(argv[1], NULL, 16)`. -/
def doSlaverw (ctl : Controller) (argc : Int) (bus : Word) (n : Nat)
    (s : Board) : Int × Board :=
  if argc ≠ 2 then (-1, s) else
  let s := { s with i2cBusNum := bus.toInt }
  let s := realI2cInit i2cBusSpeed i2cBusSlaveaddr slavem s
  (0, slaveLoop ctl n 0 s)

/-- `bus` as for `doSlaverw`; the second component is the register value the
command prints. -/
def doMasterrw (ctl : Controller) (argc : Int) (bus : Word) (s : Board) :
    Int × Option Byte × Board :=
  if argc ≠ 2 then (-1, none, s) else
  let s := { s with i2cBusNum := bus.toInt }
  let (reg, s) := i2cRegRead ctl 0x10 0x30 masterm s
  (0, some reg, s)

end BmcCodes.Uboot.AstI2c
