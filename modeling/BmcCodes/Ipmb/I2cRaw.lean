import BmcCodes.Lib.CInt
import Mathlib.Data.List.Basic

/-!
# The IPMB-like test program

`i2craw.c`: the raw transfer function, the slave task and the request of `main`,
translated function by function.  The kernel's answers are parameters: the
result of each `I2C_RDWR` ioctl, and what a slave read returns and stores.

A plain `char` is signed, so `sg_reg` is a `Byte` read as a signed number.
-/

namespace BmcCodes.Ipmb.I2cRaw

/-! ## Raw transfers -/

/-- The memory a message refers to: a buffer of the caller, or the private one
of `HW_I2CRawWriteReadBytes`.  The block that declares the latter has ended when
`ioctl` is called, so what is stored there is lost; the messages themselves, and
the result of the call, do not depend on it. -/
inductive Pointer where
  | psOutBuffer
  | psInBuffer
  | buf
  deriving DecidableEq, Repr

/-- `struct i2c_msg`. -/
structure I2cMsg where
  addr : BitVec 16
  flags : BitVec 16
  len : BitVec 16
  buf : Pointer
  deriving DecidableEq, Repr

def i2cMRd : BitVec 16 := 0x0001

/-- The messages `HW_I2CRawWriteReadBytes` submits, if it submits any.  A buffer
is `none` where the caller passes `NULL`. -/
def ioctlMsgs (u32SlaveAddr : Word) (u8NumberOfWriteBytes : Byte)
    (psOutBuffer : Option (List Byte)) (u8NumberOfReadBytes : Byte)
    (psInBuffer : Option (List Byte)) : Option (List I2cMsg) :=
  let addr := u32SlaveAddr.setWidth 16
  let writeMsg : I2cMsg :=
    ⟨addr, 0, u8NumberOfWriteBytes.setWidth 16, .psOutBuffer⟩
  let readMsg : I2cMsg :=
    ⟨addr, i2cMRd, u8NumberOfReadBytes.setWidth 16, .psInBuffer⟩
  if psOutBuffer = none ∧ psInBuffer = none then none
  else if (psOutBuffer ≠ none ∧ u8NumberOfWriteBytes ≠ 0) ∧
      (psInBuffer ≠ none ∧ u8NumberOfReadBytes ≠ 0) then some [writeMsg, readMsg]
  else if psOutBuffer ≠ none ∧ u8NumberOfWriteBytes ≠ 0 then some [writeMsg]
  else if psInBuffer ≠ none ∧ u8NumberOfReadBytes ≠ 0 then some [readMsg]
  -- an empty request becomes a read of one byte that is thrown away
  else some [⟨addr, i2cMRd, 1, .buf⟩]

/-- `ioctl` is the result of the `I2C_RDWR` call for the messages submitted.  It
is compared with the unsigned `nmsgs`. -/
def hwI2cRawWriteReadBytes (ioctl : List I2cMsg → Int) (u32SlaveAddr : Word)
    (u8NumberOfWriteBytes : Byte) (psOutBuffer : Option (List Byte))
    (u8NumberOfReadBytes : Byte) (psInBuffer : Option (List Byte)) : Int :=
  match ioctlMsgs u32SlaveAddr u8NumberOfWriteBytes psOutBuffer
      u8NumberOfReadBytes psInBuffer with
  | none => -1
  | some msgs =>
      let ret := ioctl msgs
      if BitVec.ofInt 32 ret = BitVec.ofNat 32 msgs.length then 0 else -1

/-- `ret` is the result of the `I2C_SLAVE_RDWR` call. -/
def hwI2cRawSlaveRead (ret : Int) : Int := if ret < 0 then -1 else ret

/-! ## The slave task -/

def maxSlaveReadLen : Nat := 256
def slaveAddr : Word := 0x10

/-- `(SLAVE_ADDR << 1) | 1`, the address byte of a read. -/
def readAddr : Byte := (slaveAddr <<< 1 ||| 1).setWidth 8

/-- `reg`, the bytes of a reply. -/
def replyBytes : List Byte := [readAddr, 0x55, 0xaa]

/-- What the task does at position `i` of the frame: it prints the byte, and it
may write a reply to the bus, with some status. -/
inductive Event where
  | print (i : Nat) (byte : Byte)
  | reply (i : Nat) (reg : List Byte) (status : Int)
  deriving DecidableEq, Repr

/-- The `for` loop over the frame, with at most `n` iterations left.  The result
of the reply goes to `ret`, which is also the bound of the loop.  The next reply
of the frame is number `k`; `ioctl` decides them. -/
def scanLoop (sgReg : Byte) (u8ReadBuffer : List Byte)
    (ioctl : Nat → List I2cMsg → Int) :
    (n i : Nat) → (ret : Int) → (sgRead : Bool) → (k : Nat) → List Event
  | 0, _, _, _, _ => []
  | n + 1, i, ret, sgRead, k =>
      if (i : Int) < ret then
        let byte := u8ReadBuffer.getD i 0
        let sgRead := if (byte.toNat : Int) = sgReg.toInt then true else sgRead
        if byte = readAddr ∧ sgRead = true then
          let ret := hwI2cRawWriteReadBytes (ioctl k) slaveAddr 3 (some replyBytes)
            0 none
          .print i byte :: .reply i replyBytes ret ::
            scanLoop sgReg u8ReadBuffer ioctl n (i + 1) ret sgRead (k + 1)
        else
          .print i byte ::
            scanLoop sgReg u8ReadBuffer ioctl n (i + 1) ret sgRead k
      else []

/-- One iteration of the `while` loop of `i_slave_read_task`.  The slave read
returns `readRet` and stores `frame` in the cleared buffer.  The loop over the
frame makes at most as many iterations as its first bound says. -/
def slaveReadTask (sgReg : Byte) (ioctl : Nat → List I2cMsg → Int) (readRet : Int)
    (frame : List Byte) : List Event :=
  let u8ReadBuffer :=
    (frame ++ List.replicate maxSlaveReadLen 0).take maxSlaveReadLen
  let ret := hwI2cRawSlaveRead readRet
  if ret > 0 then scanLoop sgReg u8ReadBuffer ioctl ret.toNat 0 ret false 0
  else []

/-! ## The request -/

/-- What `main` keeps of the register argument, `atoi(argv[3])`. -/
def sgRegOf (atoi : Int) : Byte := BitVec.ofInt 8 atoi

/-- `cmd`, which `main` writes to the bus under option `r`. -/
def requestBytes (sgReg : Byte) : List Byte := [sgReg, readAddr]

end BmcCodes.Ipmb.I2cRaw
