import BmcCodes.Lib.CInt
import Mathlib.Data.List.Basic

/-!
# The terminal interface

What a program sees of `termios.h`.  The constants of the header are those of the
platform; a `Header` is a choice of them with what the interface promises: the masks of
`c_cflag` share no bit, the values of `CSIZE` lie in it and differ, and the speeds
differ.
-/

namespace BmcCodes.Uart

/-- The masks of `c_cflag`: the field `CSIZE`, and five flags. -/
inductive ControlMask where
  | csize
  | cstopb
  | cread
  | parenb
  | parodd
  | clocal
  deriving DecidableEq, Repr

/-- The constants of `termios.h` that `set_opt` uses. -/
structure Header where
  control : ControlMask → Word
  cs5 : Word
  cs6 : Word
  cs7 : Word
  cs8 : Word
  inpck : Word
  istrip : Word
  icanon : Word
  b2400 : Word
  b4800 : Word
  b9600 : Word
  b115200 : Word
  b460800 : Word
  vtime : Nat
  vmin : Nat
  nccs : Nat
  control_disjoint : ∀ {m n}, m ≠ n → control m &&& control n = 0#32
  control_ne_zero : ∀ m, control m ≠ 0#32
  size_and_csize : ∀ size ∈ [cs5, cs6, cs7, cs8], size &&& control .csize = size
  sizes_nodup : [cs5, cs6, cs7, cs8].Nodup
  speeds_nodup : [b2400, b4800, b9600, b115200, b460800].Nodup

/-- The constants of Linux. -/
def Header.linux : Header where
  control
    | .csize => 0x30
    | .cstopb => 0x40
    | .cread => 0x80
    | .parenb => 0x100
    | .parodd => 0x200
    | .clocal => 0x800
  cs5 := 0x00
  cs6 := 0x10
  cs7 := 0x20
  cs8 := 0x30
  inpck := 0x10
  istrip := 0x20
  icanon := 0x2
  b2400 := 0x0b
  b4800 := 0x0c
  b9600 := 0x0d
  b115200 := 0x1002
  b460800 := 0x1004
  vtime := 5
  vmin := 6
  nccs := 32
  control_disjoint := by
    intro m n hmn
    cases m <;> cases n <;> first | exact absurd rfl hmn | decide
  control_ne_zero := by
    intro m
    cases m <;> decide
  size_and_csize := by simp
  sizes_nodup := by decide
  speeds_nodup := by decide

/-- `struct termios`. -/
structure Termios where
  iflag : Word
  oflag : Word
  cflag : Word
  lflag : Word
  cc : List Byte
  ispeed : Word
  ospeed : Word
  deriving DecidableEq, Repr

/-- `bzero` of a `struct termios`. -/
def bzero (hdr : Header) : Termios := ⟨0, 0, 0, 0, List.replicate hdr.nccs 0, 0, 0⟩

def cfsetispeed (t : Termios) (speed : Word) : Termios := { t with ispeed := speed }
def cfsetospeed (t : Termios) (speed : Word) : Termios := { t with ospeed := speed }

end BmcCodes.Uart
