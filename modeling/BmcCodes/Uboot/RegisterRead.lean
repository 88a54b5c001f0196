import BmcCodes.Uboot.ReadBack

/-!
# What a register read tells its caller

`i2c_reg_read` passes the byte it read and the failure of the read through one
return value.  It returns `-1` for a failure, which as an `unsigned char` is the
byte `0xFF`; so a register that holds `0xFF` reads like a chip that did not
answer, and `do_masterrw` prints the same line for both.
-/

namespace BmcCodes.Uboot.AstI2c

section RegRead

variable (ctl : Controller) (addr reg : Byte) (s : Board)

/-- The read of one byte that `i2c_reg_read` makes succeeds. -/
def RegReadOk : Prop :=
  (i2cRead ctl addr (reg.setWidth 32) 1 [0] 1 masterm s).1 = 0

/-- A failure is returned as the byte `0xFF`. -/
theorem i2cRegRead_of_failed (h : ¬ RegReadOk ctl addr reg s) :
    (i2cRegRead ctl addr reg masterm s).1 = 0xFF := by
  unfold RegReadOk at h
  simp only [i2cRegRead]
  rw [if_pos h]

/-- After a success the byte returned is the one that the receive of the call,
its fourth poll, found. -/
theorem i2cRegRead_of_ok (h : RegReadOk ctl addr reg s) :
    (i2cRegRead ctl addr reg masterm s).1 = ctl.arrived (s.polls + 3) := by
  obtain ⟨_, hacked, harrives⟩ := i2cRead_of_ret _ _ _ _ _ _ _ h
  have hbuffer := (i2cRead_buffer ctl s addr (reg.setWidth 32) 1 [0] 1 masterm).1 hacked
  have hbusNum : ((initIfPending masterm s).session ctl masterm).busNum = s.i2cBusNum :=
    initIfPending_i2cBusNum masterm s
  have hstored := storeReceived_getElem? ((initIfPending masterm s).session ctl masterm) 1 1
    0 (s.polls + 3) 0 [0] (Nat.le_refl 1)
  rw [hbusNum, if_pos ⟨by omega, harrives 0 Nat.one_pos⟩] at hstored
  unfold RegReadOk at h
  simp only [i2cRegRead]
  rw [if_neg (not_not.mpr h), hbuffer, List.getD_eq_getElem?_getD]
  exact congrArg (Option.getD · 0) hstored

end RegRead

/-- **When a failed read shows**: a failed and a successful read of the same
register return different values if and only if the byte that arrived in the
successful one is not `0xFF`. -/
theorem i2cRegRead_ne_iff_arrived_ne (addr reg : Byte) (ctl ctl' : Controller)
    (s s' : Board) (hfailed : ¬ RegReadOk ctl addr reg s)
    (hok : RegReadOk ctl' addr reg s') :
    (i2cRegRead ctl addr reg masterm s).1 ≠ (i2cRegRead ctl' addr reg masterm s').1 ↔
      ctl'.arrived (s'.polls + 3) ≠ 0xFF := by
  rw [i2cRegRead_of_failed ctl addr reg s hfailed, i2cRegRead_of_ok ctl' addr reg s' hok]
  exact ne_comm

/-- What `do_masterrw` prints is what `i2c_reg_read` returns. -/
theorem doMasterrw_reports (ctl : Controller) (bus : Word) (s : Board) :
    (doMasterrw ctl 2 bus s).2.1 =
      some (i2cRegRead ctl 0x10 0x30 masterm { s with i2cBusNum := bus.toInt }).1 := rfl

/-! ## Two runs on bus 3 -/

/-- The chip does not acknowledge its address. -/
theorem not_regReadOk_nak (addr reg : Byte) :
    ¬ RegReadOk (Controller.answering 0x02) addr reg bus3 := by
  have hclosed : ¬ (readTransfer addr (reg.setWidth 32) 1 1).opened
      ((initIfPending masterm bus3).session (Controller.answering 0x02) masterm)
      (initIfPending masterm bus3).polls = true := by
    rw [readTransfer_opened_iff]
    intro h
    obtain ⟨⟨hstart, _⟩, _⟩ := h
    simp only [Board.session, initIfPending_i2cBusNum, bus3, status_answering] at hstart
    exact hstart (by decide)
  simp only [RegReadOk, i2cRead_eq, Transfer.ret_of_not_opened hclosed]
  decide

/-- Every step succeeds, whatever the byte that arrives. -/
theorem regReadOk_answering (addr reg : Byte) (trbb : Nat → Word) :
    RegReadOk { Controller.answering 0x07 with trbb := trbb } addr reg bus3 := by
  simp only [RegReadOk, i2cRead_eq]
  exact ret_answering (readTransfer addr (reg.setWidth 32) 1 1) (initIfPending masterm bus3)
    masterm (initIfPending_i2cBusNum masterm bus3)

/-- The byte `0x5A` is told from a failure. -/
theorem i2cRegRead_ne_0x5A :
    (i2cRegRead (Controller.answering 0x02) 0x10 0x30 masterm bus3).1 ≠
      (i2cRegRead (Controller.answering 0x07) 0x10 0x30 masterm bus3).1 :=
  (i2cRegRead_ne_iff_arrived_ne 0x10 0x30 (Controller.answering 0x02)
    (Controller.answering 0x07) bus3 bus3 (not_regReadOk_nak _ _)
    (regReadOk_answering _ _ _)).mpr (by decide)

/-- The byte `0xFF` is not. -/
theorem i2cRegRead_eq_0xFF :
    ¬ (¬ RegReadOk (Controller.answering 0x02) 0x10 0x30 bus3 →
      RegReadOk { Controller.answering 0x07 with trbb := fun _ => 0xFF00 } 0x10 0x30 bus3 →
      (i2cRegRead (Controller.answering 0x02) 0x10 0x30 masterm bus3).1 ≠
        (i2cRegRead { Controller.answering 0x07 with trbb := fun _ => 0xFF00 } 0x10 0x30
          masterm bus3).1) := by
  intro h
  have hfailed := not_regReadOk_nak 0x10 0x30
  have hok := regReadOk_answering 0x10 0x30 fun _ => 0xFF00
  refine h hfailed hok ?_
  rw [i2cRegRead_of_failed _ _ _ _ hfailed, i2cRegRead_of_ok _ _ _ _ hok]
  decide

end BmcCodes.Uboot.AstI2c
