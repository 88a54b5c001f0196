import BmcCodes.Uboot.BusRelease

/-!
# What success of a write means

Bit 0 of the status word says that a byte was acknowledged.  `i2c_start` tests
this bit, but `i2c_send_byte`, under the same comment, also takes bit 1 for an
acknowledgement.  So a byte that reports bit 1 alone counts as sent, and
`i2c_write` can return `0` for bytes that the chip refused.
-/

namespace BmcCodes.Uboot.AstI2c

open BmcCodes.Lib.Script

/-- The start of poll `p` and each of the `n` bytes after it reports bit 0. -/
def Controller.AllAcked (ctl : Controller) (busNum : Int) (p n : Nat) : Prop :=
  ∀ k ≤ n, ctl.status busNum (p + k) &&& 0x01 ≠ 0

/-- The start reports bit 0 and every byte bit 0 or bit 1, but some byte reports
bit 1 alone. -/
def Controller.HidesNak (ctl : Controller) (busNum : Int) (p n : Nat) : Prop :=
  ctl.AcksHeader busNum p n ∧ ∃ k < n, ctl.status busNum (p + 1 + k) &&& 0x03 = 0x02

/-- The data bytes are accepted under the mask of the address bytes. -/
theorem writeTransfer_bodyOk_iff (S : Session) (p : Nat) (chip : Byte)
    (addr : Word) (alen : Int) (buffer : List Byte) (len : Int) :
    (writeTransfer chip addr alen buffer len).bodyOk S p = true ↔
      ∀ k < len.toNat,
        S.ctl.status S.busNum (p + 1 + (alen.toNat + k)) &&& 0x03 ≠ 0 := by
  have hlength : (writeTransfer chip addr alen buffer len).header.length =
      1 + alen.toNat := by
    simp [writeTransfer, length_addrSteps, Nat.add_comm]
  rw [Transfer.bodyOk, hlength]
  simp only [writeTransfer, allOk_iff, ok_iff, dataSteps, List.getElem_map,
    Step.ackMask, List.length_map, List.length_range', Nat.add_assoc]

/-- A header of `m` bytes and the `n` bytes after it are accepted one by one. -/
theorem acksHeader_add_iff (ctl : Controller) (busNum : Int) (p m n : Nat) :
    ctl.AcksHeader busNum p (m + n) ↔
      ctl.AcksHeader busNum p m ∧
        ∀ k < n, ctl.status busNum (p + 1 + (m + k)) &&& 0x03 ≠ 0 := by
  unfold Controller.AcksHeader
  rw [and_assoc]
  refine and_congr_right fun _ => ?_
  constructor
  · intro h
    exact ⟨fun k hk => h k (by omega), fun k hk => h (m + k) (by omega)⟩
  · intro h k hk
    obtain ⟨hfirst, hrest⟩ := h
    rcases Nat.lt_or_ge k m with hkm | hkm
    · exact hfirst k hkm
    · have hbyte := hrest (k - m) (by omega)
      rwa [show m + (k - m) = k by omega] at hbyte

/-- `i2c_write` returns `0` exactly when the start reports bit 0 and each byte
bit 0 or bit 1. -/
theorem i2cWrite_ret_eq_zero_iff (ctl : Controller) (s : Board) (chip : Byte)
    (addr : Word) (alen : Int) (buffer : List Byte) (len mode : Int) :
    (i2cWrite ctl chip addr alen buffer len mode s).1 = 0 ↔
      ctl.AcksHeader s.i2cBusNum s.polls (alen.toNat + len.toNat) := by
  rw [i2cWrite_eq]
  simp only [Transfer.ret, retOf_eq_zero, Bool.and_eq_true]
  rw [writeTransfer_opened_iff, writeTransfer_bodyOk_iff, acksHeader_add_iff]
  simp only [Board.session, initIfPending_polls, initIfPending_i2cBusNum]

private theorem and_three_eq_two_iff (x : Word) :
    x &&& 0x03 = 0x02 ↔ x &&& 0x03 ≠ 0 ∧ x &&& 0x01 = 0 := by
  have hlow : x &&& 0x01 = (x &&& 0x03) &&& 0x01 := by
    rw [BitVec.and_assoc]
    rfl
  have hrange : (x &&& 0x03).toNat ≤ 3 := by
    rw [BitVec.toNat_and]
    exact Nat.and_le_right
  have hcases : ∀ n ≤ 3, BitVec.ofNat 32 n = 0x02 ↔
      BitVec.ofNat 32 n ≠ 0 ∧ BitVec.ofNat 32 n &&& 0x01 = 0 := by decide
  have h := hcases _ hrange
  rw [BitVec.ofNat_toNat, BitVec.setWidth_eq] at h
  rw [hlow]
  exact h

/-- A call whose start and bytes are all acknowledged returns `0`. -/
theorem acksHeader_of_allAcked {ctl : Controller} {busNum : Int} {p n : Nat}
    (h : ctl.AllAcked busNum p n) : ctl.AcksHeader busNum p n := by
  refine ⟨h 0 (Nat.zero_le n), fun k hk hzero => ?_⟩
  have hbit : ctl.status busNum (p + (1 + k)) &&& 0x01 =
      (ctl.status busNum (p + 1 + k) &&& 0x03) &&& 0x01 := by
    rw [BitVec.and_assoc, Nat.add_assoc]
    rfl
  refine h (1 + k) (by omega) ?_
  rw [hbit, hzero]
  rfl

/-- What is accepted is acknowledged, unless a refusal is hidden. -/
theorem allAcked_of_acksHeader {ctl : Controller} {busNum : Int} {p n : Nat}
    (haccepted : ctl.AcksHeader busNum p n) (hnone : ¬ ctl.HidesNak busNum p n) :
    ctl.AllAcked busNum p n := by
  intro k hk hzero
  cases k with
  | zero => exact haccepted.1 hzero
  | succ k =>
      rw [show p + (k + 1) = p + 1 + k by omega] at hzero
      refine hnone ⟨haccepted, k, by omega, ?_⟩
      exact (and_three_eq_two_iff _).mpr ⟨haccepted.2 k (by omega), hzero⟩

/-- **When success of `i2c_write` means that everything was acknowledged**: unless
the start and all bytes are accepted and one of them reports bit 1 alone. -/
theorem i2cWrite_success_iff_not_hidesNak (ctl : Controller) (s : Board)
    (chip : Byte) (addr : Word) (alen : Int) (buffer : List Byte) (len mode : Int) :
    ((i2cWrite ctl chip addr alen buffer len mode s).1 = 0 ↔
        ctl.AllAcked s.i2cBusNum s.polls (alen.toNat + len.toNat)) ↔
      ¬ ctl.HidesNak s.i2cBusNum s.polls (alen.toNat + len.toNat) := by
  rw [i2cWrite_ret_eq_zero_iff]
  constructor
  · intro h hhides
    obtain ⟨haccepted, k, hk, hnak⟩ := hhides
    have hacked := h.mp haccepted (1 + k) (by omega)
    rw [← Nat.add_assoc] at hacked
    exact hacked ((and_three_eq_two_iff _).mp hnak).2
  · intro hnone
    exact ⟨fun haccepted => allAcked_of_acksHeader haccepted hnone, acksHeader_of_allAcked⟩

/-- A controller on which poll `p` ends at its first reading with the status word
`status p`. -/
def Controller.replying (status : Nat → Word) : Controller where
  disr := fun _ _ => 0xFFFFFFFF
  isr := fun p _ => status p
  trbb := fun _ => 0

theorem status_replying (status : Nat → Word) (p : Nat) :
    (Controller.replying status).status 3 p = status p :=
  status_of_raised_first _ _ _ (by simp [Controller.raised, Controller.replying, shl])

/-- The chip acknowledges its address and refuses the data byte. -/
theorem i2cWrite_succeeds_despite_nak :
    ¬ ((i2cWrite (Controller.replying fun p => if p = 0 then 0x01 else 0x02)
          0x50 0 0 [0xAB] 1 masterm bus3).1 = 0 ↔
        (Controller.replying fun p => if p = 0 then 0x01 else 0x02).AllAcked
          bus3.i2cBusNum bus3.polls ((0 : Int).toNat + (1 : Int).toNat)) := by
  rw [i2cWrite_ret_eq_zero_iff]
  have hbus : bus3.i2cBusNum = 3 := rfl
  intro h
  have haccepted : (Controller.replying fun p => if p = 0 then 0x01 else 0x02).AcksHeader
      bus3.i2cBusNum bus3.polls ((0 : Int).toNat + (1 : Int).toNat) := by
    simp only [Controller.AcksHeader, hbus, status_replying]
    decide
  have hbyte := h.mp haccepted 1 (by decide)
  rw [hbus, status_replying] at hbyte
  exact hbyte (by decide)

end BmcCodes.Uboot.AstI2c
