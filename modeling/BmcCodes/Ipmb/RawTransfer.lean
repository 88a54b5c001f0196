import BmcCodes.Ipmb.I2cRaw
import Mathlib.Algebra.Group.Nat.Defs

/-!
# What success of a raw transfer means

`HW_I2CRawWriteReadBytes` composes the messages of a transaction from two counts and
two pointers.  A count whose pointer is `NULL` is passed over, and where nothing is
left to transfer the function pings the chip instead, as its comment says it does for
two zero counts.  The address is narrowed to the 16 bits of a message.  So success
means that the request was carried out exactly when the address fits, and no nonzero
count comes with `NULL`.
-/

namespace BmcCodes.Ipmb.I2cRaw

/-- The flags, the length and the memory of a message. -/
def I2cMsg.shape (m : I2cMsg) : BitVec 16 × Nat × Pointer := (m.flags, m.len.toNat, m.buf)

/-- The messages of a transaction that writes, if `w` holds, and then reads, if `r`
holds.  A transaction of neither kind reads one byte that is thrown away. -/
def transaction (w r : Bool) (u8NumberOfWriteBytes u8NumberOfReadBytes : Byte) :
    List (BitVec 16 × Nat × Pointer) :=
  if w = false ∧ r = false then [(i2cMRd, 1, .buf)]
  else (if w then [(0, u8NumberOfWriteBytes.toNat, .psOutBuffer)] else []) ++
    (if r then [(i2cMRd, u8NumberOfReadBytes.toNat, .psInBuffer)] else [])

/-- The messages `msgs`, of which `completed` were carried out, are the request: a
write of the first count and a read of the second, if they are not zero. -/
structure CarriedOut (u32SlaveAddr : Word) (u8NumberOfWriteBytes u8NumberOfReadBytes : Byte)
    (msgs : List I2cMsg) (completed : Int) : Prop where
  atMostTwo : msgs.length ≤ 2
  addressed : ∀ m ∈ msgs, m.len ≠ 0 ∧ m.addr.toNat = u32SlaveAddr.toNat
  transferred : msgs.map I2cMsg.shape =
    transaction (u8NumberOfWriteBytes ≠ 0) (u8NumberOfReadBytes ≠ 0)
      u8NumberOfWriteBytes u8NumberOfReadBytes
  completed : completed = msgs.length

section Transfer

variable (u32SlaveAddr : Word) (u8NumberOfWriteBytes : Byte)
  (psOutBuffer : Option (List Byte)) (u8NumberOfReadBytes : Byte)
  (psInBuffer : Option (List Byte))

/-- Whatever the `ioctl` call returns, the function fails, or it returns `0` and the
transaction it submitted was the request. -/
def SuccessMeansCarriedOut : Prop :=
  ∀ ioctl : List I2cMsg → Word,
    let ret := hwI2cRawWriteReadBytes (fun msgs => (ioctl msgs).toInt) u32SlaveAddr
      u8NumberOfWriteBytes psOutBuffer u8NumberOfReadBytes psInBuffer
    ret = -1 ∨ ret = 0 ∧ ∃ msgs,
      ioctlMsgs u32SlaveAddr u8NumberOfWriteBytes psOutBuffer u8NumberOfReadBytes
        psInBuffer = some msgs ∧
      CarriedOut u32SlaveAddr u8NumberOfWriteBytes u8NumberOfReadBytes msgs
        (ioctl msgs).toInt

/-- A message of `n` bytes has the length `n`. -/
theorem toNat_setWidth_16 (n : Byte) : (n.setWidth 16).toNat = n.toNat := by
  have hn := n.isLt
  rw [BitVec.toNat_setWidth, Nat.mod_eq_of_lt (by omega)]

theorem setWidth_16_ne_zero {n : Byte} (hn : n ≠ 0) : n.setWidth 16 ≠ 0 := by
  intro h
  have htoNat := congrArg BitVec.toNat h
  rw [toNat_setWidth_16] at htoNat
  exact hn (BitVec.eq_of_toNat_eq htoNat)

/-- Given one pointer, the function submits a transaction of the counts whose pointers
are given too. -/
theorem ioctlMsgs_spec (hptr : ¬(psOutBuffer = none ∧ psInBuffer = none)) :
    ∃ msgs, ioctlMsgs u32SlaveAddr u8NumberOfWriteBytes psOutBuffer u8NumberOfReadBytes
        psInBuffer = some msgs ∧
      (0 < msgs.length ∧ msgs.length ≤ 2) ∧
      (∀ m ∈ msgs, m.len ≠ 0 ∧ m.addr = u32SlaveAddr.setWidth 16) ∧
      msgs.map I2cMsg.shape =
        transaction (psOutBuffer ≠ none ∧ u8NumberOfWriteBytes ≠ 0)
          (psInBuffer ≠ none ∧ u8NumberOfReadBytes ≠ 0)
          u8NumberOfWriteBytes u8NumberOfReadBytes := by
  have hshape : ∀ (addr flags : BitVec 16) (n : Byte) (ptr : Pointer),
      I2cMsg.shape ⟨addr, flags, n.setWidth 16, ptr⟩ = (flags, n.toNat, ptr) := by
    intro addr flags n ptr
    rw [I2cMsg.shape, toNat_setWidth_16]
  unfold ioctlMsgs
  rw [if_neg hptr]
  by_cases hw : psOutBuffer ≠ none ∧ u8NumberOfWriteBytes ≠ 0 <;>
    by_cases hr : psInBuffer ≠ none ∧ u8NumberOfReadBytes ≠ 0
  · refine ⟨_, if_pos ⟨hw, hr⟩, by simp, List.forall_mem_cons.mpr
      ⟨⟨setWidth_16_ne_zero hw.2, rfl⟩, List.forall_mem_singleton.mpr
        ⟨setWidth_16_ne_zero hr.2, rfl⟩⟩, ?_⟩
    rw [decide_eq_true hw, decide_eq_true hr, List.map_cons, List.map_singleton, hshape,
      hshape]
    rfl
  · refine ⟨_, (if_neg fun h => hr h.2).trans (if_pos hw), by simp,
      List.forall_mem_singleton.mpr ⟨setWidth_16_ne_zero hw.2, rfl⟩, ?_⟩
    rw [decide_eq_true hw, decide_eq_false hr, List.map_singleton, hshape]
    rfl
  · refine ⟨_, (if_neg fun h => hw h.1).trans ((if_neg hw).trans (if_pos hr)), by simp,
      List.forall_mem_singleton.mpr ⟨setWidth_16_ne_zero hr.2, rfl⟩, ?_⟩
    rw [decide_eq_false hw, decide_eq_true hr, List.map_singleton, hshape]
    rfl
  · refine ⟨_, (if_neg fun h => hw h.1).trans ((if_neg hw).trans (if_neg hr)), by simp,
      List.forall_mem_singleton.mpr ⟨(by decide : (1 : BitVec 16) ≠ 0), rfl⟩, ?_⟩
    rw [decide_eq_false hw, decide_eq_false hr]
    rfl

/-- The messages show which of the two transfers took place. -/
theorem transaction_inj (w r w' r' : Bool) :
    transaction w r u8NumberOfWriteBytes u8NumberOfReadBytes =
        transaction w' r' u8NumberOfWriteBytes u8NumberOfReadBytes ↔
      w = w' ∧ r = r' := by
  cases w <;> cases r <;> cases w' <;> cases r' <;> simp [transaction]

theorem setWidth_16_toNat_eq_iff (a : Word) :
    (a.setWidth 16).toNat = a.toNat ↔ a.toNat < 2 ^ 16 := by
  rw [BitVec.toNat_setWidth]
  omega

theorem toInt_ofNat_of_le_two {n : Nat} (hn : n ≤ 2) :
    (BitVec.ofNat 32 n).toInt = n := by
  have hsmall : ∀ n ≤ 2, (BitVec.ofNat 32 n).toInt = n := by decide
  exact hsmall n hn

/-- The function returns `0` if it submits messages and all of them are completed,
and `-1` otherwise. -/
theorem hwI2cRawWriteReadBytes_eq (ioctl : List I2cMsg → Word) {msgs : List I2cMsg}
    (hmsgs : ioctlMsgs u32SlaveAddr u8NumberOfWriteBytes psOutBuffer u8NumberOfReadBytes
      psInBuffer = some msgs) (hlength : msgs.length ≤ 2) :
    hwI2cRawWriteReadBytes (fun msgs => (ioctl msgs).toInt) u32SlaveAddr
        u8NumberOfWriteBytes psOutBuffer u8NumberOfReadBytes psInBuffer =
      if (ioctl msgs).toInt = msgs.length then 0 else -1 := by
  have hiff : BitVec.ofInt 32 (ioctl msgs).toInt = BitVec.ofNat 32 msgs.length ↔
      (ioctl msgs).toInt = msgs.length := by
    rw [BitVec.ofInt_toInt, ← toInt_ofNat_of_le_two hlength, BitVec.toInt_inj]
  rw [hwI2cRawWriteReadBytes, hmsgs]
  simp only [hiff]

/-- **When success means that the request was carried out**: if and only if both
pointers are `NULL`, and the function fails, or the address fits a message and no
nonzero count comes with `NULL`. -/
theorem successMeansCarriedOut_iff :
    SuccessMeansCarriedOut u32SlaveAddr u8NumberOfWriteBytes psOutBuffer
        u8NumberOfReadBytes psInBuffer ↔
      (psOutBuffer = none ∧ psInBuffer = none) ∨
        u32SlaveAddr.toNat < 2 ^ 16 ∧
          (u8NumberOfWriteBytes ≠ 0 → psOutBuffer ≠ none) ∧
          (u8NumberOfReadBytes ≠ 0 → psInBuffer ≠ none) := by
  by_cases hptr : psOutBuffer = none ∧ psInBuffer = none
  · refine iff_of_true (fun ioctl => .inl ?_) (.inl hptr)
    have hnone : ioctlMsgs u32SlaveAddr u8NumberOfWriteBytes psOutBuffer
        u8NumberOfReadBytes psInBuffer = none := if_pos hptr
    rw [hwI2cRawWriteReadBytes, hnone]
  rw [or_iff_right hptr]
  obtain ⟨msgs, hmsgs, hlength, heach, hshape⟩ := ioctlMsgs_spec u32SlaveAddr
    u8NumberOfWriteBytes psOutBuffer u8NumberOfReadBytes psInBuffer hptr
  have hret := fun ioctl => hwI2cRawWriteReadBytes_eq u32SlaveAddr u8NumberOfWriteBytes
    psOutBuffer u8NumberOfReadBytes psInBuffer ioctl hmsgs hlength.2
  have hcounts : msgs.map I2cMsg.shape =
      transaction (u8NumberOfWriteBytes ≠ 0) (u8NumberOfReadBytes ≠ 0)
        u8NumberOfWriteBytes u8NumberOfReadBytes ↔
      (u8NumberOfWriteBytes ≠ 0 → psOutBuffer ≠ none) ∧
        (u8NumberOfReadBytes ≠ 0 → psInBuffer ≠ none) := by
    rw [hshape, transaction_inj, decide_eq_decide, decide_eq_decide, and_iff_right_iff_imp,
      and_iff_right_iff_imp]
  constructor
  · intro h
    -- an adapter that completes every transaction
    have hall := toInt_ofNat_of_le_two hlength.2
    rcases h fun msgs => BitVec.ofNat 32 msgs.length with hfailed | ⟨_, msgs', hmsgs', hcarried⟩
    · rw [hret, if_pos hall] at hfailed
      exact absurd hfailed (by decide)
    · rw [hmsgs, Option.some_inj] at hmsgs'
      subst hmsgs'
      refine ⟨?_, hcounts.mp hcarried.transferred⟩
      obtain ⟨m, hm⟩ := List.exists_mem_of_length_pos hlength.1
      have haddr := (hcarried.addressed m hm).2
      rw [(heach m hm).2] at haddr
      exact (setWidth_16_toNat_eq_iff u32SlaveAddr).mp haddr
  · intro h ioctl
    obtain ⟨haddr, hbuffers⟩ := h
    dsimp only
    rw [hret]
    by_cases hcompleted : (ioctl msgs).toInt = msgs.length
    · refine .inr ⟨if_pos hcompleted, msgs, hmsgs, hlength.2, fun m hm => ?_,
        hcounts.mpr hbuffers, hcompleted⟩
      rw [(heach m hm).2]
      exact ⟨(heach m hm).1, (setWidth_16_toNat_eq_iff u32SlaveAddr).mpr haddr⟩
    · exact .inl (if_neg hcompleted)

end Transfer

/-- Four bytes to write without a pointer, and none to read: the chip is pinged, and
the call succeeds. -/
theorem null_write_pings_successfully :
    ¬ SuccessMeansCarriedOut 0x10 4 none 0 (some [0]) := by
  intro h
  rcases h fun _ => 1 with hfailed | ⟨_, msgs, hmsgs, hcarried⟩
  · exact absurd hfailed (by decide)
  · have hping : ioctlMsgs 0x10 4 none 0 (some [0]) = some [⟨0x10, i2cMRd, 1, .buf⟩] := rfl
    rw [hping, Option.some_inj] at hmsgs
    have htransferred := hcarried.transferred
    rw [← hmsgs] at htransferred
    exact absurd htransferred (by decide)

end BmcCodes.Ipmb.I2cRaw
