import BmcCodes.Ipmb.Scan

/-!
# What a task answers

The frames of the programs are requests, of two bytes, and replies, of three.  The task
answers a frame once at most, and by a reply.

A request for another register is passed over, and so is a reply, which begins with the
read address `0x21`, as long as that is not the register byte too.  With register `0x21`
any frame of either kind is answered.
-/

namespace BmcCodes.Ipmb.I2cRaw

/-- The replies among the events that the bus accepted. -/
def written (events : List Event) : List (List Byte) :=
  events.filterMap fun
    | .print _ _ => none
    | .reply _ reg status => if status = 0 then some reg else none

/-! ## Replies -/

/-- A scan makes one reply at most, and whatever it writes to the bus is one. -/
theorem scanLoop_replies (sgReg : Byte) (u8ReadBuffer : List Byte)
    (ioctl : Nat → List I2cMsg → Int) (n i : Nat) (ret : Int) (sgRead : Bool)
    (k : Nat) :
    (replies (scanLoop sgReg u8ReadBuffer ioctl n i ret sgRead k)).length ≤ 1 ∧
      ∀ reg ∈ written (scanLoop sgReg u8ReadBuffer ioctl n i ret sgRead k),
        reg = replyBytes := by
  induction n generalizing i sgRead with
  | zero => exact ⟨Nat.zero_le 1, by simp [scanLoop, written]⟩
  | succ n ih =>
      rcases scanLoop_cases sgReg u8ReadBuffer ioctl n i ret sgRead k with
        h | ⟨byte, status, h⟩ | ⟨byte, sgRead', h⟩
      · rw [h]
        exact ⟨Nat.zero_le 1, by simp [written]⟩
      · rw [h]
        refine ⟨Nat.le_refl 1, fun reg hreg => ?_⟩
        by_cases hstatus : status = 0 <;> simp_all [written]
      · rw [h]
        exact ih (i + 1) sgRead'

theorem slaveReadTask_replies (sgReg : Byte) (ioctl : Nat → List I2cMsg → Int)
    (ret : Int) (frame : List Byte) :
    (replies (slaveReadTask sgReg ioctl ret frame)).length ≤ 1 ∧
      ∀ reg ∈ written (slaveReadTask sgReg ioctl ret frame), reg = replyBytes := by
  rw [slaveReadTask]
  split
  · exact scanLoop_replies ..
  · exact ⟨Nat.zero_le 1, by simp [written]⟩

/-- A reply is not answered, unless the register byte is the read address. -/
theorem replies_replyBytes {sgReg : Byte} (hne : sgReg ≠ 0x21)
    (ioctl : Nat → List I2cMsg → Int) :
    replies (slaveReadTask sgReg ioctl replyBytes.length replyBytes) = [] := by
  have hread : (readAddr.toNat : Int) ≠ sgReg.toInt := by
    intro h
    have hsg : sgReg = BitVec.ofInt 8 readAddr.toNat := by rw [h, BitVec.ofInt_toInt]
    exact hne (hsg.trans (by decide))
  have hbuffer : ∀ i < 3, ((replyBytes ++ List.replicate maxSlaveReadLen 0).take
      maxSlaveReadLen).getD i 0 = replyBytes.getD i 0 := by decide
  have htask : slaveReadTask sgReg ioctl replyBytes.length replyBytes =
      scanLoop sgReg ((replyBytes ++ List.replicate maxSlaveReadLen 0).take
        maxSlaveReadLen) ioctl 3 0 3 false 0 := rfl
  -- the read address comes first, before the flag can be set
  rw [htask, scanLoop, if_pos (by decide)]
  dsimp only
  rw [hbuffer 0 (by decide), show replyBytes.getD 0 0 = readAddr from rfl, if_neg hread,
    if_neg (by simp)]
  -- and neither of the other bytes is one
  have hrest : ∀ n i sgRead, 1 ≤ i → i + n = 3 →
      replies (scanLoop sgReg ((replyBytes ++ List.replicate maxSlaveReadLen 0).take
        maxSlaveReadLen) ioctl n i 3 sgRead 0) = [] := by
    intro n
    induction n with
    | zero => intros; rfl
    | succ n ih =>
        intro i sgRead hi hn
        have hother : ∀ i < 3, 1 ≤ i → replyBytes.getD i 0 ≠ readAddr := by decide
        rw [scanLoop, if_pos (by omega)]
        dsimp only
        rw [hbuffer i (by omega), if_neg (fun h => hother i (by omega) hi h.1)]
        exact ih (i + 1) _ (by omega) (by omega)
  exact hrest 2 1 false (by decide) (by decide)

/-- With the read address as register byte, a frame that begins with it is
answered at once. -/
theorem slaveReadTask_readAddr (frame : List Byte)
    (h : frame = replyBytes ∨ frame = requestBytes 0x21) :
    slaveReadTask 0x21 (fun _ _ => 1) frame.length frame =
      [.print 0 0x21, .reply 0 replyBytes 0] := by
  rcases h with rfl | rfl <;> decide

/-- Every reply that is written was made. -/
theorem length_written_le (events : List Event) :
    (written events).length ≤ (replies events).length := by
  induction events with
  | nil => exact Nat.le_refl 0
  | cons event events ih =>
      cases event with
      | print i byte => exact ih
      | reply i reg status =>
          rw [replies_reply, List.length_cons]
          by_cases hstatus : status = 0 <;> simp [written, hstatus] at ih ⊢ <;> omega

/-! ## Requests -/

/-- The task for `reg` answers a request for `other`.  A register from `0x80` on, which
is negative, is never found. -/
def Answers (reg other : Byte) : Prop :=
  reg = 0x21 ∨ other = reg ∧ reg.toNat ≤ 0x7f

instance (reg other : Byte) : Decidable (Answers reg other) :=
  inferInstanceAs (Decidable (_ ∨ _))

theorem byte_eq_toInt_iff (byte reg : Byte) :
    (byte.toNat : Int) = reg.toInt ↔ byte = reg ∧ reg.toNat ≤ 0x7f := by
  have hb := byte.isLt
  have hr := reg.isLt
  rw [BitVec.toInt_eq_toNat_cond, ← BitVec.toNat_inj]
  split <;> omega

/-- A request is answered once or not at all. -/
theorem replies_requestBytes (reg other : Byte) (ioctl : Nat → List I2cMsg → Int) :
    (replies (slaveReadTask reg ioctl (requestBytes other).length
      (requestBytes other))).length = if Answers reg other then 1 else 0 := by
  -- a reply ends the scan
  have hend : ∀ buffer n i status, hwI2cRawWriteReadBytes (ioctl 0) slaveAddr 3
      (some replyBytes) 0 none = status → scanLoop reg buffer ioctl n i status true 1 = [] := by
    rintro buffer n i status rfl
    have hle := hwI2cRawWriteReadBytes_le (ioctl 0) slaveAddr 3 (some replyBytes) 0 none
    exact scanLoop_of_le _ _ _ _ _ _ _ _ (by omega)
  have hfirst : ((requestBytes other ++ List.replicate maxSlaveReadLen 0).take
      maxSlaveReadLen).getD 0 0 = other := rfl
  have hsecond : ((requestBytes other ++ List.replicate maxSlaveReadLen 0).take
      maxSlaveReadLen).getD 1 0 = readAddr := rfl
  have htask : slaveReadTask reg ioctl (requestBytes other).length (requestBytes other) =
      scanLoop reg ((requestBytes other ++ List.replicate maxSlaveReadLen 0).take
        maxSlaveReadLen) ioctl 2 0 2 false 0 := rfl
  rw [htask, scanLoop, if_pos (by decide)]
  dsimp only
  rw [hfirst]
  by_cases hfound : other = reg ∧ reg.toNat ≤ 0x7f
  · rw [if_pos ((byte_eq_toInt_iff other reg).mpr hfound),
      if_pos (show Answers reg other from .inr hfound)]
    by_cases hother : other = readAddr
    · rw [if_pos ⟨hother, rfl⟩, hend _ _ _ _ rfl]
      rfl
    · rw [if_neg fun h => hother h.1, scanLoop, if_pos (by decide)]
      dsimp only
      rw [hsecond, ite_self, if_pos ⟨rfl, rfl⟩, hend _ _ _ _ rfl]
      rfl
  · rw [if_neg fun h => hfound ((byte_eq_toInt_iff other reg).mp h), if_neg (by simp),
      scanLoop, if_pos (by decide)]
    dsimp only
    rw [hsecond]
    by_cases hreg : reg = 0x21
    · have hread : (readAddr.toNat : Int) = reg.toInt := by rw [hreg]; decide
      rw [if_pos hread, if_pos ⟨rfl, rfl⟩, hend _ _ _ _ rfl,
        if_pos (show Answers reg other from .inl hreg)]
      rfl
    · have hread : (readAddr.toNat : Int) ≠ reg.toInt := fun h =>
        hreg ((byte_eq_toInt_iff readAddr reg).mp h).1.symm
      rw [if_neg hread, if_neg (by simp),
        if_neg (show ¬Answers reg other from not_or.mpr ⟨hreg, hfound⟩)]
      rfl

theorem requestBytes_ne_replyBytes (reg : Byte) : requestBytes reg ≠ replyBytes := by
  intro h
  have hlength : 2 = 3 := congrArg List.length h
  exact absurd hlength (by decide)

end BmcCodes.Ipmb.I2cRaw
