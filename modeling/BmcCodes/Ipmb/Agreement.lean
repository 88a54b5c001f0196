import BmcCodes.Ipmb.Scan

/-!
# Which registers can be asked for

Requester and responder take the register from the same argument.  The request
carries it as a byte, and the responder looks for that byte in the frame; but it
compares the unsigned bytes of the frame with a signed `char`.  From `0x80` on
the two sides do not meet: no byte of a frame equals a negative number, so the
request is never answered.
-/

namespace BmcCodes.Ipmb.I2cRaw

/-! ## Registers below `0x80` -/

section Frame

variable {sgReg : Byte} {frame u8ReadBuffer : List Byte}
  (hsg : sgReg.toNat ≤ 0x7f) (hne : sgReg ≠ 0x21)
  (hbuffer : ∀ i < frame.length, u8ReadBuffer[i]? = frame[i]?)

include hsg hne hbuffer

/-- The loop from position `i` on replies if and only if some position from `i`
on asks for it. -/
theorem scanLoop_replies_ne_nil_iff (ioctl : Nat → List I2cMsg → Int) (n i k : Nat)
    (hlen : i + n = frame.length) :
    replies (scanLoop sgReg u8ReadBuffer ioctl n i frame.length
        (Seen sgReg frame i) k) ≠ [] ↔
      ∃ j ≥ i, Asks sgReg frame j := by
  induction n generalizing i with
  | zero =>
      refine iff_of_false (fun h => h rfl) ?_
      intro h
      obtain ⟨j, hj, hasks⟩ := h
      have hj' := hasks.lt
      omega
  | succ n ih =>
      obtain ⟨byte, status, hstep⟩ :=
        scanLoop_step hsg hne hbuffer ioctl n i k (by omega)
      rw [hstep, replies_print]
      by_cases hasks : Asks sgReg frame i
      · rw [if_pos hasks]
        rw [replies_reply]
        exact iff_of_true (List.cons_ne_nil _ _) ⟨i, Nat.le_refl i, hasks⟩
      · rw [if_neg hasks, ih (i + 1) (by omega)]
        constructor
        · intro h
          obtain ⟨j, hj, hasks'⟩ := h
          exact ⟨j, by omega, hasks'⟩
        · intro h
          obtain ⟨j, hj, hasks'⟩ := h
          refine ⟨j, Nat.lt_of_le_of_ne hj ?_, hasks'⟩
          rintro rfl
          exact hasks hasks'

end Frame

/-- A frame with a request in it asks for an answer right after the register
byte. -/
theorem asks_request (sgReg : Byte) (pre post : List Byte) :
    Asks sgReg (pre ++ requestBytes sgReg ++ post) (pre.length + 1) := by
  have hreg : (pre ++ requestBytes sgReg ++ post)[pre.length]? = some sgReg := by
    simp [requestBytes]
  have hread : (pre ++ requestBytes sgReg ++ post)[pre.length + 1]? = some 0x21 := by
    simp [requestBytes, readAddr, slaveAddr]
  exact ⟨hread, pre.length, Nat.lt_succ_self _, hreg⟩

/-! ## Registers from `0x80` on -/

/-- A negative register is found nowhere, so nothing is answered. -/
theorem replies_scanLoop_of_neg {sgReg : Byte} (hsg : sgReg.toInt < 0)
    (u8ReadBuffer : List Byte) (ioctl : Nat → List I2cMsg → Int) (n i : Nat)
    (ret : Int) (k : Nat) :
    replies (scanLoop sgReg u8ReadBuffer ioctl n i ret false k) = [] := by
  induction n generalizing i with
  | zero => rfl
  | succ n ih =>
      rw [scanLoop]
      split
      · have hbyte : ((u8ReadBuffer.getD i 0).toNat : Int) ≠ sgReg.toInt := by omega
        dsimp only
        rw [if_neg hbyte, if_neg (by simp)]
        exact ih (i + 1)
      · rfl

/-! ## The register argument -/

theorem sgRegOf_toNat {r : Int} (hlow : 0 ≤ r) (hhigh : r ≤ 255) :
    (sgRegOf r).toNat = r.toNat := by
  rw [sgRegOf, BitVec.toNat_ofInt]
  omega

theorem sgRegOf_ne_readAddr {r : Int} (hlow : 0 ≤ r) (hhigh : r ≤ 255) (hne : r ≠ 0x21) :
    sgRegOf r ≠ 0x21 := by
  intro h
  have hnat := sgRegOf_toNat hlow hhigh
  rw [h] at hnat
  have hread : (0x21 : Byte).toNat = 33 := rfl
  omega

/-- **Which requests are answered**: of all register arguments that fit a byte,
those below `0x80`, whatever surrounds the request in the frame. -/
theorem request_answered_iff (r : Int) (hlow : 0 ≤ r) (hhigh : r ≤ 255) (hne : r ≠ 0x21)
    (pre post : List Byte) (ioctl : Nat → List I2cMsg → Int)
    (hmax : (pre ++ requestBytes (sgRegOf r) ++ post).length ≤ 256) :
    replies (slaveReadTask (sgRegOf r) ioctl
        (pre ++ requestBytes (sgRegOf r) ++ post).length
        (pre ++ requestBytes (sgRegOf r) ++ post)) ≠ [] ↔
      r ≤ 0x7f := by
  have hasks := asks_request (sgRegOf r) pre post
  have hnat := sgRegOf_toNat hlow hhigh
  rw [slaveReadTask_eq_scanLoop _ _ _ (Nat.zero_lt_of_lt hasks.lt)]
  by_cases hsmall : r ≤ 0x7f
  · refine iff_of_true ?_ hsmall
    rw [← decide_eq_false (not_seen_zero (sgRegOf r) (pre ++ requestBytes (sgRegOf r) ++ post)),
      scanLoop_replies_ne_nil_iff (by omega) (sgRegOf_ne_readAddr hlow hhigh hne)
        (u8ReadBuffer_getElem? hmax) ioctl _ 0 0 (Nat.zero_add _)]
    exact ⟨_, Nat.zero_le _, hasks⟩
  · refine iff_of_false (fun h => h ?_) hsmall
    have hneg : (sgRegOf r).toInt < 0 := by
      rw [BitVec.toInt_eq_toNat_cond, if_neg (by omega)]
      omega
    exact replies_scanLoop_of_neg hneg _ _ _ _ _ _

/-- Register `0x30`, asked for in the middle of a frame. -/
theorem request_0x30_answered :
    replies (slaveReadTask (sgRegOf 0x30) (fun _ _ => 1)
      ([0x55] ++ requestBytes (sgRegOf 0x30) ++ [0xaa]).length
      ([0x55] ++ requestBytes (sgRegOf 0x30) ++ [0xaa])) ≠ [] :=
  (request_answered_iff 0x30 (by decide) (by decide) (by decide) [0x55] [0xaa]
    (fun _ _ => 1) (by decide)).mpr (by decide)

/-- Register `0x80`: the frame that carries the request is not answered. -/
theorem request_0x80_not_answered :
    ¬ replies (slaveReadTask (sgRegOf 0x80) (fun _ _ => 1)
      (requestBytes (sgRegOf 0x80)).length (requestBytes (sgRegOf 0x80))) ≠ [] := by
  decide

end BmcCodes.Ipmb.I2cRaw
