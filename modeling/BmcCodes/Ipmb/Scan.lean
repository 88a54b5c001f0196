import BmcCodes.Ipmb.I2cRaw
import Mathlib.Tactic.IntervalCases

/-!
# The scan of one frame

The slave task is meant to look at every byte of a received frame and to answer
each read address that comes after the register byte.  It keeps the status of an
answer in `ret`, though, which bounds the loop: after the first answer, whether
or not it was delivered, the rest of the frame is skipped.  So a frame is
answered as intended exactly when nothing follows the first request in it.
-/

namespace BmcCodes.Ipmb.I2cRaw

/-! ## What is intended -/

/-- The register byte stands before position `j`. -/
def Seen (sgReg : Byte) (frame : List Byte) (j : Nat) : Prop :=
  ∃ i < j, frame[i]? = some sgReg

instance (sgReg : Byte) (frame : List Byte) (j : Nat) :
    Decidable (Seen sgReg frame j) :=
  inferInstanceAs (Decidable (∃ _ < _, _))

/-- Position `j` of the frame asks for an answer: it holds the read address, and
the register byte stands before it. -/
def Asks (sgReg : Byte) (frame : List Byte) (j : Nat) : Prop :=
  frame[j]? = some 0x21 ∧ Seen sgReg frame j

instance (sgReg : Byte) (frame : List Byte) (j : Nat) :
    Decidable (Asks sgReg frame j) := inferInstanceAs (Decidable (_ ∧ _))

/-- The positions whose bytes were looked at. -/
def scanned (events : List Event) : List Nat :=
  events.filterMap fun
    | .print i _ => some i
    | .reply _ _ _ => none

/-- The replies, with the position that each of them answers. -/
def replies (events : List Event) : List (Nat × List Byte) :=
  events.filterMap fun
    | .print _ _ => none
    | .reply i reg _ => some (i, reg)

section Events

variable (i : Nat) (byte : Byte) (reg : List Byte) (status : Int) (events : List Event)

@[simp] theorem scanned_print : scanned (.print i byte :: events) = i :: scanned events := rfl
@[simp] theorem scanned_reply : scanned (.reply i reg status :: events) = scanned events := rfl
@[simp] theorem replies_print : replies (.print i byte :: events) = replies events := rfl
@[simp] theorem replies_reply :
    replies (.reply i reg status :: events) = (i, reg) :: replies events := rfl

end Events

/-- Every position of the frame is scanned, and those that ask for an answer, no
others, get one reply each. -/
structure Answered (sgReg : Byte) (frame : List Byte) (events : List Event) : Prop where
  scanned : scanned events = List.range frame.length
  replies : replies events =
    ((List.range frame.length).filter fun j => Asks sgReg frame j).map
      (·, [0x21, 0x55, 0xaa])

/-! ## The loop -/

section Loop

variable (sgReg : Byte) (u8ReadBuffer : List Byte) (ioctl : Nat → List I2cMsg → Int)

/-- The loop ends when its bound is reached. -/
theorem scanLoop_of_le (n i : Nat) (ret : Int) (sgRead : Bool) (k : Nat)
    (h : ret ≤ i) : scanLoop sgReg u8ReadBuffer ioctl n i ret sgRead k = [] := by
  cases n with
  | zero => rfl
  | succ n => rw [scanLoop, if_neg (by omega)]

theorem hwI2cRawWriteReadBytes_le (ioctl : List I2cMsg → Int) (a : Word) (w : Byte)
    (out : Option (List Byte)) (r : Byte) (inb : Option (List Byte)) :
    hwI2cRawWriteReadBytes ioctl a w out r inb ≤ 0 := by
  unfold hwI2cRawWriteReadBytes
  split
  · decide
  · dsimp only
    split <;> decide

/-- What one iteration can do: nothing, answer and end the scan, or go on. -/
theorem scanLoop_cases (n i : Nat) (ret : Int) (sgRead : Bool) (k : Nat) :
    scanLoop sgReg u8ReadBuffer ioctl (n + 1) i ret sgRead k = [] ∨
      (∃ byte status, scanLoop sgReg u8ReadBuffer ioctl (n + 1) i ret sgRead k =
        [.print i byte, .reply i replyBytes status]) ∨
      ∃ byte sgRead', scanLoop sgReg u8ReadBuffer ioctl (n + 1) i ret sgRead k =
        .print i byte :: scanLoop sgReg u8ReadBuffer ioctl n (i + 1) ret sgRead' k := by
  have hreply := hwI2cRawWriteReadBytes_le (ioctl k) slaveAddr 3 (some replyBytes) 0 none
  rw [scanLoop]
  dsimp only
  generalize (if ((u8ReadBuffer.getD i 0).toNat : Int) = sgReg.toInt then true
    else sgRead) = sgRead'
  rw [scanLoop_of_le _ _ _ _ _ _ _ _ (by omega)]
  split
  · split
    · exact .inr (.inl ⟨_, _, rfl⟩)
    · exact .inr (.inr ⟨_, _, rfl⟩)
  · exact .inl rfl

/-- The number of iterations allowed never ends the loop: more of them make no
difference once they cover the bound. -/
theorem scanLoop_add (n m i : Nat) (ret : Int) (sgRead : Bool) (k : Nat)
    (h : ret ≤ i + n) :
    scanLoop sgReg u8ReadBuffer ioctl (n + m) i ret sgRead k =
      scanLoop sgReg u8ReadBuffer ioctl n i ret sgRead k := by
  induction n generalizing i ret sgRead k with
  | zero =>
      rw [scanLoop_of_le _ _ _ _ _ _ _ _ (by omega),
        scanLoop_of_le _ _ _ _ _ _ _ _ (by omega)]
  | succ n ih =>
      have hreply := hwI2cRawWriteReadBytes_le (ioctl k) slaveAddr 3 (some replyBytes)
        0 none
      rw [show n + 1 + m = n + m + 1 by omega, scanLoop, scanLoop]
      dsimp only
      rw [ih (i + 1) _ _ (k + 1) (by omega), ih (i + 1) ret _ k (by omega)]

end Loop

/-! ## One received frame -/

theorem seen_succ_iff (sgReg : Byte) (frame : List Byte) (i : Nat) :
    Seen sgReg frame (i + 1) ↔ frame[i]? = some sgReg ∨ Seen sgReg frame i := by
  constructor
  · intro h
    obtain ⟨j, hj, hbyte⟩ := h
    rcases Nat.lt_succ_iff_lt_or_eq.mp hj with hlt | rfl
    · exact .inr ⟨j, hlt, hbyte⟩
    · exact .inl hbyte
  · intro h
    rcases h with hbyte | ⟨j, hj, hbyte⟩
    · exact ⟨i, Nat.lt_succ_self i, hbyte⟩
    · exact ⟨j, Nat.lt_succ_of_lt hj, hbyte⟩

theorem Asks.lt {sgReg : Byte} {frame : List Byte} {i : Nat} (h : Asks sgReg frame i) :
    i < frame.length :=
  (List.getElem?_eq_some_iff.mp h.1).1

/-- A register value below `0x80` is compared as the byte it is. -/
theorem byte_eq_sgReg_iff {sgReg : Byte} (hsg : sgReg.toNat ≤ 0x7f) (byte : Byte) :
    (byte.toNat : Int) = sgReg.toInt ↔ byte = sgReg := by
  rw [BitVec.toInt_eq_toNat_of_lt (by omega), Int.natCast_inj, BitVec.toNat_inj]

section Frame

variable {sgReg : Byte} {frame u8ReadBuffer : List Byte}
  (hsg : sgReg.toNat ≤ 0x7f) (hne : sgReg ≠ 0x21)
  (hbuffer : ∀ i < frame.length, u8ReadBuffer[i]? = frame[i]?)

include hsg hne hbuffer

/-- One iteration: it answers exactly the positions that ask, and then leaves
the loop. -/
theorem scanLoop_step (ioctl : Nat → List I2cMsg → Int) (n i k : Nat)
    (hi : i < frame.length) :
    ∃ byte status, scanLoop sgReg u8ReadBuffer ioctl (n + 1) i frame.length
        (Seen sgReg frame i) k =
      .print i byte ::
        if Asks sgReg frame i then [.reply i replyBytes status]
        else scanLoop sgReg u8ReadBuffer ioctl n (i + 1) frame.length
          (Seen sgReg frame (i + 1)) k := by
  have hbyte : u8ReadBuffer.getD i 0 = frame[i] := by
    rw [List.getD_eq_getElem?_getD, hbuffer i hi, List.getElem?_eq_getElem hi,
      Option.getD_some]
  have hflag : (if frame[i] = sgReg then true else decide (Seen sgReg frame i)) =
      decide (Seen sgReg frame (i + 1)) := by
    by_cases hreg : frame[i] = sgReg <;>
      simp [seen_succ_iff, List.getElem?_eq_getElem hi, hreg]
  have hasks : frame[i] = readAddr ∧ Seen sgReg frame (i + 1) ↔ Asks sgReg frame i := by
    rw [seen_succ_iff, Asks, List.getElem?_eq_getElem hi, Option.some_inj,
      Option.some_inj]
    refine and_congr_right fun hread => or_iff_right ?_
    intro hreg
    exact hne (hreg ▸ hread)
  refine ⟨frame[i], hwI2cRawWriteReadBytes (ioctl k) slaveAddr 3 (some replyBytes) 0 none,
    ?_⟩
  rw [scanLoop, if_pos (by omega), hbyte]
  simp only [byte_eq_sgReg_iff hsg, hflag, decide_eq_true_eq, hasks]
  have hret := hwI2cRawWriteReadBytes_le (ioctl k) slaveAddr 3 (some replyBytes) 0 none
  rw [scanLoop_of_le _ _ _ _ _ _ _ _ (by omega)]
  split <;> rfl

/-- The loop from position `i` on answers the frame as intended if and only if
no position from `i` on asks before the last. -/
theorem scanLoop_answers_iff (ioctl : Nat → List I2cMsg → Int) (n i k : Nat)
    (hlen : i + n = frame.length) :
    (scanned (scanLoop sgReg u8ReadBuffer ioctl n i frame.length
        (Seen sgReg frame i) k) = List.range' i n ∧
      replies (scanLoop sgReg u8ReadBuffer ioctl n i frame.length
        (Seen sgReg frame i) k) =
        ((List.range' i n).filter fun j => Asks sgReg frame j).map
          (·, replyBytes)) ↔
      ∀ j ≥ i, Asks sgReg frame j → j + 1 = frame.length := by
  induction n generalizing i with
  | zero =>
      rw [scanLoop]
      refine iff_of_true ⟨rfl, rfl⟩ fun j hj hasks => ?_
      have hj' := hasks.lt
      omega
  | succ n ih =>
      obtain ⟨byte, status, hstep⟩ :=
        scanLoop_step hsg hne hbuffer ioctl n i k (by omega)
      rw [hstep, List.range'_succ]
      by_cases hasks : Asks sgReg frame i
      · -- the scan ends here, which is right at the last position only
        rw [if_pos hasks]
        constructor
        · intro h j hj hasks'
          obtain ⟨hscanned, _⟩ := h
          have hrest : List.range' (i + 1) n = [] :=
            ((List.cons_inj_right i).mp hscanned).symm
          rw [List.range'_eq_nil_iff] at hrest
          have hj' := hasks'.lt
          omega
        · intro h
          have hn : n = 0 := by
            have := h i (Nat.le_refl i) hasks
            omega
          subst hn
          simp [scanned, replies, hasks]
      · rw [if_neg hasks]
        rw [scanned_print, replies_print, List.cons_inj_right, List.filter_cons_of_neg (by simpa),
          ih (i + 1) (by omega)]
        constructor
        · intro h j hj hasks'
          rcases Nat.eq_or_lt_of_le hj with rfl | hlt
          · exact absurd hasks' hasks
          · exact h j hlt hasks'
        · intro h j hj hasks'
          exact h j (by omega) hasks'

end Frame

/-- The buffer of the slave task begins with a frame that fits it. -/
theorem u8ReadBuffer_getElem? {frame : List Byte} (hmax : frame.length ≤ 256) :
    ∀ i < frame.length,
      ((frame ++ List.replicate maxSlaveReadLen 0).take maxSlaveReadLen)[i]? =
        frame[i]? := by
  intro i hi
  rw [List.getElem?_take_of_lt (by rw [maxSlaveReadLen]; omega),
    List.getElem?_append_left hi]

/-- A frame that is not empty is scanned from its first byte on, with the flag
cleared. -/
theorem slaveReadTask_eq_scanLoop (sgReg : Byte) (frame : List Byte)
    (ioctl : Nat → List I2cMsg → Int) (hpos : 1 ≤ frame.length) :
    slaveReadTask sgReg ioctl frame.length frame =
      scanLoop sgReg ((frame ++ List.replicate maxSlaveReadLen 0).take maxSlaveReadLen)
        ioctl frame.length 0 frame.length false 0 := by
  have hread : hwI2cRawSlaveRead frame.length = frame.length :=
    if_neg (by omega)
  rw [slaveReadTask, hread, if_pos (by omega), Int.toNat_natCast]

theorem not_seen_zero (sgReg : Byte) (frame : List Byte) : ¬ Seen sgReg frame 0 := by
  intro h
  obtain ⟨i, hi, _⟩ := h
  omega

/-- **When a frame is answered**: for every frame that fits the buffer, and
whatever becomes of the replies, if and only if the frame has no request before
its last byte. -/
theorem slaveReadTask_answers_iff (sgReg : Byte) (frame : List Byte)
    (ioctl : Nat → List I2cMsg → Int) (hsg : sgReg.toNat ≤ 0x7f) (hne : sgReg ≠ 0x21)
    (hpos : 1 ≤ frame.length) (hmax : frame.length ≤ 256) :
    Answered sgReg frame (slaveReadTask sgReg ioctl frame.length frame) ↔
      ∀ j, Asks sgReg frame j → j + 1 = frame.length := by
  have hloop := scanLoop_answers_iff hsg hne (u8ReadBuffer_getElem? hmax) ioctl
    frame.length 0 0 (Nat.zero_add _)
  rw [← List.range_eq_range', decide_eq_false (not_seen_zero sgReg frame)] at hloop
  rw [slaveReadTask_eq_scanLoop sgReg frame ioctl hpos]
  constructor
  · intro h j hasks
    obtain ⟨hscanned, hreplies⟩ := h
    exact hloop.mp ⟨hscanned, hreplies⟩ j (Nat.zero_le j) hasks
  · intro h
    obtain ⟨hscanned, hreplies⟩ := hloop.mpr fun j _ hasks => h j hasks
    exact ⟨hscanned, hreplies⟩

/-- A request for register `0x30` at the end of a frame. -/
theorem slaveReadTask_answers_last :
    Answered 0x30 [0x55, 0x30, 0x21]
      (slaveReadTask 0x30 (fun _ _ => 1) 3 [0x55, 0x30, 0x21]) :=
  (slaveReadTask_answers_iff 0x30 [0x55, 0x30, 0x21] (fun _ _ => 1) (by decide)
    (by decide) (by decide) (by decide)).mpr (by
      intro j hasks
      have hj := hasks.lt
      simp only [List.length_cons, List.length_nil] at hj
      interval_cases j <;> revert hasks <;> decide)

/-- Of two requests in one frame only the first is answered. -/
theorem slaveReadTask_drops_second_request :
    ¬ Answered 0x30 [0x30, 0x21, 0x21]
        (slaveReadTask 0x30 (fun _ _ => 1) 3 [0x30, 0x21, 0x21]) := by
  intro h
  exact absurd h.scanned (by decide)

end BmcCodes.Ipmb.I2cRaw
