import BmcCodes.Lib.BigEndian
import BmcCodes.Uboot.BusRelease
import Mathlib.Tactic.IntervalCases

/-!
# What a transfer puts on the bus

The commands of `i2c_write` and `i2c_read` against reference frames that are
stated without the driver: the chip address, the address bytes most significant
first, and the data.  Whatever the controller answers, what is sent before the
stop is a prefix of the frame; a call that returns `0` sent all of it, and then
the stop.
-/

namespace BmcCodes.Uboot.AstI2c

open BmcCodes.Lib BmcCodes.Lib.Script

/-! ## Reference frames -/

/-- A command pair that sends `b`: `0x04` as a slave, `0x02` as a master. -/
def dataPair (mode : Int) (b : Byte) : Option Word × Word :=
  (some (b.setWidth 32), if mode = slavem then 0x04 else 0x02)

/-- The pair of a start for `chip` in direction `rw`. -/
def startPair (chip : Byte) (rw : Nat) : Option Word × Word :=
  (some (BitVec.ofNat 32 (2 * chip.toNat + rw)), 0x03)

def stopPair : Option Word × Word := (none, 0x30)

/-- The frame that writes `data` at the `n`-byte address `addr`. -/
def writeFrame (mode : Int) (chip : Byte) (addr : Word) (n : Nat)
    (data : List Byte) : List (Option Word × Word) :=
  startPair chip 0 ::
    ((BigEndian.bytes n addr.toNat).map (dataPair mode) ++
      data.map (dataPair mode))

/-- The master's frame that reads `len` bytes at the `n`-byte address `addr`.
The last receive command, and no other, has bit 4 set. -/
def readFrame (chip : Byte) (addr : Word) (n len : Nat) :
    List (Option Word × Word) :=
  startPair chip 0 ::
    ((BigEndian.bytes n addr.toNat).map (dataPair masterm) ++
      startPair chip 1 ::
        (List.range len).map fun i => (none, if i + 1 = len then 0x18 else 0x08))

/-- The commands issued before any stop. -/
def beforeStop (cs : List (Option Word × Word)) : List (Option Word × Word) :=
  cs.takeWhile fun c => c.2 != 0x30

/-- The `n` bytes sent after the first command. -/
def addressBytes (n : Nat) (cs : List (Option Word × Word)) : List Byte :=
  ((cs.drop 1).take n).map fun c => (c.1.getD 0).setWidth 8

/-! ## Commands of the steps -/

theorem command_start (mode : Int) (chip : Byte) (rw : Nat) (hrw : rw < 2) :
    Step.command mode (.start chip (BitVec.ofNat 8 rw)) = startPair chip rw := by
  have hflag : (BitVec.ofNat 8 rw).setWidth 32 &&& 0x1 = BitVec.ofNat 32 rw := by
    interval_cases rw <;> rfl
  have hchip := chip.isLt
  have haddress : chip.setWidth 32 <<< 1 ||| BitVec.ofNat 32 rw =
      BitVec.ofNat 32 (2 * chip.toNat + rw) := by
    apply BitVec.eq_of_toNat_eq
    rw [BitVec.toNat_or, BitVec.toNat_shiftLeft, BitVec.toNat_setWidth,
      BitVec.toNat_ofNat, BitVec.toNat_ofNat,
      Nat.mod_eq_of_lt (a := chip.toNat) (by omega),
      Nat.mod_eq_of_lt (a := rw) (by omega), Nat.shiftLeft_eq,
      Nat.mod_eq_of_lt (by omega), Nat.mod_eq_of_lt (by omega), ← Nat.shiftLeft_eq,
      ← Nat.shiftLeft_add_eq_or_of_lt (by omega), Nat.shiftLeft_eq]
    omega
  rw [Step.command, hflag, haddress, startPair]

theorem command_send (mode : Int) (b : Byte) :
    Step.command mode (.send b) = dataPair mode b := by
  have hb := b.isLt
  have hbyte : b.setWidth 32 &&& 0x000000FF = b.setWidth 32 := by
    apply BitVec.eq_of_toNat_eq
    rw [BitVec.toNat_and, BitVec.toNat_setWidth,
      Nat.mod_eq_of_lt (a := b.toNat) (by omega)]
    exact Nat.and_two_pow_sub_one_of_lt_two_pow (n := 8) hb
  simp only [Step.command, dataPair, hbyte, eq_comm (a := slavem)]
  rfl

/-- The shift arithmetic of the address loops extracts a byte. -/
theorem addrByte_eq (addr : Word) (alen : Int) (i : Nat) :
    addrByte addr alen i =
      BitVec.ofNat 8 (addr.toNat / 256 ^ (alen - 1 - i).toNat) := by
  have hshift : ((alen - 1 - i) * 8).toNat = 8 * (alen - 1 - i).toNat := by omega
  have hpow : 2 ^ (8 * (alen - 1 - i).toNat) = 256 ^ (alen - 1 - i).toNat := by
    rw [Nat.pow_mul]
  have hmask : ∀ x : Nat, (x &&& 255) % 256 = x % 256 := by
    intro x
    rw [show 255 = 2 ^ 8 - 1 from rfl, Nat.and_two_pow_sub_one_eq_mod]
    exact Nat.mod_mod x 256
  apply BitVec.eq_of_toNat_eq
  rw [addrByte, hshift, BitVec.toNat_setWidth, BitVec.toNat_and,
    BitVec.toNat_ushiftRight, BitVec.toNat_ofNat, Nat.shiftRight_eq_div_pow, hpow]
  exact hmask _

/-- With `n` iterations left of `n + i`, the address loop sends the `n` low
bytes of the address in big-endian order. -/
theorem addrSteps_add_eq (addr : Word) (n i : Nat) :
    addrSteps addr (n + i : Nat) n i =
      (BigEndian.bytes n addr.toNat).map .send := by
  induction n generalizing i with
  | zero => rfl
  | succ n ih =>
      have hexp : (((n + 1 + i : Nat) : Int) - 1 - i).toNat = n := by omega
      have htail : addrSteps addr (n + 1 + i : Nat) n (i + 1) =
          (BigEndian.bytes n addr.toNat).map .send := by
        rw [← ih (i + 1), show n + 1 + i = n + (i + 1) by omega]
      rw [addrSteps, List.range'_succ, List.map_cons, ← addrSteps, htail,
        addrByte_eq, hexp, BigEndian.bytes_succ, List.map_cons]

theorem addrSteps_eq (addr : Word) (alen : Int) :
    addrSteps addr alen alen.toNat 0 =
      (BigEndian.bytes alen.toNat addr.toNat).map .send := by
  rcases Int.lt_or_le alen 0 with hneg | hpos
  · rw [show alen.toNat = 0 by omega]
    rfl
  · have hcast : alen = ((alen.toNat + 0 : Nat) : Int) := by omega
    calc addrSteps addr alen alen.toNat 0
        = addrSteps addr (alen.toNat + 0 : Nat) alen.toNat 0 := by rw [← hcast]
      _ = (BigEndian.bytes alen.toNat addr.toNat).map .send :=
          addrSteps_add_eq addr alen.toNat 0

theorem dataSteps_eq (buffer : List Byte) (n : Nat) (hn : n ≤ buffer.length) :
    dataSteps buffer n 0 = (buffer.take n).map .send := by
  have hbytes : (List.range' 0 n).map (fun j => buffer.getD j 0) =
      buffer.take n := by
    apply List.ext_getElem
    · simp [hn]
    · intro j hj _
      have hjn : j < n := by simpa using hj
      have hj' : j < buffer.length := by omega
      simp [List.getD_eq_getElem?_getD, List.getElem?_eq_getElem hj']
  rw [← hbytes, List.map_map]
  rfl

theorem command_receive (n i : Nat) :
    Step.command masterm (.receive (lastFlag n i)) =
      (none, if i + 1 < n then 0x08 else 0x18) := by
  have hlast : lastFlag n i = if i + 1 < n then 0 else 1 := by
    unfold lastFlag
    split <;> split <;> omega
  rw [Step.command, if_pos rfl, hlast]
  split <;> rfl

theorem receiveSteps_commands (len : Int) :
    (receiveSteps len len.toNat 0).map (Step.command masterm) =
      (List.range len.toNat).map fun i =>
        (none, if i + 1 = len.toNat then 0x18 else 0x08) := by
  rcases Int.lt_or_le len 0 with hneg | hpos
  · rw [show len.toNat = 0 by omega]
    rfl
  · obtain ⟨n, rfl⟩ := Int.eq_ofNat_of_zero_le hpos
    rw [Int.toNat_natCast, receiveSteps, List.map_map, List.range_eq_range']
    apply List.map_congr_left
    intro i hi
    have hin : i < n := by simpa using hi
    rw [Function.comp_apply, command_receive]
    by_cases hlast : i + 1 = n
    · rw [if_neg (by omega), if_pos hlast]
    · rw [if_pos (by omega), if_neg hlast]

/-! ## Transfers against frames -/

theorem writeTransfer_commands (mode : Int) (chip : Byte) (addr : Word)
    (alen : Int) (buffer : List Byte) (len : Int) (hlen : len ≤ buffer.length) :
    ((writeTransfer chip addr alen buffer len).header ++
        (writeTransfer chip addr alen buffer len).body).map (Step.command mode) =
      writeFrame mode chip addr alen.toNat (buffer.take len.toNat) := by
  have hn : len.toNat ≤ buffer.length := by omega
  have hstart : Step.command mode (.start chip i2cWriteFlag) = startPair chip 0 :=
    command_start mode chip 0 (by decide)
  simp [writeTransfer, addrSteps_eq, dataSteps_eq buffer _ hn, writeFrame, hstart,
    Function.comp_def, command_send]

theorem readTransfer_commands (chip : Byte) (addr : Word) (alen len : Int) :
    ((readTransfer chip addr alen len).header ++
        (readTransfer chip addr alen len).body).map (Step.command masterm) =
      readFrame chip addr alen.toNat len.toNat := by
  have hstart : Step.command masterm (.start chip i2cWriteFlag) = startPair chip 0 :=
    command_start masterm chip 0 (by decide)
  have hrestart : Step.command masterm (.start chip i2cReadFlag) =
      startPair chip 1 := command_start masterm chip 1 (by decide)
  simp only [readTransfer, addrSteps_eq, readFrame, List.map_append, List.map_cons,
    List.map_map, Function.comp_def, command_send, hstart, hrestart,
    receiveSteps_commands, List.append_assoc, List.cons_append, List.nil_append]

theorem performed_isPrefix (T : Transfer) (S : Session) (p : Nat) :
    T.performed S p <+: T.header ++ T.body := by
  rw [Transfer.performed]
  split
  · next hopened =>
      have hall := attempted_of_allOk S.ok p T.header hopened
      exact ⟨[], by rw [hall, List.append_nil]⟩
  · rw [List.append_nil]
    exact (attempted_isPrefix S.ok p T.header).trans (List.prefix_append ..)

/-- A transfer that returns `0` performs all of its steps. -/
theorem performed_of_ret (T : Transfer) (S : Session) (p : Nat)
    (h : T.ret S p = 0) :
    T.opened S p = true ∧ T.performed S p = T.header ++ T.body := by
  rw [Transfer.ret, retOf_eq_zero, Bool.and_eq_true] at h
  refine ⟨h.1, ?_⟩
  rw [Transfer.performed, if_pos h.1, attempted_of_allOk S.ok p T.header h.1]

theorem beforeStop_transfer (T : Transfer) (S : Session) (p : Nat)
    (hnoStop : NoStop S.mode (T.header ++ T.body)) (b : Bool) :
    beforeStop ((T.performed S p).map (Step.command S.mode) ++
        if b then [(none, 0x30)] else []) =
      (T.performed S p).map (Step.command S.mode) := by
  have hall : ∀ c ∈ (T.performed S p).map (Step.command S.mode),
      (c.2 != 0x30) = true := by
    intro c hc
    obtain ⟨x, hx, rfl⟩ := List.mem_map.mp hc
    simpa using hnoStop x (mem_of_mem_performed hx)
  rw [beforeStop, List.takeWhile_append_of_pos hall]
  cases b <;> simp

theorem addressBytes_append (n x : Nat) (mode : Int)
    (c : Option Word × Word) (cs : List (Option Word × Word)) :
    addressBytes n (c :: ((BigEndian.bytes n x).map (dataPair mode) ++ cs)) =
      BigEndian.bytes n x := by
  have htake : ((BigEndian.bytes n x).map (dataPair mode) ++ cs).take n =
      (BigEndian.bytes n x).map (dataPair mode) := by
    rw [List.take_append_of_le_length (by simp)]
    exact List.take_of_length_le (by simp)
  rw [addressBytes, List.drop_one, List.tail_cons, htake, List.map_map]
  simp [Function.comp_def, dataPair]

/-- **`i2c_write`, whole transfer.**  What is sent before any stop is a prefix
of the reference frame; a call that returns `0` sent the whole frame and then
one stop, and its address bytes denote the address modulo `256 ^ alen`. -/
theorem i2cWrite_sends_writeFrame (ctl : Controller) (s : Board) (chip : Byte)
    (addr : Word) (alen : Int) (buffer : List Byte) (len mode : Int)
    (hlen : len ≤ buffer.length) :
    let result := i2cWrite ctl chip addr alen buffer len mode s
    let sent := commands (s.since result.2)
    let frame := writeFrame mode chip addr alen.toNat (buffer.take len.toNat)
    beforeStop sent <+: frame ∧
      (result.1 = 0 →
        sent = frame ++ [stopPair] ∧
          BigEndian.value (addressBytes alen.toNat sent) =
            addr.toNat % 256 ^ alen.toNat) := by
  intro result sent frame
  let T := writeTransfer chip addr alen buffer len
  let S := (initIfPending mode s).session ctl mode
  let p := (initIfPending mode s).polls
  have hresult : result = (T.ret S p, (initIfPending mode s).transfer ctl mode T) :=
    i2cWrite_eq ctl mode s chip addr alen buffer len
  have hsent : sent = (T.performed S p).map (Step.command mode) ++
      if T.opened S p then [(none, 0x30)] else [] := by
    simp only [sent, hresult]
    exact commands_since_transfer ctl mode T (initIfPending_accesses mode s)
      (filterMap_pendingLog s)
  have hframe : (T.header ++ T.body).map (Step.command mode) = frame :=
    writeTransfer_commands mode chip addr alen buffer len hlen
  constructor
  · have hbefore : beforeStop sent = (T.performed S p).map (Step.command mode) := by
      rw [hsent]
      exact beforeStop_transfer T S p (noStop_writeTransfer _ _ _ _ _ _) _
    rw [hbefore, ← hframe]
    exact (performed_isPrefix T S p).map _
  · intro hret
    rw [hresult] at hret
    obtain ⟨hopened, hperformed⟩ := performed_of_ret T S p hret
    have hwhole : sent = frame ++ [stopPair] := by
      rw [hsent, hperformed, hframe, if_pos hopened, stopPair]
    refine ⟨hwhole, ?_⟩
    rw [hwhole]
    simp only [frame, writeFrame, List.cons_append, List.append_assoc,
      addressBytes_append, BigEndian.value_bytes]

/-- Every step succeeds on a controller that answers with all status bits. -/
theorem ret_answering (T : Transfer) (s : Board) (mode : Int)
    (hbus : s.i2cBusNum = 3) :
    T.ret (s.session (Controller.answering 0x07) mode) s.polls = 0 := by
  have hok : ∀ p x, (s.session (Controller.answering 0x07) mode).ok p x = true := by
    intro p x
    simp only [ok_iff, Board.session, hbus, status_answering]
    cases x <;> simp [Step.ackMask]
  rw [Transfer.ret, retOf_eq_zero, Bool.and_eq_true]
  exact ⟨(allOk_iff ..).mpr fun i _ => hok _ _, (allOk_iff ..).mpr fun i _ => hok _ _⟩

/-- Writing `0xAB` at `0x1234` of chip `0x50`, every step being acknowledged. -/
theorem i2cWrite_sends_writeFrame_acked :
    commands (bus3.since (i2cWrite (Controller.answering 0x07) 0x50 0x1234 2
        [0xAB] 1 masterm bus3).2) =
      [(some 0xA0, 0x03), (some 0x12, 0x02), (some 0x34, 0x02), (some 0xAB, 0x02),
        (none, 0x30)] := by
  refine ((i2cWrite_sends_writeFrame (Controller.answering 0x07) bus3 0x50 0x1234 2
    [0xAB] 1 masterm (by decide)).2 ?_).1
  simp only [i2cWrite_eq]
  exact ret_answering _ _ _ (initIfPending_i2cBusNum masterm bus3)

end BmcCodes.Uboot.AstI2c
