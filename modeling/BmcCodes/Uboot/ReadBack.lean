import BmcCodes.Uboot.Frames

/-!
# What `i2c_read` leaves in the caller's buffer

The receive loop stores the byte of every receive that succeeds at the index of
its iteration, and goes on after a failure.  Iteration `i` makes poll `p + i`
when the loop starts with poll `p`, so each element of the buffer is decided by
one status word of the controller.  A call that does not get through its header
never enters the loop and leaves the buffer alone.
-/

namespace BmcCodes.Uboot.AstI2c

open BmcCodes.Lib BmcCodes.Lib.Script

/-- The byte of `I2C_TRBB` that holds received data, bits `[15:8]`, at the
receive that made poll `p`. -/
def Controller.arrived (ctl : Controller) (p : Nat) : Byte :=
  (ctl.trbb (p + 1)).extractLsb' 8 8

/-- The receive that made poll `p` succeeded. -/
def Controller.Arrives (ctl : Controller) (busNum : Int) (p : Nat) : Prop :=
  ctl.status busNum p &&& 0x04 ≠ 0

instance (ctl : Controller) (busNum : Int) (p : Nat) :
    Decidable (ctl.Arrives busNum p) :=
  inferInstanceAs (Decidable (_ ≠ _))

/-- Masking and shifting extracts the data byte. -/
theorem received_eq_arrived (S : Session) (p : Nat) :
    S.received p = S.ctl.arrived p := by
  unfold Session.received Controller.arrived
  apply BitVec.eq_of_getLsbD_eq
  intro i hi
  have hmask : BitVec.getLsbD (0x0000FF00 : Word) (8 + i) = true := by
    interval_cases i <;> rfl
  rw [BitVec.getLsbD_setWidth, BitVec.getLsbD_ushiftRight, BitVec.getLsbD_and,
    BitVec.getLsbD_extractLsb', hmask, Bool.and_true]

theorem ok_receive_iff (S : Session) (p : Nat) (last : Int) :
    S.ok p (.receive last) = true ↔ S.ctl.Arrives S.busNum p :=
  ok_iff S p _

/-! ## The receive loop -/

theorem length_storeReceived (S : Session) (len : Int) (n i p : Nat)
    (buffer : List Byte) :
    (storeReceived S len n i p buffer).length = buffer.length := by
  induction n generalizing i p buffer with
  | zero => rfl
  | succ n ih =>
      rw [storeReceived, ih]
      split
      · exact List.length_set
      · rfl

/-- The loop with `n` iterations left from `i` on writes only indices from `i`
to `i + n - 1`, and of those the ones whose receive succeeds. -/
theorem storeReceived_getElem? (S : Session) (len : Int) (n i p j : Nat)
    (buffer : List Byte) (hroom : i + n ≤ buffer.length) :
    (storeReceived S len n i p buffer)[j]? =
      if (i ≤ j ∧ j < i + n) ∧ S.ctl.Arrives S.busNum (p + (j - i)) then
        some (S.ctl.arrived (p + (j - i)))
      else buffer[j]? := by
  induction n generalizing i p buffer with
  | zero =>
      rw [storeReceived, if_neg]
      intro h
      obtain ⟨⟨hij, hji⟩, _⟩ := h
      omega
  | succ n ih =>
      rw [storeReceived, ih (i + 1) (p + 1) _ (by
        split
        · rw [List.length_set]
          omega
        · omega)]
      by_cases hji : j = i
      · -- the element of this iteration, which the later ones do not reach
        subst hji
        have hlt : j < buffer.length := by omega
        rw [if_neg (by omega), Nat.sub_self, Nat.add_zero, received_eq_arrived]
        simp only [ok_receive_iff]
        by_cases harrives : S.ctl.Arrives S.busNum p
        · rw [if_pos harrives, if_pos ⟨by omega, harrives⟩]
          exact List.getElem?_set_self hlt
        · rw [if_neg harrives, if_neg (fun h => harrives h.2)]
      · have hkeep : (if S.ok p (.receive (lastFlag len i)) then
            buffer.set i (S.received p) else buffer)[j]? = buffer[j]? := by
          split
          · exact List.getElem?_set_ne (Ne.symm hji)
          · rfl
        rw [hkeep]
        by_cases hij : i ≤ j
        · have hpoll : p + 1 + (j - (i + 1)) = p + (j - i) := by omega
          have hrange : (i + 1 ≤ j ∧ j < i + 1 + n) ↔ (i ≤ j ∧ j < i + (n + 1)) := by
            omega
          simp only [hpoll, hrange]
        · rw [if_neg (fun h => hij (by omega)), if_neg (fun h => hij h.1.1)]

/-! ## The whole call -/

theorem length_readTransfer_header (chip : Byte) (addr : Word) (alen len : Int) :
    (readTransfer chip addr alen len).header.length = alen.toNat + 2 := by
  simp only [readTransfer, List.length_append, length_addrSteps,
    List.length_singleton]
  omega

/-- The buffer after a call, by whether it got through its header. -/
theorem i2cRead_buffer (ctl : Controller) (s : Board) (chip : Byte) (addr : Word)
    (alen : Int) (buffer : List Byte) (len mode : Int) :
    ((Call.read chip addr alen buffer len mode).HeaderAcked ctl s →
      (i2cRead ctl chip addr alen buffer len mode s).2.1 =
        storeReceived ((initIfPending mode s).session ctl mode) len len.toNat 0
          (s.polls + alen.toNat + 2) buffer) ∧
    (¬(Call.read chip addr alen buffer len mode).HeaderAcked ctl s →
      (i2cRead ctl chip addr alen buffer len mode s).2.1 = buffer) := by
  have hopened : (readTransfer chip addr alen len).opened
        ((initIfPending mode s).session ctl mode) (initIfPending mode s).polls = true ↔
      (Call.read chip addr alen buffer len mode).HeaderAcked ctl s := by
    rw [readTransfer_opened_iff]
    simp only [Board.session, initIfPending_polls, initIfPending_i2cBusNum,
      Call.HeaderAcked]
  simp only [i2cRead_eq, length_readTransfer_header]
  constructor
  · intro hacked
    rw [if_pos (hopened.mpr hacked), initIfPending_polls, Nat.add_assoc]
  · intro hnak
    rw [if_neg (fun h => hnak (hopened.mp h))]

/-- A call that returns `0` sent the whole frame and received every byte. -/
theorem i2cRead_of_ret (ctl : Controller) (s : Board) (chip : Byte) (addr : Word)
    (alen : Int) (buffer : List Byte) (len : Int)
    (hret : (i2cRead ctl chip addr alen buffer len masterm s).1 = 0) :
    commands (s.since (i2cRead ctl chip addr alen buffer len masterm s).2.2) =
        readFrame chip addr alen.toNat len.toNat ++ [stopPair] ∧
      (Call.read chip addr alen buffer len masterm).HeaderAcked ctl s ∧
      ∀ i < len.toNat, ctl.Arrives s.i2cBusNum (s.polls + alen.toNat + 2 + i) := by
  let T := readTransfer chip addr alen len
  let S := (initIfPending masterm s).session ctl masterm
  have hS : S.busNum = s.i2cBusNum := initIfPending_i2cBusNum masterm s
  have hpolls : (initIfPending masterm s).polls = s.polls :=
    initIfPending_polls masterm s
  simp only [i2cRead_eq, hpolls] at hret ⊢
  obtain ⟨hopened, hperformed⟩ := performed_of_ret T S s.polls hret
  refine ⟨?_, ?_, ?_⟩
  · rw [commands_since_transfer ctl masterm T (initIfPending_accesses masterm s)
      (filterMap_pendingLog s), hpolls, hperformed, readTransfer_commands,
      if_pos hopened, stopPair]
  · have hacked := (readTransfer_opened_iff ..).mp hopened
    rw [hS] at hacked
    exact hacked
  · intro i hi
    have hbody : T.bodyOk S s.polls = true := by
      rw [Transfer.ret_of_opened hopened, retOf_eq_zero] at hret
      exact hret
    have hlength : T.body.length = len.toNat := by
      simp [T, readTransfer, receiveSteps]
    have hok := (allOk_iff ..).mp hbody i (by omega)
    simp only [T, readTransfer, receiveSteps, List.getElem_map, ok_receive_iff,
      hS, List.length_append, length_addrSteps, List.length_singleton] at hok
    rwa [show s.polls + alen.toNat + 2 + i =
      s.polls + (1 + (alen.toNat + 1)) + i by omega]

/-- **`i2c_read`, whole transfer in master mode.**  A call that returns `0` sent
the reference frame and then one stop, and filled the buffer with the bytes that
arrived.  A call that entered the receive loop overwrote exactly the elements
whose receive succeeded, one that did not overwrote none, and no call touches an
element from `len` on. -/
theorem i2cRead_reads_back (ctl : Controller) (s : Board) (chip : Byte)
    (addr : Word) (alen : Int) (buffer : List Byte) (len : Int)
    (hlen : len ≤ buffer.length) :
    let call := Call.read chip addr alen buffer len masterm
    let result := i2cRead ctl chip addr alen buffer len masterm s
    let first := s.polls + alen.toNat + 2
    (result.1 = 0 →
      commands (s.since result.2.2) =
          readFrame chip addr alen.toNat len.toNat ++ [stopPair] ∧
        ∀ i < len.toNat, result.2.1[i]? = some (ctl.arrived (first + i))) ∧
    (call.HeaderAcked ctl s →
      ∀ i < len.toNat, result.2.1[i]? =
        if ctl.Arrives s.i2cBusNum (first + i) then some (ctl.arrived (first + i))
        else buffer[i]?) ∧
    (¬call.HeaderAcked ctl s → result.2.1 = buffer) ∧
    result.2.1.length = buffer.length ∧
    ∀ i ≥ len.toNat, result.2.1[i]? = buffer[i]? := by
  intro call result first
  have hroom : 0 + len.toNat ≤ buffer.length := by omega
  obtain ⟨hentered, hskipped⟩ :=
    i2cRead_buffer ctl s chip addr alen buffer len masterm
  have hbusNum : ((initIfPending masterm s).session ctl masterm).busNum =
      s.i2cBusNum := initIfPending_i2cBusNum masterm s
  have helements : call.HeaderAcked ctl s → ∀ j, result.2.1[j]? =
      if j < len.toNat ∧ ctl.Arrives s.i2cBusNum (first + j) then
        some (ctl.arrived (first + j)) else buffer[j]? := by
    intro hacked j
    simp only [result, hentered hacked, storeReceived_getElem? _ _ _ _ _ _ _ hroom,
      hbusNum, Nat.sub_zero, Nat.zero_add, Nat.zero_le, true_and]
    rfl
  refine ⟨?_, ?_, hskipped, ?_, ?_⟩
  · intro hret
    obtain ⟨hcommands, hacked, harrives⟩ := i2cRead_of_ret _ _ _ _ _ _ _ hret
    refine ⟨hcommands, fun i hi => ?_⟩
    rw [helements hacked, if_pos ⟨hi, harrives i hi⟩]
  · intro hacked i hi
    rw [helements hacked]
    simp only [hi, true_and]
  · by_cases hacked : call.HeaderAcked ctl s
    · simp only [result, hentered hacked, length_storeReceived]
    · simp only [result, hskipped hacked]
  · intro i hi
    by_cases hacked : call.HeaderAcked ctl s
    · rw [helements hacked, if_neg (by omega)]
    · simp only [result, hskipped hacked]

/-- Reading two bytes at `0x1234` of chip `0x50`, every step being acknowledged. -/
theorem i2cRead_reads_back_acked :
    commands (bus3.since (i2cRead (Controller.answering 0x07) 0x50 0x1234 2
        [0, 0, 0] 2 masterm bus3).2.2) =
      [(some 0xA0, 0x03), (some 0x12, 0x02), (some 0x34, 0x02), (some 0xA1, 0x03),
        (none, 0x08), (none, 0x18), (none, 0x30)] := by
  refine ((i2cRead_reads_back (Controller.answering 0x07) bus3 0x50 0x1234 2
    [0, 0, 0] 2 (by decide)).1 ?_).1
  simp only [i2cRead_eq]
  exact ret_answering _ _ _ (initIfPending_i2cBusNum masterm bus3)

end BmcCodes.Uboot.AstI2c
