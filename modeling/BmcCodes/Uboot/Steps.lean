import BmcCodes.Lib.Script
import BmcCodes.Uboot.AstI2c

/-!
# The driver's helpers as steps of a transfer

`i2cStart`, `i2cSendByte` and `i2cReceiveByte` each issue one command, poll
once, and report whether the status word has a bit of their mask.  This file
names what they do, `Step`, and gives each helper and each loop a closed form:
its result, and the board `after` a number of polls and a list of accesses.

What a step does depends on the controller, the mode and the current bus only,
none of which a transfer changes once it is under way; they form its `Session`.
-/

namespace BmcCodes.Uboot.AstI2c

open BmcCodes.Lib.Script

/-! ## Boards after some accesses -/

/-- `s` after `k` more polls and the accesses `l`. -/
def Board.after (s : Board) (k : Nat) (l : List Access) : Board :=
  { s with polls := s.polls + k, accesses := s.accesses ++ l }

section After

variable (s : Board) (k : Nat) (l : List Access)

@[simp] theorem after_i2cBusNum : (s.after k l).i2cBusNum = s.i2cBusNum := rfl
@[simp] theorem after_i2cBusBaseAddr :
    (s.after k l).i2cBusBaseAddr = s.i2cBusBaseAddr := rfl
@[simp] theorem after_polls : (s.after k l).polls = s.polls + k := rfl
@[simp] theorem after_accesses :
    (s.after k l).accesses = s.accesses ++ l := rfl

@[simp] theorem after_zero_nil : s.after 0 [] = s := by
  simp [Board.after]

@[simp] theorem after_after (k' : Nat) (l' : List Access) :
    (s.after k l).after k' l' = s.after (k + k') (l ++ l') := by
  simp [Board.after, Nat.add_assoc]

theorem log_eq_after (a : Access) : s.log a = s.after 0 [a] := rfl

theorem writeBus_eq_after (r : BusReg) (v : Word) :
    s.writeBus r v = s.after 0 [.write (.bus s.i2cBusBaseAddr r) v] := rfl

end After

/-! ## One poll -/

/-- `I2C_DISR` reports an interrupt of the bus at reading `i` of poll `p`. -/
def Controller.raised (ctl : Controller) (busNum : Int) (p i : Nat) : Bool :=
  ctl.disr p i &&& shl 0x01 busNum ≠ 0

/-- The status word of poll `p`: `I2C_ISR` after the first reading that reports
an interrupt of the bus, and `0` if none within the limit does. -/
def Controller.status (ctl : Controller) (busNum : Int) (p : Nat) : Word :=
  (((List.range' 0 pollLimit).find? (ctl.raised busNum p)).map (ctl.isr p)).getD 0

/-- The accesses of the polling loop, with `n` readings left from number `i`. -/
def Controller.readings (ctl : Controller) (busNum base : Int) (p : Nat) :
    (n i : Nat) → List Access
  | 0, _ => []
  | n + 1, i =>
      .read .disr (ctl.disr p i) ::
        if ctl.raised busNum p i then [.read (.bus base .isr) (ctl.isr p i)]
        else ctl.readings busNum base p n (i + 1)

/-- The accesses of one poll: the readings, and the acknowledgement. -/
def Controller.pollLog (ctl : Controller) (busNum base : Int) (p : Nat) :
    List Access :=
  ctl.readings busNum base p pollLimit 0 ++ [.write (.bus base .isr) 0xFFFFFFFF]

theorem pollLoop_eq (ctl : Controller) (n i : Nat) (s : Board) :
    pollLoop ctl n i s =
      ((((List.range' i n).find? (ctl.raised s.i2cBusNum s.polls)).map
          (ctl.isr s.polls)).getD 0,
        s.after 0 (ctl.readings s.i2cBusNum s.i2cBusBaseAddr s.polls n i)) := by
  induction n generalizing i s with
  | zero => simp [pollLoop, Controller.readings]
  | succ n ih =>
      have hraised : (ctl.disr s.polls i &&& shl 0x01 s.i2cBusNum ≠ 0) ↔
          ctl.raised s.i2cBusNum s.polls i = true := by
        simp [Controller.raised]
      simp only [pollLoop, log_eq_after, ih, after_i2cBusNum, after_polls,
        after_i2cBusBaseAddr, after_after, Nat.add_zero, Controller.readings,
        List.range'_succ, List.find?_cons, hraised]
      cases ctl.raised s.i2cBusNum s.polls i <;> simp

theorem i2cInterruptStatus_eq (ctl : Controller) (s : Board) :
    i2cInterruptStatus ctl s =
      (ctl.status s.i2cBusNum s.polls,
        s.after 1 (ctl.pollLog s.i2cBusNum s.i2cBusBaseAddr s.polls)) := by
  simp [i2cInterruptStatus, pollLoop_eq, writeBus_eq_after, Controller.status,
    Controller.pollLog, Board.after]

/-- An interrupt at the first reading ends the poll at once. -/
theorem status_of_raised_first (ctl : Controller) (busNum : Int) (p : Nat)
    (h : ctl.raised busNum p 0 = true) : ctl.status busNum p = ctl.isr p 0 := by
  have hrange : List.range' 0 pollLimit = 0 :: List.range' 1 99999 := by
    rw [pollLimit, show 100000 = 99999 + 1 from rfl, List.range'_succ]
  rw [Controller.status, hrange, List.find?_cons, h]
  rfl

/-! ## Steps -/

/-- A command of the driver to the controller. -/
inductive Step where
  /-- Claim the bus and send the chip address with the direction bit. -/
  | start (chip readWrite : Byte)
  | send (byte : Byte)
  | receive (last : Int)
  deriving DecidableEq, Repr

/-- The circumstances of a transfer that it does not change itself. -/
structure Session where
  ctl : Controller
  mode : Int
  busNum : Int
  base : Int

/-- The session of a transfer that finds the board in state `s`. -/
def Board.session (s : Board) (ctl : Controller) (mode : Int) : Session :=
  ⟨ctl, mode, s.i2cBusNum, s.i2cBusBaseAddr⟩

@[simp] theorem after_session (s : Board) (k : Nat) (l : List Access)
    (ctl : Controller) (mode : Int) :
    (s.after k l).session ctl mode = s.session ctl mode := rfl

@[simp] theorem session_base (s : Board) (ctl : Controller) (mode : Int) :
    (s.session ctl mode).base = s.i2cBusBaseAddr := rfl

/-- What a step loads into `I2C_TRBB`, if anything, and the command it then
writes to `I2C_CSR`. -/
def Step.command (mode : Int) : Step → Option Word × Word
  | .start chip readWrite =>
      (some (chip.setWidth 32 <<< 1 ||| (readWrite.setWidth 32 &&& 0x1)), 0x03)
  | .send byte =>
      (some (byte.setWidth 32 &&& 0x000000FF),
        if slavem = mode then 1 <<< 2 else 1 <<< 1)
  | .receive last =>
      (none, if masterm = mode then 0x08 ||| shl (BitVec.ofInt 32 last) 4
        else shl (BitVec.ofInt 32 last) 4)

/-- The writes that issue a command in the window at `base`. -/
def issue (base : Int) (c : Option Word × Word) : List Access :=
  match c.1 with
  | some v => [.write (.bus base .trbb) v, .write (.bus base .csr) c.2]
  | none => [.write (.bus base .csr) c.2]

/-- The status bits that mean success. -/
def Step.ackMask : Step → Word
  | .start _ _ => 0x01
  | .send _ => 0x03
  | .receive _ => 0x04

/-- Step `x` succeeds if it is the one that makes poll `p`. -/
def Session.ok (S : Session) (p : Nat) (x : Step) : Bool :=
  S.ctl.status S.busNum p &&& x.ackMask ≠ 0

/-- Bits `[15:8]` of `I2C_TRBB` as a receive that made poll `p` reads it. -/
def Session.received (S : Session) (p : Nat) : Byte :=
  ((S.ctl.trbb (p + 1) &&& 0x0000FF00) >>> 8).setWidth 8

/-- The data a successful step fetches after its poll. -/
def Session.fetch (S : Session) (p : Nat) (x : Step) : List Access :=
  match x with
  | .receive _ =>
      if S.ok p x then [.read (.bus S.base .trbb) (S.ctl.trbb (p + 1))] else []
  | _ => []

/-- The accesses of step `x` when it makes poll `p`. -/
def Session.emit (S : Session) (p : Nat) (x : Step) : List Access :=
  issue S.base (x.command S.mode) ++ S.ctl.pollLog S.busNum S.base p ++ S.fetch p x

/-- The value a C function returns for success or failure. -/
def retOf (ok : Bool) : Int := if ok then 0 else 1

@[simp] theorem retOf_eq_zero (ok : Bool) : retOf ok = 0 ↔ ok = true := by
  cases ok <;> simp [retOf]

variable (ctl : Controller) (mode : Int) (s : Board)

theorem i2cStart_eq (chip readWrite : Byte) :
    i2cStart ctl chip readWrite s =
      (retOf ((s.session ctl mode).ok s.polls (.start chip readWrite)),
        s.after 1 ((s.session ctl mode).emit s.polls (.start chip readWrite))) := by
  simp only [i2cStart, writeBus_eq_after, i2cInterruptStatus_eq, after_i2cBusNum,
    after_polls, after_i2cBusBaseAddr, after_after]
  simp only [Session.ok, Session.emit, Session.fetch, Step.command, Step.ackMask,
    issue, Board.session, retOf]
  split <;> simp_all

theorem i2cSendByte_eq (byte : Byte) :
    i2cSendByte ctl byte mode s =
      (retOf ((s.session ctl mode).ok s.polls (.send byte)),
        s.after 1 ((s.session ctl mode).emit s.polls (.send byte))) := by
  by_cases hmode : slavem = mode <;>
    simp only [i2cSendByte, writeBus_eq_after, i2cInterruptStatus_eq,
      after_i2cBusNum, after_polls, after_i2cBusBaseAddr, after_after, hmode,
      if_true, if_false, Session.ok, Session.emit, Session.fetch, Step.command,
      Step.ackMask, issue, Board.session, retOf]
  all_goals split <;> simp_all

theorem i2cReceiveByte_eq (last : Int) :
    i2cReceiveByte ctl last mode s =
      (retOf ((s.session ctl mode).ok s.polls (.receive last)),
        if (s.session ctl mode).ok s.polls (.receive last) then
          some ((s.session ctl mode).received s.polls) else none,
        s.after 1 ((s.session ctl mode).emit s.polls (.receive last))) := by
  by_cases hmode : masterm = mode <;>
    simp only [i2cReceiveByte, writeBus_eq_after, log_eq_after,
      i2cInterruptStatus_eq, after_i2cBusNum, after_polls, after_i2cBusBaseAddr,
      after_after, hmode, if_true, if_false, Session.ok, Session.emit,
      Session.fetch, Session.received, Step.command, Step.ackMask, issue,
      Board.session, retOf]
  all_goals split <;> simp_all

theorem i2cStop_eq :
    i2cStop s = s.after 0 (issue s.i2cBusBaseAddr (none, 0x30)) := rfl

/-! ## Loops -/

/-- The address bytes that the address loop sends from iteration `i` on, with
`n` iterations left. -/
def addrSteps (addr : Word) (alen : Int) (n i : Nat) : List Step :=
  (List.range' i n).map fun j => .send (addrByte addr alen j)

/-- The data bytes that the loop of `i2c_write` sends. -/
def dataSteps (buffer : List Byte) (n i : Nat) : List Step :=
  (List.range' i n).map fun j => .send (buffer.getD j 0)

/-- The flag `last` of iteration `i` of the loop of `i2c_read`. -/
def lastFlag (len : Int) (i : Nat) : Int := if (i : Int) < len - 1 then 0 else 1

def receiveSteps (len : Int) (n i : Nat) : List Step :=
  (List.range' i n).map fun j => .receive (lastFlag len j)

/-- The address loop performs its bytes up to the first failure. -/
theorem sendAddr_eq (addr : Word) (alen : Int) (n i : Nat) :
    sendAddr ctl addr alen mode n i s =
      (retOf (allOk (s.session ctl mode).ok s.polls (addrSteps addr alen n i)),
        s.after
          (attempted (s.session ctl mode).ok s.polls (addrSteps addr alen n i)).length
          (trace (s.session ctl mode).emit s.polls
            (attempted (s.session ctl mode).ok s.polls
              (addrSteps addr alen n i)))) := by
  induction n generalizing i s with
  | zero => simp [sendAddr, addrSteps, retOf]
  | succ n ih =>
      have hsteps : addrSteps addr alen (n + 1) i =
          .send (addrByte addr alen i) :: addrSteps addr alen n (i + 1) := by
        simp [addrSteps, List.range'_succ]
      rw [sendAddr, i2cSendByte_eq, hsteps, allOk_cons, attempted_cons]
      simp only [ih, after_session, after_polls, after_after]
      cases (s.session ctl mode).ok s.polls (.send (addrByte addr alen i)) <;>
        simp [retOf, trace_cons, Nat.add_comm 1]

/-- The data loop of `i2c_write` performs all its bytes. -/
theorem sendData_eq (buffer : List Byte) (n i : Nat) (ret : Int) :
    sendData ctl buffer mode n i ret s =
      (if allOk (s.session ctl mode).ok s.polls (dataSteps buffer n i) then ret
        else 1,
        s.after n
          (trace (s.session ctl mode).emit s.polls (dataSteps buffer n i))) := by
  induction n generalizing i s ret with
  | zero => simp [sendData, dataSteps]
  | succ n ih =>
      have hsteps : dataSteps buffer (n + 1) i =
          .send (buffer.getD i 0) :: dataSteps buffer n (i + 1) := by
        simp [dataSteps, List.range'_succ]
      rw [sendData, i2cSendByte_eq, hsteps, allOk_cons, trace_cons]
      simp only [ih, after_session, after_polls, after_after, Nat.add_comm 1]
      cases (s.session ctl mode).ok s.polls (.send (buffer.getD i 0)) <;>
        simp [retOf]

/-- The buffer after the receive loop: iteration `i` stores what its step
received, if it succeeded. -/
def storeReceived (S : Session) (len : Int) : (n i p : Nat) → List Byte → List Byte
  | 0, _, _, buffer => buffer
  | n + 1, i, p, buffer =>
      storeReceived S len n (i + 1) (p + 1)
        (if S.ok p (.receive (lastFlag len i)) then buffer.set i (S.received p)
          else buffer)

/-- The receive loop performs all its steps, and stores what they receive. -/
theorem receiveData_eq (len : Int) (n i : Nat) (ret : Int) (buffer : List Byte) :
    receiveData ctl len mode n i ret buffer s =
      (if allOk (s.session ctl mode).ok s.polls (receiveSteps len n i) then ret
        else 1,
        storeReceived (s.session ctl mode) len n i s.polls buffer,
        s.after n
          (trace (s.session ctl mode).emit s.polls (receiveSteps len n i))) := by
  induction n generalizing i s ret buffer with
  | zero => simp [receiveData, receiveSteps, storeReceived]
  | succ n ih =>
      have hsteps : receiveSteps len (n + 1) i =
          .receive (lastFlag len i) :: receiveSteps len n (i + 1) := by
        simp [receiveSteps, List.range'_succ]
      rw [receiveData, i2cReceiveByte_eq, hsteps, allOk_cons, trace_cons]
      simp only [ih, after_session, after_polls, after_after, Nat.add_comm 1,
        storeReceived, ← lastFlag.eq_1]
      cases (s.session ctl mode).ok s.polls (.receive (lastFlag len i)) <;>
        simp [retOf]

/-! ## Transfers -/

/-- Perform the steps `xs` up to the first failure, and go on with `k` if there
is none and with `e` otherwise. -/
def Board.guarded {α : Type*} (xs : List Step) (e k : Board → α) : α :=
  let S := s.session ctl mode
  let done := attempted S.ok s.polls xs
  let s' := s.after done.length (trace S.emit s.polls done)
  if allOk S.ok s.polls xs then k s' else e s'

/-- Two guards with the same way out are one guard. -/
theorem guarded_append {α : Type*} (xs ys : List Step) (e k : Board → α) :
    s.guarded ctl mode (xs ++ ys) e k =
      s.guarded ctl mode xs e fun s => s.guarded ctl mode ys e k := by
  simp only [Board.guarded, attempted_append, allOk_append]
  by_cases h : allOk (s.session ctl mode).ok s.polls xs = true
  · simp [attempted_of_allOk _ _ _ h, trace_append, h]
  · simp [h]

/-- The early returns of the source after `i2c_start` and after the address
loop are guards. -/
theorem guarded_start {α : Type*} (chip readWrite : Byte) (e k : Board → α) :
    (if (i2cStart ctl chip readWrite s).1 ≠ 0 then
        e (i2cStart ctl chip readWrite s).2
      else k (i2cStart ctl chip readWrite s).2) =
      s.guarded ctl mode [.start chip readWrite] e k := by
  simp only [i2cStart_eq ctl mode, Board.guarded, allOk_cons, attempted_cons]
  by_cases h : (s.session ctl mode).ok s.polls (.start chip readWrite) = true <;>
    simp [retOf, trace_cons, h]

theorem guarded_sendAddr {α : Type*} (addr : Word) (alen : Int) (n i : Nat)
    (e k : Board → α) :
    (if (sendAddr ctl addr alen mode n i s).1 ≠ 0 then
        e (sendAddr ctl addr alen mode n i s).2
      else k (sendAddr ctl addr alen mode n i s).2) =
      s.guarded ctl mode (addrSteps addr alen n i) e k := by
  simp only [sendAddr_eq, Board.guarded]
  by_cases h : allOk (s.session ctl mode).ok s.polls (addrSteps addr alen n i) =
      true <;>
    simp [retOf, h]

/-- What the interface functions do once the controller is initialised.  The
first failure among the steps of the header ends the call at once; a failure in
the body is remembered, and the stop command follows. -/
structure Transfer where
  header : List Step
  body : List Step

namespace Transfer

variable (T : Transfer) (S : Session) (p : Nat)

/-- Every step of the header succeeds. -/
def opened : Bool := allOk S.ok p T.header

/-- Every step of the body succeeds. -/
def bodyOk : Bool := allOk S.ok (p + T.header.length) T.body

/-- The steps that are performed when the first one makes poll `p`. -/
def performed : List Step :=
  attempted S.ok p T.header ++ if T.opened S p then T.body else []

def ret : Int := retOf (T.opened S p && T.bodyOk S p)

/-- The stop command, which only an opened transfer reaches. -/
def stopLog : List Access :=
  if T.opened S p then issue S.base (none, 0x30) else []

def log : List Access := trace S.emit p (T.performed S p) ++ T.stopLog S p

variable {T S p}

theorem ret_of_opened (h : T.opened S p = true) :
    T.ret S p = retOf (T.bodyOk S p) := by
  rw [ret, h, Bool.true_and]

theorem ret_of_not_opened (h : ¬T.opened S p = true) : T.ret S p = 1 := by
  rw [Bool.not_eq_true] at h
  rw [ret, h, Bool.false_and]
  rfl

end Transfer

/-- The board after the transfer `T`. -/
def Board.transfer (T : Transfer) : Board :=
  s.after (T.performed (s.session ctl mode) s.polls).length
    (T.log (s.session ctl mode) s.polls)

/-- A guard whose way on performs the body and stops the bus is a transfer;
`k` may also look at the session and at the poll the body starts with. -/
theorem guarded_eq_transfer {α : Type*} (T : Transfer) (e : Board → α)
    (k : Session → Nat → Board → α) :
    (s.guarded ctl mode T.header e fun s =>
        k (s.session ctl mode) s.polls (i2cStop (s.after T.body.length
          (trace (s.session ctl mode).emit s.polls T.body)))) =
      if T.opened (s.session ctl mode) s.polls then
        k (s.session ctl mode) (s.polls + T.header.length) (s.transfer ctl mode T)
      else e (s.transfer ctl mode T) := by
  simp only [Board.guarded, Board.transfer, Transfer.log, Transfer.performed,
    Transfer.stopLog, Transfer.opened]
  by_cases h : allOk (s.session ctl mode).ok s.polls T.header = true
  · simp [attempted_of_allOk _ _ _ h, trace_append, i2cStop_eq, h]
  · simp [h]

/-- `i2c_probe` stops the bus whether or not the chip answered. -/
def probeTransfer (chip : Byte) : Transfer :=
  ⟨[], [.start chip i2cWriteFlag]⟩

def writeTransfer (chip : Byte) (addr : Word) (alen : Int) (buffer : List Byte)
    (len : Int) : Transfer :=
  ⟨[.start chip i2cWriteFlag] ++ addrSteps addr alen alen.toNat 0,
    dataSteps buffer len.toNat 0⟩

def readTransfer (chip : Byte) (addr : Word) (alen len : Int) : Transfer :=
  ⟨[.start chip i2cWriteFlag] ++ (addrSteps addr alen alen.toNat 0 ++
      [.start chip i2cReadFlag]),
    receiveSteps len len.toNat 0⟩

theorem i2cProbe_eq (chip : Byte) :
    i2cProbe ctl chip mode s =
      let s := realI2cInit i2cBusSpeed i2cBusSlaveaddr mode s
      ((probeTransfer chip).ret (s.session ctl mode) s.polls,
        s.transfer ctl mode (probeTransfer chip)) := by
  simp only [i2cProbe]
  generalize realI2cInit i2cBusSpeed i2cBusSlaveaddr mode s = s
  rw [i2cStart_eq ctl mode, i2cStop_eq]
  simp only [Board.transfer, Transfer.ret, Transfer.log, Transfer.performed,
    Transfer.opened, Transfer.bodyOk, Transfer.stopLog, probeTransfer, allOk_cons]
  cases (s.session ctl mode).ok s.polls (.start chip i2cWriteFlag) <;>
    simp [retOf, trace_cons, Board.session]

theorem i2cWrite_eq (chip : Byte) (addr : Word) (alen : Int)
    (buffer : List Byte) (len : Int) :
    i2cWrite ctl chip addr alen buffer len mode s =
      let T := writeTransfer chip addr alen buffer len
      let s := initIfPending mode s
      (T.ret (s.session ctl mode) s.polls, s.transfer ctl mode T) := by
  have hcode : i2cWrite ctl chip addr alen buffer len mode s =
      (initIfPending mode s).guarded ctl mode [.start chip i2cWriteFlag]
        (fun s => (1, s)) fun s =>
          s.guarded ctl mode (addrSteps addr alen alen.toNat 0)
            (fun s => (1, s)) fun s =>
              let r := sendData ctl buffer mode len.toNat 0 0 s
              (r.1, i2cStop r.2) := by
    simp only [i2cWrite, ← guarded_start, ← guarded_sendAddr]
  rw [hcode, ← guarded_append]
  simp only [sendData_eq]
  have hlen : (writeTransfer chip addr alen buffer len).body.length = len.toNat := by
    simp [writeTransfer, dataSteps]
  have h := guarded_eq_transfer ctl mode (initIfPending mode s)
    (writeTransfer chip addr alen buffer len) (fun s => ((1 : Int), s))
    (fun S p s => (retOf (allOk S.ok p (dataSteps buffer len.toNat 0)), s))
  rw [hlen] at h
  refine h.trans ?_
  by_cases hopen : (writeTransfer chip addr alen buffer len).opened
      ((initIfPending mode s).session ctl mode) (initIfPending mode s).polls = true
  · simp only [if_pos hopen, Transfer.ret_of_opened hopen]
    rfl
  · simp only [if_neg hopen, Transfer.ret_of_not_opened hopen]

theorem i2cRead_eq (chip : Byte) (addr : Word) (alen : Int)
    (buffer : List Byte) (len : Int) :
    i2cRead ctl chip addr alen buffer len mode s =
      let T := readTransfer chip addr alen len
      let s := initIfPending mode s
      let S := s.session ctl mode
      (T.ret S s.polls,
        if T.opened S s.polls then
          storeReceived S len len.toNat 0 (s.polls + T.header.length) buffer
        else buffer,
        s.transfer ctl mode T) := by
  have hcode : i2cRead ctl chip addr alen buffer len mode s =
      (initIfPending mode s).guarded ctl mode [.start chip i2cWriteFlag]
        (fun s => (1, buffer, s)) fun s =>
          s.guarded ctl mode (addrSteps addr alen alen.toNat 0)
            (fun s => (1, buffer, s)) fun s =>
              s.guarded ctl mode [.start chip i2cReadFlag]
                (fun s => (1, buffer, s)) fun s =>
                  let r := receiveData ctl len mode len.toNat 0 0 buffer s
                  (r.1, r.2.1, i2cStop r.2.2) := by
    simp only [i2cRead, ← guarded_start, ← guarded_sendAddr]
  rw [hcode]
  simp only [← guarded_append, receiveData_eq]
  have hlen : (readTransfer chip addr alen len).body.length = len.toNat := by
    simp [readTransfer, receiveSteps]
  have h := guarded_eq_transfer ctl mode (initIfPending mode s)
    (readTransfer chip addr alen len) (fun s => ((1 : Int), buffer, s))
    (fun S p s => (retOf (allOk S.ok p (receiveSteps len len.toNat 0)),
      storeReceived S len len.toNat 0 p buffer, s))
  rw [hlen] at h
  refine h.trans ?_
  by_cases hopen : (readTransfer chip addr alen len).opened
      ((initIfPending mode s).session ctl mode) (initIfPending mode s).polls = true
  · simp only [if_pos hopen, Transfer.ret_of_opened hopen]
    rfl
  · simp only [if_neg hopen, Transfer.ret_of_not_opened hopen]

end BmcCodes.Uboot.AstI2c
