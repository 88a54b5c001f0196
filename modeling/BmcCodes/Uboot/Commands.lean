import BmcCodes.Uboot.Steps

/-!
# The commands in an access log

The controller acts on what is written to `I2C_CSR`, together with the byte
that `I2C_TRBB` was loaded with for that command.  `commands` reads these pairs
off a log.  Polling and initialising contribute none, so the commands of a
transfer are those of the steps it performs, and of the stop if it is reached.
-/

namespace BmcCodes.Uboot.AstI2c

open BmcCodes.Lib.Script

/-! ## Reading commands off a log -/

/-- A write that loads the byte buffer, or one that issues a command. -/
inductive CommandWrite where
  | load (v : Word)
  | command (v : Word)
  deriving DecidableEq, Repr

def Access.commandWrite : Access → Option CommandWrite
  | .write (.bus _ .trbb) v => some (.load v)
  | .write (.bus _ .csr) v => some (.command v)
  | _ => none

/-- Each command with the byte loaded since the command before it, if any. -/
def pairUp : Option Word → List CommandWrite → List (Option Word × Word)
  | _, [] => []
  | _, .load v :: l => pairUp (some v) l
  | loaded, .command v :: l => (loaded, v) :: pairUp none l

/-- The successive `(I2C_TRBB, I2C_CSR)` pairs of a log. -/
def commands (l : List Access) : List (Option Word × Word) :=
  pairUp none (l.filterMap Access.commandWrite)

/-- The successive values written to `I2C_CSR`. -/
def csrWrites (l : List Access) : List Word :=
  l.filterMap fun
    | .write (.bus _ .csr) v => some v
    | _ => none

/-- The accesses made between two states of a run. -/
def Board.since (s s' : Board) : List Access :=
  s'.accesses.drop s.accesses.length

theorem since_eq {s s' : Board} {l : List Access}
    (h : s'.accesses = s.accesses ++ l) : s.since s' = l := by
  rw [Board.since, h, List.drop_left]

theorem csrWrites_eq_map_commands (l : List Access) :
    csrWrites l = (commands l).map Prod.snd := by
  suffices h : ∀ loaded, csrWrites l =
      (pairUp loaded (l.filterMap Access.commandWrite)).map Prod.snd from h none
  induction l with
  | nil => intro loaded; rfl
  | cons a l ih =>
      intro loaded
      have hcons : csrWrites (a :: l) = csrWrites [a] ++ csrWrites l := by
        simp only [csrWrites, ← List.filterMap_append, List.singleton_append]
      rw [hcons]
      cases a with
      | read r v => exact ih loaded
      | write r v =>
          cases r with
          | scu _ => exact ih loaded
          | disr => exact ih loaded
          | bus base r =>
              cases r
              case trbb => exact ih (some v)
              case csr => exact congrArg (v :: ·) (ih none)
              all_goals exact ih loaded

/-! ## The commands of steps and transfers -/

/-- The writes of a command pair. -/
def writesOf (c : Option Word × Word) : List CommandWrite :=
  match c.1 with
  | some v => [.load v, .command c.2]
  | none => [.command c.2]

theorem pairUp_writesOf (c : Option Word × Word) (l : List CommandWrite) :
    pairUp none (writesOf c ++ l) = c :: pairUp none l := by
  obtain ⟨_ | v, w⟩ := c <;> rfl

theorem pairUp_flatMap_writesOf (cs : List (Option Word × Word))
    (l : List CommandWrite) :
    pairUp none (cs.flatMap writesOf ++ l) = cs ++ pairUp none l := by
  induction cs with
  | nil => rfl
  | cons c cs ih =>
      rw [List.flatMap_cons, List.append_assoc, pairUp_writesOf, ih,
        List.cons_append]

theorem filterMap_issue (base : Int) (c : Option Word × Word) :
    (issue base c).filterMap Access.commandWrite = writesOf c := by
  obtain ⟨_ | v, w⟩ := c <;> rfl

theorem filterMap_readings (ctl : Controller) (busNum base : Int) (p n i : Nat) :
    (ctl.readings busNum base p n i).filterMap Access.commandWrite = [] := by
  induction n generalizing i with
  | zero => rfl
  | succ n ih =>
      rw [Controller.readings]
      split
      · rfl
      · exact ih (i + 1)

theorem filterMap_pollLog (ctl : Controller) (busNum base : Int) (p : Nat) :
    (ctl.pollLog busNum base p).filterMap Access.commandWrite = [] := by
  simp [Controller.pollLog, filterMap_readings, Access.commandWrite]

theorem filterMap_fetch (S : Session) (p : Nat) (x : Step) :
    (S.fetch p x).filterMap Access.commandWrite = [] := by
  unfold Session.fetch
  split
  · split <;> rfl
  · rfl

/-- A step contributes its own command and no other. -/
theorem filterMap_emit (S : Session) (p : Nat) (x : Step) :
    (S.emit p x).filterMap Access.commandWrite = writesOf (x.command S.mode) := by
  simp [Session.emit, List.filterMap_append, filterMap_issue, filterMap_pollLog,
    filterMap_fetch]

/-- **The commands of a transfer** are those of the steps it performs, followed
by the stop command if the transfer was opened. -/
theorem commands_log (T : Transfer) (S : Session) (p : Nat) :
    commands (T.log S p) =
      (T.performed S p).map (Step.command S.mode) ++
        if T.opened S p then [(none, 0x30)] else [] := by
  have hstop : (T.stopLog S p).filterMap Access.commandWrite =
      if T.opened S p then [.command 0x30] else [] := by
    unfold Transfer.stopLog
    split <;> simp [filterMap_issue, writesOf]
  rw [commands, Transfer.log, List.filterMap_append,
    filterMap_trace S.emit (filterMap_emit S), hstop, ← List.flatMap_map,
    pairUp_flatMap_writesOf]
  split <;> rfl

/-! ## Initialisation -/

/-- The accesses of `enablePins`. -/
def pinLog (s : Board) : List Access :=
  if s.i2cBusNum ≥ 2 then
    [.read (.scu 0x90) (s.scu 0x90),
      .write (.scu 0x90) ((if 9 ≤ s.i2cBusNum ∧ s.i2cBusNum ≤ 12 then
        s.scu 0x90 &&& ~~~0x01 else s.scu 0x90) ||| shl 0x4000 s.i2cBusNum)]
  else []

/-- The accesses of `real_i2c_init`. -/
def initLog (slaveadd : Int) (s : Board) : List Access :=
  let base := busBase s.i2cBusNum
  .write (.scu 0x00) 0x1688A8A8 :: pinLog s ++
  [.read (.scu 0x04) (s.scu 0x04),
    .write (.scu 0x04) (s.scu 0x04 &&& ~~~0x04),
    .write (.bus base .catcr1) 0x77777344,
    .write (.bus base .catcr2) 0x00000000,
    .write (.bus base .dr) (BitVec.ofInt 32 slaveadd),
    .write (.bus base .isr) 0xFFFFFFFF,
    .write (.bus base .fcr) (1 <<< 0 ||| 1 <<< 1 ||| 1 <<< 2),
    .write (.bus base .icr) 0x0000002F]

/-- Enabling the pins touches one SCU register and no other global. -/
theorem enablePins_spec (s : Board) :
    (enablePins s).i2cBusNum = s.i2cBusNum ∧
      (enablePins s).i2cBusBaseAddr = s.i2cBusBaseAddr ∧
      (enablePins s).polls = s.polls ∧
      (∀ o, o ≠ 0x90 → (enablePins s).scu o = s.scu o) ∧
      (enablePins s).accesses = s.accesses ++ pinLog s := by
  unfold enablePins pinLog
  split
  · refine ⟨rfl, rfl, rfl, fun o ho => if_neg ho, ?_⟩
    exact List.append_assoc s.accesses [_] [_]
  · exact ⟨rfl, rfl, rfl, fun _ _ => rfl, (List.append_nil _).symm⟩

section Init

variable (speed slaveadd mode : Int) (s : Board)

theorem realI2cInit_i2cInitPending :
    (realI2cInit speed slaveadd mode s).i2cInitPending = false := rfl

theorem realI2cInit_i2cBusNum :
    (realI2cInit speed slaveadd mode s).i2cBusNum = s.i2cBusNum := by
  simp only [realI2cInit, Board.writeBus, Board.writeScu, Board.readScu, Board.log]
  rw [(enablePins_spec _).1]

theorem realI2cInit_i2cBusBaseAddr :
    (realI2cInit speed slaveadd mode s).i2cBusBaseAddr = busBase s.i2cBusNum := by
  simp only [realI2cInit, Board.writeBus, Board.writeScu, Board.readScu, Board.log]
  rw [(enablePins_spec _).2.1]

theorem realI2cInit_polls :
    (realI2cInit speed slaveadd mode s).polls = s.polls := by
  simp only [realI2cInit, Board.writeBus, Board.writeScu, Board.readScu, Board.log]
  rw [(enablePins_spec _).2.2.1]

theorem realI2cInit_accesses :
    (realI2cInit speed slaveadd mode s).accesses =
      s.accesses ++ initLog slaveadd s := by
  obtain ⟨_, hbase, _, hscu, hlog⟩ :=
    enablePins_spec ({ s with i2cBusBaseAddr := busBase s.i2cBusNum }.writeScu
      0x00 0x1688A8A8)
  have hpins : pinLog ({ s with i2cBusBaseAddr := busBase s.i2cBusNum }.writeScu
      0x00 0x1688A8A8) = pinLog s := rfl
  simp only [realI2cInit, Board.writeBus, Board.writeScu, Board.readScu,
    Board.log] at *
  rw [hlog, hpins, hbase, hscu 0x04 (by decide)]
  simp [initLog]

/-- Initialising issues no command. -/
theorem filterMap_initLog :
    (initLog slaveadd s).filterMap Access.commandWrite = [] := by
  unfold initLog pinLog
  split <;> rfl

/-- The accesses `i2c_read` and `i2c_write` start with. -/
def pendingLog (s : Board) : List Access :=
  if s.i2cInitPending then initLog i2cBusSlaveaddr s else []

theorem initIfPending_i2cBusNum :
    (initIfPending mode s).i2cBusNum = s.i2cBusNum := by
  unfold initIfPending
  split
  · exact realI2cInit_i2cBusNum ..
  · rfl

theorem initIfPending_polls : (initIfPending mode s).polls = s.polls := by
  unfold initIfPending
  split
  · exact realI2cInit_polls ..
  · rfl

theorem initIfPending_accesses :
    (initIfPending mode s).accesses = s.accesses ++ pendingLog s := by
  unfold initIfPending pendingLog
  split
  · exact realI2cInit_accesses ..
  · simp

theorem filterMap_pendingLog :
    (pendingLog s).filterMap Access.commandWrite = [] := by
  unfold pendingLog
  split
  · exact filterMap_initLog ..
  · rfl

end Init

/-! ## The commands of a call -/

/-- The accesses of a call that initialises, with the accesses `l`, and then
carries out the transfer `T`. -/
theorem since_transfer (ctl : Controller) (mode : Int) (T : Transfer)
    {s s' : Board} {l : List Access} (haccesses : s'.accesses = s.accesses ++ l) :
    s.since (s'.transfer ctl mode T) = l ++ T.log (s'.session ctl mode) s'.polls := by
  apply since_eq
  rw [Board.transfer, after_accesses, haccesses, List.append_assoc]

/-- The commands of such a call, if it initialises without issuing any. -/
theorem commands_since_transfer (ctl : Controller) (mode : Int) (T : Transfer)
    {s s' : Board} {l : List Access} (haccesses : s'.accesses = s.accesses ++ l)
    (hquiet : l.filterMap Access.commandWrite = []) :
    commands (s.since (s'.transfer ctl mode T)) =
      (T.performed (s'.session ctl mode) s'.polls).map (Step.command mode) ++
        if T.opened (s'.session ctl mode) s'.polls then [(none, 0x30)] else [] := by
  have hcommands : commands (l ++ T.log (s'.session ctl mode) s'.polls) =
      commands (T.log (s'.session ctl mode) s'.polls) := by
    simp only [commands, List.filterMap_append, hquiet, List.nil_append]
  rw [since_transfer ctl mode T haccesses, hcommands, commands_log]
  rfl

end BmcCodes.Uboot.AstI2c
