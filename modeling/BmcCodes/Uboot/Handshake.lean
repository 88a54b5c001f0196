import BmcCodes.Lib.Machine
import BmcCodes.Lib.Monitor
import BmcCodes.Uboot.BusRelease
import BmcCodes.Uboot.Window

/-!
# The handshake with the controller

Every command but the stop is a handshake: a byte is loaded into `I2C_TRBB` if there is
one to send, the command is written to `I2C_CSR`, `I2C_DISR` is polled until it shows the
interrupt of the bus, and `I2C_ISR` is read once and cleared; a byte that has arrived is
fetched last.  A poll gives up after 100000 readings, and clears `I2C_ISR` all the same.

A monitor watches for this on the registers.  It has no objection to any run of the
driver, whatever is called in whatever order and whatever the controller answers
(`activities_handshake`).
-/

namespace BmcCodes.Uboot.AstI2c

open BmcCodes.Lib BmcCodes.Lib.Machine BmcCodes.Lib.Script

/-! ## The monitor -/

/-- Where a handshake in the window at `base` has got to. -/
inductive Phase where
  | idle
  /-- `I2C_TRBB` holds a byte to send. -/
  | loaded (base : Int)
  /-- A command is out, and so many readings of `I2C_DISR` are left. -/
  | polling (base : Int) (receive : Bool) (left : Nat)
  /-- The interrupt of the bus has been seen. -/
  | raised (base : Int) (receive : Bool)
  /-- `I2C_ISR` has been read, and says whether a byte has arrived. -/
  | answered (base : Int) (arrived : Bool)
  | arrived (base : Int)
  deriving DecidableEq, Repr

/-- The next phase, unless the access is out of place. -/
def handshake (busNum : Int) : Phase → Access → Option Phase
  | .idle, .read (.scu _) _ | .idle, .write (.scu _) _ => some .idle
  | .idle, .write (.bus base .trbb) _ => some (.loaded base)
  | .idle, .write (.bus base .csr) v =>
      if v = 0x30 then some .idle
      else if v ∈ [0x00, 0x10, 0x08, 0x18] then some (.polling base true pollLimit)
      else none
  -- the registers that are set up
  | .idle, .write (.bus _ _) _ => some .idle
  | .loaded base, .write (.bus base' .csr) v =>
      if base' = base ∧ v ∈ [0x03, 0x02, 0x04] then some (.polling base false pollLimit)
      else none
  | .polling base receive (left + 1), .read .disr v =>
      if v &&& shl 0x01 busNum ≠ 0 then some (.raised base receive)
      else some (.polling base receive left)
  -- the poll gives up
  | .polling base _ 0, .write (.bus base' .isr) v =>
      if base' = base ∧ v = 0xFFFFFFFF then some .idle else none
  | .raised base receive, .read (.bus base' .isr) v =>
      if base' = base then some (.answered base (receive && v &&& 0x04 ≠ 0)) else none
  | .answered base arrived, .write (.bus base' .isr) v =>
      if base' = base ∧ v = 0xFFFFFFFF then
        some (if arrived then .arrived base else .idle)
      else none
  | .arrived base, .read (.bus base' .trbb) _ => if base' = base then some .idle else none
  | _, _ => none

/-- The accesses are handshakes, from the first to the last. -/
def Handshakes (busNum : Int) (l : List Access) : Prop :=
  Monitor.run (handshake busNum) .idle l = some .idle

theorem handshakes_nil (busNum : Int) : Handshakes busNum [] := rfl

theorem Handshakes.append {busNum : Int} {l l' : List Access} (h : Handshakes busNum l)
    (h' : Handshakes busNum l') : Handshakes busNum (l ++ l') :=
  Monitor.run_append_of_loop h h'

/-! ## One step -/

/-- A step whose flag, if it is a receive, is a flag. -/
def Step.Flagged : Step → Prop
  | .receive last => last = 0 ∨ last = 1
  | _ => True

/-- The step is a receive. -/
def Step.isReceive : Step → Bool
  | .receive _ => true
  | _ => false

theorem run_issue (busNum base mode : Int) {x : Step} (hx : x.Flagged) :
    Monitor.run (handshake busNum) .idle (issue base (x.command mode)) =
      some (.polling base x.isReceive pollLimit) := by
  cases x with
  | start chip readWrite => simp [Step.command, issue, Monitor.run_cons, handshake, Step.isReceive]
  | send byte =>
      by_cases hmode : slavem = mode <;>
        simp [Step.command, issue, Monitor.run_cons, handshake, Step.isReceive, hmode]
  | receive last =>
      have hflag : shl (BitVec.ofInt 32 last) 4 ∈ [0x00, 0x10] := by
        rcases hx with rfl | rfl <;> decide
      rcases List.mem_pair.mp hflag with hlast | hlast <;> by_cases hmode : masterm = mode <;>
        simp [Step.command, issue, Monitor.run_cons, handshake, Step.isReceive, hmode, hlast]

/-- The polling loop ends with the status, or with no reading left. -/
theorem run_readings (ctl : Controller) (busNum base : Int) (receive : Bool) (p n i : Nat) :
    Monitor.run (handshake busNum) (.polling base receive n)
        (ctl.readings busNum base p n i) =
      some (match (List.range' i n).find? (ctl.raised busNum p) with
        | some j => .answered base (receive && ctl.isr p j &&& 0x04 ≠ 0)
        | none => .polling base receive 0) := by
  induction n generalizing i with
  | zero => rfl
  | succ n ih =>
      have hraised : (ctl.disr p i &&& shl 0x01 busNum ≠ 0) ↔
          ctl.raised busNum p i = true := by simp [Controller.raised]
      rw [Controller.readings, Monitor.run_cons, handshake, List.range'_succ, List.find?_cons]
      simp only [hraised]
      by_cases hi : ctl.raised busNum p i = true
      · rw [if_pos hi, if_pos hi, hi]
        simp [Monitor.run_cons, handshake]
      · rw [if_neg hi, if_neg hi, Option.bind_some, ih, (Bool.not_eq_true _).mp hi]

/-- A poll clears `I2C_ISR`, and leaves a byte to be fetched if one has arrived. -/
theorem run_pollLog (ctl : Controller) (busNum base : Int) (receive : Bool) (p : Nat) :
    Monitor.run (handshake busNum) (.polling base receive pollLimit)
        (ctl.pollLog busNum base p) =
      some (if receive && ctl.status busNum p &&& 0x04 ≠ 0 then .arrived base else .idle) := by
  rw [Controller.pollLog, Monitor.run_append, run_readings, Controller.status]
  cases (List.range' 0 pollLimit).find? (ctl.raised busNum p) with
  | none => simp [Monitor.run_cons, handshake]
  | some j => simp [Monitor.run_cons, handshake]

/-- **One step is one handshake.** -/
theorem handshakes_emit (S : Session) (p : Nat) {x : Step} (hx : x.Flagged) :
    Handshakes S.busNum (S.emit p x) := by
  rw [Handshakes, Session.emit, List.append_assoc, Monitor.run_append, run_issue _ _ _ hx,
    Option.bind_some, Monitor.run_append, run_pollLog, Option.bind_some]
  cases x with
  | start chip readWrite => rfl
  | send byte => rfl
  | receive last =>
      -- the monitor and the driver look at the same bit
      have hok : S.ok p (.receive last) = decide (S.ctl.status S.busNum p &&& 0x04 ≠ 0) := rfl
      rw [Session.fetch, hok, Step.isReceive, Bool.true_and]
      cases decide (S.ctl.status S.busNum p &&& 0x04 ≠ 0)
      · rfl
      · simp [Monitor.run_cons, handshake]

/-! ## Transfers -/

theorem handshakes_trace (S : Session) (p : Nat) {xs : List Step} (hxs : ∀ x ∈ xs, x.Flagged) :
    Handshakes S.busNum (trace S.emit p xs) := by
  induction xs generalizing p with
  | nil => exact handshakes_nil _
  | cons x xs ih =>
      rw [List.forall_mem_cons] at hxs
      rw [trace_cons]
      exact (handshakes_emit S p hxs.1).append (ih (p + 1) hxs.2)

theorem handshakes_stop (busNum base : Int) : Handshakes busNum (issue base (none, 0x30)) := rfl

/-- Initialising sets registers up, and issues no command. -/
theorem handshakes_initLog (busNum slaveadd : Int) (s : Board) :
    Handshakes busNum (initLog slaveadd s) := by
  unfold initLog pinLog
  split <;> rfl

theorem handshakes_log (T : Transfer) (S : Session) (p : Nat)
    (hT : ∀ x ∈ T.header ++ T.body, x.Flagged) : Handshakes S.busNum (T.log S p) := by
  rw [Transfer.log]
  refine (handshakes_trace S p fun x hx => hT x (mem_of_mem_performed hx)).append ?_
  unfold Transfer.stopLog
  split
  · exact handshakes_stop _ _
  · exact handshakes_nil _

theorem flagged_lastFlag (len : Int) (i : Nat) : (Step.receive (lastFlag len i)).Flagged := by
  unfold lastFlag
  split
  · exact .inl rfl
  · exact .inr rfl

theorem flagged_readTransfer (chip : Byte) (addr : Word) (alen len : Int) :
    ∀ x ∈ (readTransfer chip addr alen len).header ++
      (readTransfer chip addr alen len).body, x.Flagged :=
  forall_mem_readTransfer (fun _ _ => trivial) (fun _ => trivial) flagged_lastFlag _ _ _ _

theorem flagged_writeTransfer (chip : Byte) (addr : Word) (alen : Int) (buffer : List Byte)
    (len : Int) :
    ∀ x ∈ (writeTransfer chip addr alen buffer len).header ++
      (writeTransfer chip addr alen buffer len).body, x.Flagged :=
  forall_mem_writeTransfer (fun _ _ => trivial) (fun _ => trivial) _ _ _ _ _

/-! ## Calls -/

/-- `s'` comes after `s` by handshakes, and its bus is the same. -/
structure Proceeds (s s' : Board) : Prop where
  busNum : s'.i2cBusNum = s.i2cBusNum
  log : ∃ l, s'.accesses = s.accesses ++ l ∧ Handshakes s.i2cBusNum l

theorem Proceeds.refl (s : Board) : Proceeds s s :=
  ⟨rfl, [], (List.append_nil _).symm, handshakes_nil _⟩

theorem Proceeds.trans {s s' s'' : Board} (h : Proceeds s s') (h' : Proceeds s' s'') :
    Proceeds s s'' := by
  obtain ⟨hbusNum, l, hl, hhandshakes⟩ := h
  obtain ⟨hbusNum', l', hl', hhandshakes'⟩ := h'
  rw [hbusNum] at hbusNum' hhandshakes'
  exact ⟨hbusNum', l ++ l', by rw [hl', hl, List.append_assoc],
    hhandshakes.append hhandshakes'⟩

/-- The accesses of `l` are made, with any number of polls among them. -/
theorem proceeds_after (s : Board) (k : Nat) {l : List Access}
    (hl : Handshakes s.i2cBusNum l) : Proceeds s (s.after k l) :=
  ⟨rfl, l, after_accesses s k l, hl⟩

section Calls

variable (ctl : Controller) (mode : Int) (s : Board)

theorem realI2cInit_proceeds (speed slaveadd : Int) :
    Proceeds s (realI2cInit speed slaveadd mode s) :=
  ⟨realI2cInit_i2cBusNum speed slaveadd mode s, _, realI2cInit_accesses speed slaveadd mode s,
    handshakes_initLog _ _ s⟩

theorem initIfPending_proceeds : Proceeds s (initIfPending mode s) := by
  unfold initIfPending
  split
  · exact realI2cInit_proceeds ..
  · exact .refl s

theorem transfer_proceeds {T : Transfer} (hT : ∀ x ∈ T.header ++ T.body, x.Flagged) :
    Proceeds s (s.transfer ctl mode T) :=
  proceeds_after s _ (handshakes_log T (s.session ctl mode) _ hT)

theorem i2cSendByte_proceeds (byte : Byte) : Proceeds s (i2cSendByte ctl byte mode s).2 := by
  rw [i2cSendByte_eq]
  exact proceeds_after s 1 (handshakes_emit (s.session ctl mode) _ (x := .send byte) trivial)

theorem i2cReceiveByte_proceeds {last : Int} (hlast : last = 0 ∨ last = 1) :
    Proceeds s (i2cReceiveByte ctl last mode s).2.2 := by
  rw [i2cReceiveByte_eq]
  exact proceeds_after s 1 (handshakes_emit (s.session ctl mode) _ (x := .receive last) hlast)

theorem i2cProbe_proceeds (chip : Byte) : Proceeds s (i2cProbe ctl chip mode s).2 := by
  rw [i2cProbe_eq]
  exact (realI2cInit_proceeds ..).trans
    (transfer_proceeds ctl mode _ (by simp [probeTransfer, Step.Flagged]))

theorem i2cRead_proceeds (chip : Byte) (addr : Word) (alen : Int) (buffer : List Byte)
    (len : Int) : Proceeds s (i2cRead ctl chip addr alen buffer len mode s).2.2 := by
  rw [i2cRead_eq]
  exact (initIfPending_proceeds mode s).trans
    (transfer_proceeds ctl mode _ (flagged_readTransfer chip addr alen len))

theorem i2cWrite_proceeds (chip : Byte) (addr : Word) (alen : Int) (buffer : List Byte)
    (len : Int) : Proceeds s (i2cWrite ctl chip addr alen buffer len mode s).2 := by
  rw [i2cWrite_eq]
  exact (initIfPending_proceeds mode s).trans
    (transfer_proceeds ctl mode _ (flagged_writeTransfer chip addr alen buffer len))

theorem i2cRegRead_proceeds (addr reg : Byte) :
    Proceeds s (i2cRegRead ctl addr reg mode s).2 := by
  rw [i2cRegRead_snd]
  exact i2cRead_proceeds ..

/-- The loop of `do_slaverw` receives, and answers. -/
theorem slaveLoop_proceeds (n : Nat) (byte : Byte) :
    Proceeds s (slaveLoop ctl n byte s) := by
  induction n generalizing byte s with
  | zero => exact .refl s
  | succ n ih =>
      rw [slaveLoop]
      have hlast : (if 0x21 = byte then (1 : Int) else 0) = 0 ∨
          (if 0x21 = byte then (1 : Int) else 0) = 1 := by
        split
        · exact .inr rfl
        · exact .inl rfl
      generalize (if 0x21 = byte then (1 : Int) else 0) = last at hlast ⊢
      have hreceive := i2cReceiveByte_proceeds ctl slavem s hlast
      generalize i2cReceiveByte ctl last slavem s = r at hreceive ⊢
      obtain ⟨_, stored, s₁⟩ := r
      refine hreceive.trans ?_
      dsimp only
      split
      · refine (i2cSendByte_proceeds ctl slavem s₁ 0x00).trans ?_
        exact (i2cSendByte_proceeds ctl slavem _ 0x55).trans (ih _ 0)
      · exact ih s₁ _

end Calls

/-! ## Runs -/

/-- What can be done with the driver: a call of its interface, or a console command. -/
inductive Activity where
  | call (c : Call)
  | regRead (addr reg : Byte) (mode : Int)
  | regWrite (addr reg val : Byte) (mode : Int)
  | command (cmd : Command)

namespace Activity

def exec (ctl : Controller) (s : Board) : Activity → Board
  | .call c => c.run ctl s
  | .regRead addr reg mode => (i2cRegRead ctl addr reg mode s).2
  | .regWrite addr reg val mode => i2cRegWrite ctl addr reg val mode s
  | .command cmd => cmd.exec ctl s

/-- The bus whose interrupt is polled: a console command chooses one. -/
def busNum (s : Board) : Activity → Int
  | .command cmd => cmd.busNum
  | _ => s.i2cBusNum

theorem exec_handshakes (ctl : Controller) (s : Board) (a : Activity) :
    ∃ l, (a.exec ctl s).accesses = s.accesses ++ l ∧ Handshakes (a.busNum s) l := by
  cases a with
  | call c =>
      cases c with
      | probe chip mode => exact (i2cProbe_proceeds ctl mode s chip).log
      | read chip addr alen buffer len mode =>
          exact (i2cRead_proceeds ctl mode s chip addr alen buffer len).log
      | write chip addr alen buffer len mode =>
          exact (i2cWrite_proceeds ctl mode s chip addr alen buffer len).log
  | regRead addr reg mode => exact (i2cRegRead_proceeds ctl mode s addr reg).log
  | regWrite addr reg val mode =>
      exact (i2cWrite_proceeds ctl mode s addr (reg.setWidth 32) 1 [val] 1).log
  | command cmd =>
      cases cmd with
      | master bus =>
          exact (i2cRegRead_proceeds ctl masterm { s with i2cBusNum := bus.toInt } 0x10 0x30).log
      | slave bus n =>
          let s₁ := { s with i2cBusNum := bus.toInt }
          exact ((realI2cInit_proceeds slavem s₁ i2cBusSpeed i2cBusSlaveaddr).trans
            (slaveLoop_proceeds ctl _ n 0)).log

end Activity

/-! ## Readings -/

def Access.isReading : Access → Bool
  | .read .disr _ => true
  | _ => false

def Access.isCommand : Access → Bool
  | .write (.bus _ .csr) _ => true
  | _ => false

/-- The readings of `I2C_DISR` that are left. -/
def Phase.left : Phase → Nat
  | .polling _ _ left => left
  | _ => 0

/-- A reading is one of those that are left, and a command allows for as many as the
limit says. -/
theorem left_handshake (busNum : Int) (ph : Phase) (a : Access) (ph' : Phase)
    (h : handshake busNum ph a = some ph') :
    ph'.left + (if a.isReading then 1 else 0) ≤
      ph.left + if a.isCommand then pollLimit else 0 := by
  unfold handshake at h
  split at h <;> try split_ifs at h
  all_goals
    cases h
    try simp [Phase.left, Access.isReading, Access.isCommand]

theorem Handshakes.countP_le {busNum : Int} {l : List Access} (h : Handshakes busNum l) :
    l.countP Access.isReading ≤ pollLimit * l.countP Access.isCommand := by
  have hcount := Monitor.count_le_of_run (left_handshake busNum) h
  simpa [Phase.left] using hcount

/-- **Every run of the driver is made of handshakes**, whatever is called in whatever order
and whatever the controller answers, and reads `I2C_DISR` at most 100000 times for each
command. -/
theorem activities_handshake (ctl : Controller) (s : Board) (as : List Activity) :
    Each (Activity.exec ctl) (fun s a => Handshakes (a.busNum s) (s.since (a.exec ctl s))) s as ∧
      (s.since (as.foldl (Activity.exec ctl) s)).countP Access.isReading ≤
        pollLimit * (s.since (as.foldl (Activity.exec ctl) s)).countP Access.isCommand := by
  constructor
  · refine each_of_forall _ _ s fun s a _ => ?_
    obtain ⟨l, hl, hhandshakes⟩ := a.exec_handshakes ctl s
    rwa [since_eq hl]
  · obtain ⟨l, hl, hcount⟩ : ∃ l, (as.foldl (Activity.exec ctl) s).accesses = s.accesses ++ l ∧
        l.countP Access.isReading ≤ pollLimit * l.countP Access.isCommand := by
      induction as generalizing s with
      | nil => exact ⟨[], (List.append_nil _).symm, Nat.le_refl _⟩
      | cons a as ih =>
          obtain ⟨l, hl, hhandshakes⟩ := a.exec_handshakes ctl s
          obtain ⟨l', hl', hcount⟩ := ih (a.exec ctl s)
          have hfirst := hhandshakes.countP_le
          refine ⟨l ++ l', by rw [List.foldl_cons, hl', hl, List.append_assoc], ?_⟩
          rw [List.countP_append, List.countP_append, Nat.mul_add]
          omega
    rwa [since_eq hl]

end BmcCodes.Uboot.AstI2c
