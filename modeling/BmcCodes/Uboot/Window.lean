import BmcCodes.Lib.Machine
import BmcCodes.Uboot.BusRelease

/-!
# The register window of the console commands

`master b` and `slave b` set the bus number; the base address of the register
window is computed by `real_i2c_init` alone.  `do_slaverw` always calls it,
`do_masterrw` only through `i2c_read`, and thus only while initialisation is
pending.  A `master` command therefore works in whatever window the command
before it left behind.

The window in use is an abstract machine of its own, `useWindow`, which the
driver tracks (`Command.exec_spec`).  On it, the runs in which every command stays in
the window of its bus are those in which every `master` command names the bus
of its predecessor.
-/

namespace BmcCodes.Uboot.AstI2c

open BmcCodes.Lib BmcCodes.Lib.Machine BmcCodes.Lib.Script

/-! ## Windows of accesses -/

/-- The address of the first register of bus `b`. -/
def window (b : Int) : Int :=
  if b < 7 then 0x1E78A000 + 0x40 * (b + 1)
  else 0x1E78A000 + 0x100 + 0x40 * (b + 1)

theorem busBase_eq_window (b : Int) : busBase b = window b := by
  unfold busBase window astI2cRegBase
  split <;> split <;> omega

/-- No two buses share a window. -/
theorem window_injective : Function.Injective window := by
  intro b c h
  unfold window at h
  split at h <;> split at h <;> omega

/-- The windows of the per-bus registers accessed. -/
def windows (l : List Access) : List Int :=
  l.filterMap fun
    | .read (.bus base _) _ => some base
    | .write (.bus base _) _ => some base
    | _ => none

/-- Every per-bus access is in the window at `base`. -/
def Within (base : Int) (l : List Access) : Prop := ∀ b ∈ windows l, b = base

theorem windows_append (l l' : List Access) :
    windows (l ++ l') = windows l ++ windows l' := List.filterMap_append

theorem within_nil (base : Int) : Within base [] := by
  simp [Within, windows]

theorem within_append (base : Int) (l l' : List Access) :
    Within base (l ++ l') ↔ Within base l ∧ Within base l' := by
  rw [Within, windows_append, List.forall_mem_append]
  rfl

theorem within_issue (base : Int) (c : Option Word × Word) :
    Within base (issue base c) := by
  obtain ⟨_ | v, w⟩ := c <;> simp [Within, issue, windows]

theorem within_readings (ctl : Controller) (busNum base : Int) (p n i : Nat) :
    Within base (ctl.readings busNum base p n i) := by
  induction n generalizing i with
  | zero => exact within_nil base
  | succ n ih =>
      rw [Controller.readings]
      split
      · simp [Within, windows]
      · exact ih (i + 1)

theorem within_emit (S : Session) (p : Nat) (x : Step) :
    Within S.base (S.emit p x) := by
  have hpoll : Within S.base (S.ctl.pollLog S.busNum S.base p) := by
    rw [Controller.pollLog, within_append]
    exact ⟨within_readings _ _ _ _ _ _, by simp [Within, windows]⟩
  have hfetch : Within S.base (S.fetch p x) := by
    unfold Session.fetch
    split
    · split <;> simp [Within, windows]
    · exact within_nil _
  rw [Session.emit, within_append, within_append]
  exact ⟨⟨within_issue _ _, hpoll⟩, hfetch⟩

theorem within_trace (S : Session) (p : Nat) (xs : List Step) :
    Within S.base (trace S.emit p xs) := by
  induction xs generalizing p with
  | nil => exact within_nil _
  | cons x xs ih =>
      rw [trace_cons, within_append]
      exact ⟨within_emit S p x, ih (p + 1)⟩

theorem within_log (T : Transfer) (S : Session) (p : Nat) :
    Within S.base (T.log S p) := by
  rw [Transfer.log, within_append, Transfer.stopLog]
  refine ⟨within_trace S p _, ?_⟩
  split
  · exact within_issue _ _
  · exact within_nil _

/-- Initialising programs the window of the current bus. -/
theorem windows_initLog (slaveadd : Int) (s : Board) :
    windows (initLog slaveadd s) = List.replicate 6 (busBase s.i2cBusNum) := by
  unfold initLog pinLog
  split <;> rfl

theorem within_initLog (slaveadd : Int) (s : Board) :
    Within (busBase s.i2cBusNum) (initLog slaveadd s) := by
  rw [Within, windows_initLog]
  exact fun b hb => List.eq_of_mem_replicate hb

/-! ## Console commands -/

inductive Command where
  /-- `master b`, i.e. `do_masterrw`. -/
  | master (bus : Word)
  /-- `slave b`, i.e. `do_slaverw`, which `ctrlc` ends after `n` iterations. -/
  | slave (bus : Word) (n : Nat)
  deriving DecidableEq, Repr

/-- The bus number that the command stores. -/
def Command.busNum : Command → Int
  | .master bus => bus.toInt
  | .slave bus _ => bus.toInt

/-- The board when the command returns. -/
def Command.exec (ctl : Controller) (s : Board) : Command → Board
  | .master bus => (doMasterrw ctl 2 bus s).2.2
  | .slave bus n => (doSlaverw ctl 2 bus n s).2

/-- The command polls the interrupt bit of its bus, and every per-bus register
it accesses belongs to its bus. -/
def Command.Confined (ctl : Controller) (s : Board) (c : Command) : Prop :=
  (c.exec ctl s).i2cBusNum = c.busNum ∧
    ∀ b ∈ windows (s.since (c.exec ctl s)), b = window c.busNum

/-- The window in use after a command, and also while it runs: `slave` moves to
the window of its bus, `master` only if none is in use yet. -/
def useWindow (used : Option Int) : Command → Option Int
  | .master bus => some (used.getD (window bus.toInt))
  | .slave bus _ => some (window bus.toInt)

/-- The driver's globals agree on the window in use. -/
def Board.Uses (s : Board) (used : Option Int) : Prop :=
  s.i2cInitPending = used.isNone ∧ ∀ base ∈ used, s.i2cBusBaseAddr = base

theorem after_uses (s : Board) (k : Nat) (l : List Access) (used : Option Int) :
    (s.after k l).Uses used ↔ s.Uses used := Iff.rfl

/-! ## One command -/

/-- The loop of `do_slaverw` polls and stays in the current window. -/
theorem slaveLoop_spec (ctl : Controller) (n : Nat) (byte : Byte) (s : Board) :
    ∃ k l, slaveLoop ctl n byte s = s.after k l ∧ Within s.i2cBusBaseAddr l := by
  induction n generalizing byte s with
  | zero => exact ⟨0, [], (after_zero_nil s).symm, within_nil _⟩
  | succ n ih =>
      rw [slaveLoop]
      generalize (if 0x21 = byte then (1 : Int) else 0) = last
      simp only [i2cReceiveByte_eq, i2cSendByte_eq, after_session, after_polls,
        after_after]
      generalize Option.getD _ byte = received
      -- an answer of two bytes follows the byte 0x21
      split
      all_goals
        obtain ⟨k, l, hloop, hl⟩ := ih _ _
        refine ⟨_, _, hloop.trans (after_after ..), ?_⟩
        rw [after_i2cBusBaseAddr] at hl
        have hemit := within_emit (s.session ctl slavem)
        rw [session_base] at hemit
        simp only [within_append, hemit, hl, and_self]

/-- `i2c_read` and `i2c_write` start in the window in use, which is the one of
the current bus if initialisation was pending. -/
theorem initIfPending_uses (mode : Int) {s : Board} {used : Option Int}
    (hs : s.Uses used) :
    (initIfPending mode s).Uses (some (used.getD (window s.i2cBusNum))) ∧
      Within (used.getD (window s.i2cBusNum)) (pendingLog s) := by
  obtain ⟨hpending, hbase⟩ := hs
  cases used with
  | none =>
      rw [initIfPending, pendingLog, hpending, Option.isNone_none, if_pos rfl,
        if_pos rfl, Option.getD_none, ← busBase_eq_window]
      refine ⟨⟨realI2cInit_i2cInitPending .., ?_⟩, within_initLog _ s⟩
      rintro _ ⟨⟩
      exact realI2cInit_i2cBusBaseAddr ..
  | some base =>
      rw [initIfPending, pendingLog, hpending, Option.isNone_some,
        if_neg Bool.false_ne_true, if_neg Bool.false_ne_true, Option.getD_some]
      exact ⟨⟨hpending, hbase⟩, within_nil base⟩

/-- A transfer that begins with a start writes at least to `I2C_TRBB`. -/
theorem windows_log_ne_nil {T : Transfer} (S : Session) (p : Nat)
    {chip readWrite : Byte} {xs : List Step}
    (hheader : T.header = .start chip readWrite :: xs) :
    windows (T.log S p) ≠ [] := by
  obtain ⟨ys, hperformed⟩ : ∃ ys, T.performed S p = .start chip readWrite :: ys := by
    rw [Transfer.performed, hheader, attempted_cons]
    split <;> exact ⟨_, rfl⟩
  rw [Transfer.log, hperformed, trace_cons, Session.emit, Step.command, issue]
  simp [windows]

theorem i2cRegRead_snd (ctl : Controller) (addr reg : Byte) (mode : Int)
    (s : Board) :
    (i2cRegRead ctl addr reg mode s).2 =
      (i2cRead ctl addr (reg.setWidth 32) 1 [0] 1 mode s).2.2 := by
  simp only [i2cRegRead]
  split <;> rfl

/-- What a command does to the globals and where its per-bus accesses go: all
of them, and there are some, are in the window in use while it runs. -/
def Command.StaysInUse (c : Command) (ctl : Controller) (s : Board) (used : Option Int) :
    Prop :=
  (c.exec ctl s).Uses (useWindow used c) ∧
    (c.exec ctl s).i2cBusNum = c.busNum ∧
    ∃ l, (c.exec ctl s).accesses = s.accesses ++ l ∧ windows l ≠ [] ∧
      ∀ base ∈ useWindow used c, Within base l

/-- `do_masterrw` reads one byte in the window in use. -/
theorem master_staysInUse (ctl : Controller) (bus : Word) {s : Board} {used : Option Int}
    (hs : s.Uses used) : (Command.master bus).StaysInUse ctl s used := by
  let s' : Board := { s with i2cBusNum := bus.toInt }
  let T := readTransfer 0x10 0x30 1 1
  let S := (initIfPending masterm s').session ctl masterm
  have hexec : (Command.master bus).exec ctl s =
      (initIfPending masterm s').transfer ctl masterm T := by
    simp only [Command.exec, doMasterrw, ne_eq, not_true_eq_false, if_false,
      i2cRegRead_snd, i2cRead_eq]
    rfl
  have hs' : s'.Uses used := hs
  obtain ⟨huses, hinit⟩ := initIfPending_uses masterm hs'
  have hbase : S.base = used.getD (window bus.toInt) := huses.2 _ rfl
  unfold Command.StaysInUse
  rw [hexec, Board.transfer, after_uses, after_i2cBusNum, after_accesses,
    initIfPending_polls]
  refine ⟨huses, ?_, pendingLog s' ++ T.log S s.polls, ?_, ?_, ?_⟩
  · exact initIfPending_i2cBusNum masterm s'
  · rw [initIfPending_accesses, List.append_assoc]
  · rw [windows_append]
    exact List.append_ne_nil_of_right_ne_nil _ (windows_log_ne_nil _ _ rfl)
  · rintro _ ⟨⟩
    rw [within_append]
    refine ⟨hinit, ?_⟩
    rw [← hbase]
    exact within_log T S s.polls

/-- `do_slaverw` initialises the controller and loops in the window of its bus. -/
theorem slave_staysInUse (ctl : Controller) (bus : Word) (n : Nat) {s : Board}
    {used : Option Int} : (Command.slave bus n).StaysInUse ctl s used := by
  let s' := realI2cInit i2cBusSpeed i2cBusSlaveaddr slavem
    { s with i2cBusNum := bus.toInt }
  have huses : s'.Uses (some (window bus.toInt)) := by
    refine ⟨realI2cInit_i2cInitPending .., ?_⟩
    rintro _ ⟨⟩
    rw [← busBase_eq_window]
    exact realI2cInit_i2cBusBaseAddr ..
  have hbusNum : s'.i2cBusNum = bus.toInt := realI2cInit_i2cBusNum ..
  have haccesses : s'.accesses =
      s.accesses ++ initLog i2cBusSlaveaddr { s with i2cBusNum := bus.toInt } :=
    realI2cInit_accesses ..
  have hinit : Within (window bus.toInt)
      (initLog i2cBusSlaveaddr { s with i2cBusNum := bus.toInt }) := by
    rw [← busBase_eq_window]
    exact within_initLog i2cBusSlaveaddr { s with i2cBusNum := bus.toInt }
  obtain ⟨k, l, hloop, hl⟩ := slaveLoop_spec ctl n 0 s'
  have hexec : (Command.slave bus n).exec ctl s = s'.after k l := by
    rw [← hloop]
    simp only [Command.exec, doSlaverw, ne_eq, not_true_eq_false, if_false]
    rfl
  unfold Command.StaysInUse
  rw [hexec, after_uses, after_i2cBusNum, after_accesses, haccesses,
    List.append_assoc]
  refine ⟨huses, hbusNum, _, rfl, ?_, ?_⟩
  · rw [windows_append, windows_initLog]
    simp
  · rintro _ ⟨⟩
    rw [huses.2 _ rfl] at hl
    exact (within_append ..).mpr ⟨hinit, hl⟩

theorem Command.exec_spec (ctl : Controller) (c : Command) {s : Board}
    {used : Option Int} (hs : s.Uses used) : c.StaysInUse ctl s used := by
  cases c with
  | master bus => exact master_staysInUse ctl bus hs
  | slave bus n => exact slave_staysInUse ctl bus n

/-- A command stays in the window of its bus if and only if that is the window
in use while it runs. -/
theorem Command.confined_iff (ctl : Controller) (c : Command) {s : Board}
    {used : Option Int} (hs : s.Uses used) :
    c.Confined ctl s ↔ useWindow used c = some (window c.busNum) := by
  obtain ⟨_, hbusNum, l, haccesses, hsome, hwithin⟩ := c.exec_spec ctl hs
  obtain ⟨base, hused⟩ : ∃ base, useWindow used c = some base := by
    cases c <;> exact ⟨_, rfl⟩
  have hl : ∀ b ∈ windows l, b = base := hwithin base hused
  rw [Command.Confined, since_eq haccesses, hused, Option.some_inj]
  constructor
  · intro h
    obtain ⟨_, hconfined⟩ := h
    obtain ⟨b, hb⟩ := List.exists_mem_of_ne_nil _ hsome
    rw [← hl b hb, hconfined b hb]
  · rintro rfl
    exact ⟨hbusNum, hl⟩

/-! ## Runs -/

/-- `d` may directly follow `c`: a `master` command must name the same bus. -/
def Command.Follows (c d : Command) : Prop :=
  match d with
  | .master bus => bus.toInt = c.busNum
  | .slave _ _ => True

/-- On the abstract side, once the window of the last command is in use, the
windows fit as long as the commands follow each other. -/
theorem each_useWindow_iff (c : Command) (cmds : List Command) :
    Each useWindow (fun used d => useWindow used d = some (window d.busNum))
        (some (window c.busNum)) cmds ↔
      (c :: cmds).IsChain Command.Follows := by
  induction cmds generalizing c with
  | nil => simp
  | cons d cmds ih =>
      rw [each_cons, List.isChain_cons_cons]
      have hfollows : useWindow (some (window c.busNum)) d = some (window d.busNum) ↔
          c.Follows d := by
        cases d with
        | master bus =>
            simp only [useWindow, Option.getD_some, Option.some_inj,
              Command.Follows, Command.busNum, window_injective.eq_iff, eq_comm]
        | slave bus n => simp [useWindow, Command.Follows, Command.busNum]
      rw [hfollows]
      refine and_congr_right fun hd => ?_
      rw [hfollows.mpr hd, ih d]

/-- **Confined runs.**  From the module's initial state, every command of a run
accesses the window of its own bus only, if and only if every `master` command
but the first names the bus of the command directly before it. -/
theorem each_confined_iff_isChain_follows (ctl : Controller) (scu : Word → Word)
    (cmds : List Command) :
    Each (Command.exec ctl) (Command.Confined ctl) (Board.initial scu) cmds ↔
      cmds.IsChain Command.Follows := by
  have hinitial : (Board.initial scu).Uses none := ⟨rfl, by simp⟩
  rw [each_iff_of_tracks (fun _ _ c hs => (c.exec_spec ctl hs).1)
    (fun _ _ c hs => c.confined_iff ctl hs) hinitial]
  cases cmds with
  | nil => simp
  | cons c cmds =>
      have hfirst : useWindow none c = some (window c.busNum) := by
        cases c <;> rfl
      rw [each_cons, hfirst, each_useWindow_iff]
      exact and_iff_right rfl

/-- `master 0` and then `master 1`: the second command works in the window of
bus 0, while it polls the interrupt bit of bus 1. -/
theorem master_master_leaves_window :
    ¬ Each (Command.exec (Controller.answering 0x07))
        (Command.Confined (Controller.answering 0x07))
        (Board.initial fun _ => 0) [.master 0, .master 1] := by
  have hinitial : (Board.initial fun _ => 0).Uses none := ⟨rfl, by simp⟩
  have hfirst := ((Command.master 0).exec_spec (Controller.answering 0x07) hinitial).1
  rw [each_cons, each_cons, Command.confined_iff _ _ hfirst]
  intro h
  obtain ⟨_, hsecond, _⟩ := h
  exact absurd hsecond (by decide)

end BmcCodes.Uboot.AstI2c
