import BmcCodes.Lib.Monitor
import BmcCodes.Lib.SerialMemory
import BmcCodes.Uboot.ReadBack

/-!
# A bus of memory chips behind the registers

What the comments of the driver say of the registers, as a device: a command
that is written to `I2C_CSR` is signalled on the bus, its outcome sets a bit of
`I2C_ISR` until ones are written there, and a byte that arrives is found in bits
`[15:8]` of `I2C_TRBB`.  The device reads the log of the driver, and refuses it
as soon as a register is read with another value than it holds (`accesses`).

A step of the driver is one signal of the bus (`accesses_emit`), and a script of
steps is a run of it, which succeeds if the bus acknowledges or answers every
signal (`accesses_trace`).
-/

namespace BmcCodes.Uboot.AstI2c

open BmcCodes.Lib BmcCodes.Lib.Machine BmcCodes.Lib.Script
open BmcCodes.Lib.SerialMemory (Signal Answer Bus)

/-! ## The device -/

/-- The registers of one window, and the bus behind it. -/
structure Wire where
  /-- The byte in `I2C_TRBB` that goes out next. -/
  loaded : Byte
  /-- `I2C_ISR`. -/
  status : Word
  /-- The byte in `I2C_TRBB` that came in last. -/
  arrived : Byte
  bus : Bus (BitVec 7)

/-- What the command `v` signals: a start with the address and the direction
that were loaded, a byte, a request for one, or a stop. -/
def signalOf (loaded : Byte) (v : Word) : Option (Signal (BitVec 7)) :=
  if v.getLsbD 0 then some (.start (loaded.extractLsb' 1 7) (loaded.getLsbD 0))
  else if v.getLsbD 1 then some (.put loaded)
  else if v.getLsbD 3 then some .get
  else if v.getLsbD 5 then some .stop
  else none

/-- The bit of `I2C_ISR` that an outcome sets.  The stop interrupt is not enabled. -/
def statusBit : Answer → Word
  | .ack => 0x01
  | .nak => 0x02
  | .data _ => 0x04
  | .silent => 0x00

/-- The byte that came in last. -/
def arriving (old : Byte) : Answer → Byte
  | .data b => b
  | _ => old

section Device

variable (width : BitVec 7 → Option Nat)

def Wire.signal (w : Wire) (x : Signal (BitVec 7)) : Wire :=
  let (answer, bus) := SerialMemory.step width w.bus x
  { w with
    status := w.status ||| statusBit answer
    arrived := arriving w.arrived answer
    bus := bus }

/-- One access to the window at `base`; other registers are not the device's. -/
def Wire.access (base : Int) (w : Wire) : Access → Option Wire
  | .write (.bus b .trbb) v =>
      if b = base then some { w with loaded := v.setWidth 8 } else some w
  | .write (.bus b .csr) v =>
      if b = base then
        match signalOf w.loaded v with
        | some x => some (w.signal width x)
        | none => some w
      else some w
  -- ones clear bits
  | .write (.bus b .isr) v =>
      if b = base then some { w with status := w.status &&& ~~~v } else some w
  | .read (.bus b .isr) v => if b = base → v = w.status then some w else none
  | .read (.bus b .trbb) v =>
      if b = base → v.extractLsb' 8 8 = w.arrived then some w else none
  | _ => some w

/-- The device after a log, unless the log contradicts it. -/
def Wire.accesses (base : Int) (w : Wire) (l : List Access) : Option Wire :=
  Monitor.run (Wire.access width base) w l

variable {width} (base : Int) (w : Wire)

@[simp] theorem accesses_nil : w.accesses width base [] = some w := rfl

theorem accesses_cons (a : Access) (l : List Access) :
    w.accesses width base (a :: l) =
      (w.access width base a).bind (Wire.accesses width base · l) :=
  Monitor.run_cons w a l

theorem accesses_of_forall {l : List Access}
    (h : ∀ a ∈ l, w.access width base a = some w) : w.accesses width base l = some w :=
  Monitor.run_of_forall h

theorem accesses_append_eq_some {l l' : List Access} {w' : Wire}
    (h : w.accesses width base (l ++ l') = some w') :
    ∃ w₁, w.accesses width base l = some w₁ ∧ w₁.accesses width base l' = some w' :=
  Monitor.run_append_eq_some h

end Device

/-! ## One step -/

/-- The signal of a step of the driver. -/
def Step.signal : Step → Signal (BitVec 7)
  | .start chip readWrite => .start (chip.setWidth 7) (readWrite.getLsbD 0)
  | .send byte => .put byte
  | .receive _ => .get

/-- The byte in `I2C_TRBB` after the step has issued its command. -/
def Step.loading (old : Byte) (x : Step) : Byte :=
  ((x.command masterm).1.map (BitVec.setWidth 8)).getD old

/-- A start loads the address of the chip into bits `[7:1]`, and the direction into bit 0. -/
theorem startByte_fields (chip readWrite : Byte) :
    ((chip.setWidth 32 <<< 1 ||| (readWrite.setWidth 32 &&& 0x1 : Word)).setWidth 8).extractLsb'
        1 7 = chip.setWidth 7 ∧
      ((chip.setWidth 32 <<< 1 ||| (readWrite.setWidth 32 &&& 0x1 : Word)).setWidth 8).getLsbD
        0 = readWrite.getLsbD 0 := by
  constructor
  · apply BitVec.eq_of_getLsbD_eq
    intro i hi
    have hflag : (0x1 : Word).getLsbD (1 + i) = false := by
      interval_cases i <;> rfl
    simp only [BitVec.getLsbD_extractLsb', BitVec.getLsbD_setWidth, BitVec.getLsbD_or,
      BitVec.getLsbD_shiftLeft, BitVec.getLsbD_and, hflag, Bool.and_false, Bool.or_false]
    interval_cases i <;> simp
  · simp

/-- A command of the master signals what its step stands for. -/
theorem signalOf_command (old : Byte) (x : Step) :
    signalOf (x.loading old) (x.command masterm).2 = some x.signal := by
  cases x with
  | start chip readWrite =>
      obtain ⟨hchip, hread⟩ := startByte_fields chip readWrite
      simp only [signalOf, Step.loading, Step.command, Step.signal, Option.map_some,
        Option.getD_some, hchip, hread]
      rfl
  | send byte =>
      have hloading : Step.loading old (.send byte) = byte := by
        simp [Step.loading, command_send, dataPair]
      rw [hloading, command_send]
      simp [signalOf, dataPair, masterm, slavem, Step.signal]
  | receive last =>
      have hbits : ((0x08 : Word) ||| shl (BitVec.ofInt 32 last) 4).getLsbD 0 = false ∧
          ((0x08 : Word) ||| shl (BitVec.ofInt 32 last) 4).getLsbD 1 = false ∧
          ((0x08 : Word) ||| shl (BitVec.ofInt 32 last) 4).getLsbD 3 = true := by
        simp [shl]
      obtain ⟨hstart, hput, hget⟩ := hbits
      simp only [signalOf, Step.command, Step.signal, if_true, hstart, hput, hget]
      rfl

variable {width : BitVec 7 → Option Nat} {base : Int} {w w' : Wire}

theorem accesses_issue (x : Step) :
    w.accesses width base (issue base (x.command masterm)) =
      some ({ w with loaded := x.loading w.loaded }.signal width x.signal) := by
  have hcommand := signalOf_command w.loaded x
  rcases hpair : x.command masterm with ⟨_ | v, c⟩ <;>
    simp only [Step.loading, hpair, Option.map_none, Option.map_some, Option.getD_none,
      Option.getD_some] at hcommand ⊢ <;>
    simp [issue, accesses_cons, Wire.access, hcommand]

/-- Readings leave the device alone; the one that ends them finds `I2C_ISR`. -/
theorem accesses_readings (ctl : Controller) (busNum : Int) (p n i : Nat)
    (hraised : ∃ j ∈ List.range' i n, ctl.raised busNum p j = true)
    (h : w.accesses width base (ctl.readings busNum base p n i) = some w') :
    w' = w ∧ (((List.range' i n).find? (ctl.raised busNum p)).map (ctl.isr p)).getD 0 =
      w.status := by
  induction n generalizing i with
  | zero => simp at hraised
  | succ n ih =>
      rw [Controller.readings, accesses_cons] at h
      replace h : w.accesses width base (if ctl.raised busNum p i then
          [.read (.bus base .isr) (ctl.isr p i)]
        else ctl.readings busNum base p n (i + 1)) = some w' := h
      rw [List.range'_succ, List.find?_cons]
      by_cases hi : ctl.raised busNum p i = true
      · rw [if_pos hi, accesses_cons] at h
        obtain ⟨w₁, hread, hrest⟩ := Option.bind_eq_some_iff.mp h
        simp only [Wire.access, Option.ite_none_right_eq_some, forall_const,
          Option.some_inj] at hread
        obtain ⟨hstatus, rfl⟩ := hread
        rw [hi]
        exact ⟨(Option.some_inj.mp hrest).symm, hstatus⟩
      · rw [if_neg hi] at h
        rw [(Bool.not_eq_true _).mp hi]
        refine ih (i + 1) ?_ h
        obtain ⟨j, hj, hjraised⟩ := hraised
        rw [List.range'_succ, List.mem_cons] at hj
        rcases hj with rfl | hj
        · exact absurd hjraised hi
        · exact ⟨j, hj, hjraised⟩

/-- The controller raises the interrupt of every command in time. -/
def Controller.Prompt (ctl : Controller) (busNum : Int) : Prop :=
  ∀ p, ∃ i ∈ List.range' 0 pollLimit, ctl.raised busNum p i = true

/-- A poll returns `I2C_ISR` and clears it. -/
theorem accesses_pollLog (ctl : Controller) (busNum : Int) (p : Nat)
    (hprompt : ctl.Prompt busNum)
    (h : w.accesses width base (ctl.pollLog busNum base p) = some w') :
    w' = { w with status := 0 } ∧ ctl.status busNum p = w.status := by
  obtain ⟨w₁, hreadings, hclear⟩ := accesses_append_eq_some _ _ h
  obtain ⟨rfl, hstatus⟩ := accesses_readings ctl busNum p _ _ (hprompt p) hreadings
  refine ⟨?_, hstatus⟩
  have hzero : w₁.status &&& ~~~(0xFFFFFFFF : Word) = 0 := by
    rw [show ~~~(0xFFFFFFFF : Word) = 0#32 by decide, BitVec.and_zero]
    rfl
  simpa [accesses_cons, Wire.access, hzero] using hclear.symm

/-- Only a request for a byte is answered with one. -/
theorem receive_of_data (b : Bus (BitVec 7)) (x : Step) (c : Byte)
    (h : (SerialMemory.step width b x.signal).1 = .data c) : ∃ last, x = .receive last := by
  cases x with
  | start chip readWrite =>
      simp only [Step.signal, SerialMemory.step] at h
      split at h
      · cases h
      · split at h <;> cases h
  | send byte =>
      simp only [Step.signal, SerialMemory.step] at h
      split at h <;> cases h
  | receive last => exact ⟨last, rfl⟩

/-- **One step of the driver**: its status word is the bit of what the bus answered to its
signal, and what it fetches is the byte that came in. -/
theorem accesses_emit (S : Session) (hmode : S.mode = masterm)
    (hprompt : S.ctl.Prompt S.busNum) (hw : w.status = 0) (p : Nat) (x : Step)
    (h : w.accesses width S.base (S.emit p x) = some w') :
    S.ctl.status S.busNum p = statusBit (SerialMemory.step width w.bus x.signal).1 ∧
      w'.status = 0 ∧ w'.bus = (SerialMemory.step width w.bus x.signal).2 ∧
      ∀ b, (SerialMemory.step width w.bus x.signal).1 = .data b → S.ctl.arrived p = b := by
  rw [Session.emit, hmode, List.append_assoc] at h
  obtain ⟨w₁, hissue, h⟩ := accesses_append_eq_some _ _ h
  obtain ⟨w₂, hpoll, hfetch⟩ := accesses_append_eq_some _ _ h
  rw [accesses_issue, Option.some_inj] at hissue
  obtain ⟨hw₂, hstatus⟩ := accesses_pollLog _ _ _ hprompt hpoll
  have hbit : S.ctl.status S.busNum p =
      statusBit (SerialMemory.step width w.bus x.signal).1 := by
    rw [hstatus, ← hissue]
    simp [Wire.signal, hw]
  have hbus : w₂.bus = (SerialMemory.step width w.bus x.signal).2 := by
    rw [hw₂, ← hissue]
    rfl
  have harrived : w₂.arrived =
      arriving w.arrived (SerialMemory.step width w.bus x.signal).1 := by
    rw [hw₂, ← hissue]
    rfl
  have hkeeps : w' = w₂ ∧ ∀ last, x = .receive last → S.ok p x = true →
      S.ctl.arrived p = w₂.arrived := by
    cases x with
    | start chip readWrite => exact ⟨(Option.some_inj.mp hfetch).symm, by simp⟩
    | send byte => exact ⟨(Option.some_inj.mp hfetch).symm, by simp⟩
    | receive last =>
        rw [Session.fetch] at hfetch
        split at hfetch
        · simp only [accesses_cons, accesses_nil, Wire.access, forall_const,
            Option.bind_eq_some_iff, Option.ite_none_right_eq_some, Option.some_inj] at hfetch
          obtain ⟨_, ⟨hread, rfl⟩, rfl⟩ := hfetch
          exact ⟨rfl, fun _ _ _ => hread⟩
        · next hfailed => exact ⟨(Option.some_inj.mp hfetch).symm, fun _ _ hok => absurd hok hfailed⟩
  obtain ⟨rfl, hread⟩ := hkeeps
  refine ⟨hbit, by rw [hw₂], hbus, ?_⟩
  intro b hb
  obtain ⟨last, hx⟩ := receive_of_data _ _ _ hb
  have hok : S.ok p x = true := by
    rw [ok_iff, hbit, hb, hx, statusBit, Step.ackMask]
    decide
  rw [hread last hx hok, harrived, hb]
  rfl

/-! ## Scripts -/

/-- The bus did what it was asked for. -/
def Positive : Answer → Prop
  | .ack => True
  | .data _ => True
  | _ => False

/-- The masks of the driver accept what the bus sets when it did what it was asked for. -/
theorem ok_of_positive (b : Bus (BitVec 7)) (x : Step)
    (h : Positive (SerialMemory.step width b x.signal).1) :
    statusBit (SerialMemory.step width b x.signal).1 &&& x.ackMask ≠ 0 := by
  cases x with
  | start chip readWrite =>
      simp only [Step.signal, SerialMemory.step] at h ⊢
      split at h
      · exact h.elim
      · split <;> simp only [statusBit, Step.ackMask] <;> decide
  | send byte =>
      simp only [Step.signal, SerialMemory.step] at h ⊢
      split at h
      · simp only [statusBit, Step.ackMask]
        decide
      · simp only [statusBit, Step.ackMask]
        decide
      · exact h.elim
  | receive last =>
      have hdata : ∃ c, (SerialMemory.step width b .get).1 = .data c := by
        simp only [SerialMemory.step]
        split <;> exact ⟨_, rfl⟩
      obtain ⟨c, hc⟩ := hdata
      rw [Step.signal, hc, statusBit, Step.ackMask]
      decide

/-- **A script of the driver** is a run of the bus: if the bus does what it is asked for
throughout, every step succeeds and every byte asked for arrives. -/
theorem accesses_trace (S : Session) (hmode : S.mode = masterm)
    (hprompt : S.ctl.Prompt S.busNum) (hw : w.status = 0) (p : Nat) (xs : List Step)
    (h : w.accesses width S.base (trace S.emit p xs) = some w')
    (hpositive : ∀ a ∈ (run (SerialMemory.step width) w.bus (xs.map Step.signal)).1, Positive a) :
    allOk S.ok p xs = true ∧ w'.status = 0 ∧
      w'.bus = (run (SerialMemory.step width) w.bus (xs.map Step.signal)).2 ∧
      ∀ i b, (run (SerialMemory.step width) w.bus (xs.map Step.signal)).1[i]? = some (.data b) →
        S.ctl.arrived (p + i) = b := by
  induction xs generalizing p w with
  | nil =>
      obtain rfl : w = w' := Option.some_inj.mp h
      exact ⟨rfl, hw, rfl, fun i b hb => by simp at hb⟩
  | cons x xs ih =>
      rw [trace_cons] at h
      obtain ⟨w₁, hemit, hrest⟩ := accesses_append_eq_some _ _ h
      obtain ⟨hbit, hw₁, hbus, hdata⟩ := accesses_emit S hmode hprompt hw p x hemit
      simp only [List.map_cons, run_cons, ← hbus, List.forall_mem_cons] at hpositive ⊢
      obtain ⟨hrestOk, hw', hbus', harrivals⟩ := ih hw₁ (p + 1) hrest hpositive.2
      refine ⟨?_, hw', hbus', ?_⟩
      · rw [allOk_cons, hrestOk, Bool.and_true, ok_iff, hbit]
        exact ok_of_positive w.bus x hpositive.1
      · intro i b hb
        cases i with
        | zero => exact hdata b (Option.some_inj.mp hb)
        | succ i =>
            have hi := harrivals i b hb
            rwa [Nat.add_right_comm] at hi

/-- The same of a script that a failure would have ended. -/
theorem allOk_of_attempted (S : Session) (hmode : S.mode = masterm)
    (hprompt : S.ctl.Prompt S.busNum) (hw : w.status = 0) (p : Nat) (xs : List Step)
    (h : w.accesses width S.base (trace S.emit p (attempted S.ok p xs)) = some w')
    (hpositive : ∀ a ∈ (run (SerialMemory.step width) w.bus (xs.map Step.signal)).1, Positive a) :
    allOk S.ok p xs = true := by
  obtain ⟨ys, hsplit⟩ := attempted_isPrefix S.ok p xs
  have hsub : ∀ a ∈ (run (SerialMemory.step width) w.bus
      ((attempted S.ok p xs).map Step.signal)).1, Positive a := by
    intro a ha
    refine hpositive a ?_
    rw [← hsplit, List.map_append, run_append]
    exact List.mem_append_left _ ha
  rw [← allOk_attempted]
  exact (accesses_trace S hmode hprompt hw p _ h hsub).1

/-! ## Transfers -/

/-- A chip that is not there does not acknowledge its start. -/
theorem start_absent (S : Session) (hmode : S.mode = masterm)
    (hprompt : S.ctl.Prompt S.busNum) (hw : w.status = 0) (p : Nat) (chip readWrite : Byte)
    (hchip : width (chip.setWidth 7) = none)
    (h : w.accesses width S.base (S.emit p (.start chip readWrite)) = some w') :
    ¬S.ok p (.start chip readWrite) = true ∧ w'.status = 0 ∧ w'.bus.cells = w.bus.cells := by
  obtain ⟨hbit, hw', hbus, _⟩ := accesses_emit S hmode hprompt hw p _ h
  have hanswer : SerialMemory.step width w.bus (Step.start chip readWrite).signal =
      (.nak, { w.bus with phase := .idle }) := by
    simp only [Step.signal, SerialMemory.step, hchip]
  rw [hanswer] at hbit hbus
  refine ⟨?_, hw', by rw [hbus]⟩
  rw [ok_iff, hbit, statusBit, Step.ackMask]
  decide

/-- The stop command shows in the registers nowhere, and leaves the chips alone. -/
theorem accesses_stop (hw : w.status = 0)
    (h : w.accesses width base (issue base (none, 0x30)) = some w') :
    w'.status = 0 ∧ w'.bus.cells = w.bus.cells := by
  have hsignal : signalOf w.loaded 0x30 = some .stop := rfl
  simp only [issue, accesses_cons, accesses_nil, Wire.access, if_true, hsignal,
    Option.bind_some, Option.some_inj] at h
  rw [← h]
  exact ⟨by simp [Wire.signal, SerialMemory.step, statusBit, hw], rfl⟩

section Transfers

variable {S : Session} (hmode : S.mode = masterm) (hprompt : S.ctl.Prompt S.busNum)
  (hw : w.status = 0) (T : Transfer) (p : Nat)
  (h : w.accesses width S.base (T.log S p) = some w')

include hmode hprompt hw h

/-- **A transfer that the bus carries out** succeeds, and its stop follows. -/
theorem accesses_log (hpositive : ∀ a ∈ (run (SerialMemory.step width) w.bus
      ((T.header ++ T.body).map Step.signal)).1, Positive a) :
    T.opened S p = true ∧ T.bodyOk S p = true ∧ w'.status = 0 ∧
      w'.bus.cells = (run (SerialMemory.step width) w.bus
        ((T.header ++ T.body).map Step.signal)).2.cells ∧
      ∀ i b, (run (SerialMemory.step width) w.bus
          ((T.header ++ T.body).map Step.signal)).1[i]? = some (.data b) →
        S.ctl.arrived (p + i) = b := by
  rw [Transfer.log] at h
  obtain ⟨w₁, hsteps, hstop⟩ := accesses_append_eq_some _ _ h
  have hheader : ∀ a ∈ (run (SerialMemory.step width) w.bus
      (T.header.map Step.signal)).1, Positive a := by
    intro a ha
    refine hpositive a ?_
    rw [List.map_append, run_append]
    exact List.mem_append_left _ ha
  have hopened : T.opened S p = true := by
    rw [Transfer.performed, trace_append] at hsteps
    obtain ⟨w₂, hattempted, _⟩ := accesses_append_eq_some _ _ hsteps
    exact allOk_of_attempted S hmode hprompt hw p T.header hattempted hheader
  rw [Transfer.performed, if_pos hopened, attempted_of_allOk S.ok p T.header hopened] at hsteps
  obtain ⟨hall, hw₁, hbus, harrivals⟩ :=
    accesses_trace S hmode hprompt hw p _ hsteps hpositive
  rw [Transfer.stopLog, if_pos hopened] at hstop
  obtain ⟨hw', hcells⟩ := accesses_stop hw₁ hstop
  rw [allOk_append, Bool.and_eq_true] at hall
  exact ⟨hopened, hall.2, hw', by rw [hcells, hbus], harrivals⟩

/-- A chip that is not there fails the transfer at its start. -/
theorem accesses_log_absent (chip readWrite : Byte) (xs : List Step)
    (hheader : T.header = .start chip readWrite :: xs) (hchip : width (chip.setWidth 7) = none) :
    ¬T.opened S p = true ∧ w'.status = 0 ∧ w'.bus.cells = w.bus.cells := by
  rw [Transfer.log, Transfer.performed, hheader, attempted_cons] at h
  obtain ⟨w₁, hsteps, hstop⟩ := accesses_append_eq_some _ _ h
  by_cases hok : S.ok p (.start chip readWrite) = true
  · rw [if_pos hok, List.cons_append, trace_cons] at hsteps
    obtain ⟨w₂, hemit, _⟩ := accesses_append_eq_some _ _ hsteps
    exact absurd hok (start_absent S hmode hprompt hw p chip readWrite hchip hemit).1
  · have hclosed : ¬T.opened S p = true := by
      rw [Transfer.opened, hheader, allOk_cons, (Bool.not_eq_true _).mp hok, Bool.false_and]
      exact Bool.false_ne_true
    rw [if_neg hok, if_neg hclosed, List.append_nil, trace_cons, trace_nil,
      List.append_nil] at hsteps
    rw [Transfer.stopLog, if_neg hclosed, accesses_nil, Option.some_inj] at hstop
    rw [← hstop]
    exact ⟨hclosed, (start_absent S hmode hprompt hw p chip readWrite hchip hsteps).2⟩

end Transfers

end BmcCodes.Uboot.AstI2c
