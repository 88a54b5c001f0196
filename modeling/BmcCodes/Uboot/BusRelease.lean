import BmcCodes.Uboot.Commands

/-!
# When a call releases the bus

A start command claims the bus until a stop command releases it.  `i2c_probe`
stops whatever the chip answers, and so do the data loops of `i2c_read` and
`i2c_write`; but both return straight away from a failure of the start, of an
address byte or of the repeated start, and leave the bus held.  A call thus
releases the bus exactly when the controller acknowledges its header.
-/

namespace BmcCodes.Uboot.AstI2c

open BmcCodes.Lib.Script

/-- A call of one of the three interface functions. -/
inductive Call where
  | probe (chip : Byte) (mode : Int)
  | read (chip : Byte) (addr : Word) (alen : Int) (buffer : List Byte)
      (len mode : Int)
  | write (chip : Byte) (addr : Word) (alen : Int) (buffer : List Byte)
      (len mode : Int)

/-- The board when the call returns. -/
def Call.run (ctl : Controller) (s : Board) : Call → Board
  | .probe chip mode => (i2cProbe ctl chip mode s).2
  | .read chip addr alen buffer len mode =>
      (i2cRead ctl chip addr alen buffer len mode s).2.2
  | .write chip addr alen buffer len mode =>
      (i2cWrite ctl chip addr alen buffer len mode s).2

/-- If the values written to `I2C_CSR` include a start, then a stop is the last
of them, and the only one. -/
def BusReleased (csrs : List Word) : Prop :=
  0x03 ∈ csrs → ∃ pre, csrs = pre ++ [0x30] ∧ 0x30 ∉ pre

/-- The start of poll `p` and the `n` address bytes after it are acknowledged. -/
def Controller.AcksHeader (ctl : Controller) (busNum : Int) (p n : Nat) : Prop :=
  ctl.status busNum p &&& 0x01 ≠ 0 ∧
    ∀ k < n, ctl.status busNum (p + 1 + k) &&& 0x03 ≠ 0

/-- The steps on whose failure the source returns without a stop are all
acknowledged; `i2c_probe` has no such step. -/
def Call.HeaderAcked (ctl : Controller) (s : Board) : Call → Prop
  | .probe _ _ => True
  | .read _ _ alen _ _ _ =>
      ctl.AcksHeader s.i2cBusNum s.polls alen.toNat ∧
        ctl.status s.i2cBusNum (s.polls + 1 + alen.toNat) &&& 0x01 ≠ 0
  | .write _ _ alen _ _ _ => ctl.AcksHeader s.i2cBusNum s.polls alen.toNat

/-! ## Opened transfers -/

theorem ok_iff (S : Session) (p : Nat) (x : Step) :
    S.ok p x = true ↔ S.ctl.status S.busNum p &&& x.ackMask ≠ 0 := by
  simp [Session.ok]

theorem length_addrSteps (addr : Word) (alen : Int) (n i : Nat) :
    (addrSteps addr alen n i).length = n := by
  simp [addrSteps]

/-- A byte is acknowledged or not whatever its value. -/
theorem allOk_addrSteps (S : Session) (p : Nat) (addr : Word) (alen : Int)
    (n i : Nat) :
    allOk S.ok p (addrSteps addr alen n i) = true ↔
      ∀ k < n, S.ctl.status S.busNum (p + k) &&& 0x03 ≠ 0 := by
  simp only [allOk_iff, ok_iff, addrSteps, List.getElem_map, Step.ackMask,
    List.length_map, List.length_range']

theorem writeTransfer_opened_iff (S : Session) (p : Nat) (chip : Byte)
    (addr : Word) (alen : Int) (buffer : List Byte) (len : Int) :
    (writeTransfer chip addr alen buffer len).opened S p = true ↔
      S.ctl.AcksHeader S.busNum p alen.toNat := by
  simp only [Transfer.opened, writeTransfer, List.singleton_append, allOk_cons,
    Bool.and_eq_true, ok_iff, Step.ackMask, allOk_addrSteps,
    Controller.AcksHeader]

theorem readTransfer_opened_iff (S : Session) (p : Nat) (chip : Byte)
    (addr : Word) (alen len : Int) :
    (readTransfer chip addr alen len).opened S p = true ↔
      S.ctl.AcksHeader S.busNum p alen.toNat ∧
        S.ctl.status S.busNum (p + 1 + alen.toNat) &&& 0x01 ≠ 0 := by
  simp only [Transfer.opened, readTransfer, List.singleton_append, allOk_cons,
    allOk_append, allOk_nil, length_addrSteps, Bool.and_eq_true, ok_iff,
    Step.ackMask, allOk_addrSteps, Controller.AcksHeader, and_true, and_assoc]

/-! ## The stop command -/

/-- No step of the driver looks like a stop. -/
def NoStop (mode : Int) (xs : List Step) : Prop :=
  ∀ x ∈ xs, (x.command mode).2 ≠ 0x30

theorem command_start_ne (mode : Int) (chip readWrite : Byte) :
    (Step.command mode (.start chip readWrite)).2 ≠ 0x30 := by
  simp [Step.command]

theorem command_send_ne (mode : Int) (byte : Byte) :
    (Step.command mode (.send byte)).2 ≠ 0x30 := by
  simp only [Step.command]
  split <;> decide

theorem command_receive_ne (mode len : Int) (i : Nat) :
    (Step.command mode (.receive (lastFlag len i))).2 ≠ 0x30 := by
  simp only [Step.command, lastFlag]
  split <;> split <;> decide

/-- A write consists of starts and sent bytes. -/
theorem forall_mem_writeTransfer {P : Step → Prop}
    (hstart : ∀ chip readWrite, P (.start chip readWrite)) (hsend : ∀ byte, P (.send byte))
    (chip : Byte) (addr : Word) (alen : Int) (buffer : List Byte) (len : Int) :
    ∀ x ∈ (writeTransfer chip addr alen buffer len).header ++
      (writeTransfer chip addr alen buffer len).body, P x := by
  intro x hx
  simp only [writeTransfer, addrSteps, dataSteps, List.mem_append,
    List.mem_singleton, List.mem_map] at hx
  rcases hx with (rfl | ⟨_, _, rfl⟩) | ⟨_, _, rfl⟩
  · exact hstart _ _
  · exact hsend _
  · exact hsend _

/-- A read consists of starts, sent bytes and receives. -/
theorem forall_mem_readTransfer {P : Step → Prop}
    (hstart : ∀ chip readWrite, P (.start chip readWrite)) (hsend : ∀ byte, P (.send byte))
    (hreceive : ∀ len i, P (.receive (lastFlag len i)))
    (chip : Byte) (addr : Word) (alen len : Int) :
    ∀ x ∈ (readTransfer chip addr alen len).header ++
      (readTransfer chip addr alen len).body, P x := by
  intro x hx
  simp only [readTransfer, addrSteps, receiveSteps, List.mem_append,
    List.mem_singleton, List.mem_map] at hx
  rcases hx with (rfl | ⟨_, _, rfl⟩ | rfl) | ⟨_, _, rfl⟩
  · exact hstart _ _
  · exact hsend _
  · exact hstart _ _
  · exact hreceive _ _

theorem noStop_writeTransfer (mode : Int) (chip : Byte) (addr : Word)
    (alen : Int) (buffer : List Byte) (len : Int) :
    NoStop mode ((writeTransfer chip addr alen buffer len).header ++
      (writeTransfer chip addr alen buffer len).body) :=
  forall_mem_writeTransfer (command_start_ne mode) (command_send_ne mode) _ _ _ _ _

theorem noStop_readTransfer (mode : Int) (chip : Byte) (addr : Word)
    (alen len : Int) :
    NoStop mode ((readTransfer chip addr alen len).header ++
      (readTransfer chip addr alen len).body) :=
  forall_mem_readTransfer (command_start_ne mode) (command_send_ne mode)
    (command_receive_ne mode) _ _ _ _

theorem mem_of_mem_performed {T : Transfer} {S : Session} {p : Nat} {x : Step}
    (hx : x ∈ T.performed S p) : x ∈ T.header ++ T.body := by
  rw [Transfer.performed, List.mem_append] at hx
  rw [List.mem_append]
  rcases hx with hx | hx
  · exact .inl ((attempted_isPrefix S.ok p T.header).subset hx)
  · split at hx
    · exact .inr hx
    · simp at hx

/-- The values a transfer writes to `I2C_CSR`. -/
def Transfer.csrs (T : Transfer) (S : Session) (p : Nat) : List Word :=
  ((T.performed S p).map (Step.command S.mode) ++
    if T.opened S p then [(none, 0x30)] else []).map Prod.snd

/-- **An opened transfer releases the bus, and no other does.**  The first step
of a header is a start, so a transfer that is cut short has claimed the bus. -/
theorem busReleased_csrs_iff (T : Transfer) (S : Session) (p : Nat)
    (hnoStop : NoStop S.mode (T.header ++ T.body))
    (hstart : T.header = [] ∨
      ∃ chip readWrite xs, T.header = .start chip readWrite :: xs) :
    BusReleased (T.csrs S p) ↔ T.opened S p = true := by
  have hpre : 0x30 ∉ ((T.performed S p).map (Step.command S.mode)).map Prod.snd := by
    intro hmem
    simp only [List.map_map, List.mem_map, Function.comp_apply] at hmem
    obtain ⟨x, hx, hcommand⟩ := hmem
    exact hnoStop x (mem_of_mem_performed hx) hcommand
  constructor
  · intro hreleased
    by_contra hclosed
    have hcsrs : T.csrs S p =
        ((T.performed S p).map (Step.command S.mode)).map Prod.snd := by
      simp [Transfer.csrs, hclosed]
    rcases hstart with hnil | ⟨chip, readWrite, xs, hheader⟩
    · exact hclosed (by simp [Transfer.opened, hnil])
    · have hclaimed : (0x03 : Word) ∈ T.csrs S p := by
        have hfirst : Step.start chip readWrite ∈ T.performed S p := by
          rw [Transfer.performed, hheader, attempted_cons]
          split <;> simp
        rw [hcsrs, List.map_map, List.mem_map]
        exact ⟨_, hfirst, rfl⟩
      obtain ⟨pre, hsplit, _⟩ := hreleased hclaimed
      rw [hcsrs] at hsplit
      exact hpre (by rw [hsplit]; simp)
  · intro hopened _
    exact ⟨_, by simp [Transfer.csrs, hopened], hpre⟩

/-! ## The three functions -/

private theorem csrWrites_since {ctl : Controller} {mode : Int} {T : Transfer}
    {s s' : Board} {l : List Access} (haccesses : s'.accesses = s.accesses ++ l)
    (hquiet : l.filterMap Access.commandWrite = []) :
    csrWrites (s.since (s'.transfer ctl mode T)) =
      T.csrs (s'.session ctl mode) s'.polls := by
  rw [csrWrites_eq_map_commands, commands_since_transfer ctl mode T haccesses hquiet]
  rfl

/-- A call releases the bus if and only if its header is acknowledged. -/
theorem busReleased_iff_headerAcked (ctl : Controller) (s : Board) (call : Call) :
    BusReleased (csrWrites (s.since (call.run ctl s))) ↔
      call.HeaderAcked ctl s := by
  cases call with
  | probe chip mode =>
      simp only [Call.run, i2cProbe_eq, Call.HeaderAcked, iff_true]
      rw [csrWrites_since (realI2cInit_accesses ..) (filterMap_initLog ..),
        busReleased_csrs_iff _ _ _ ?_ (.inl rfl)]
      · rfl
      · intro x hx
        rw [List.mem_singleton.mp hx]
        exact command_start_ne _ _ _
  | read chip addr alen buffer len mode =>
      simp only [Call.run, i2cRead_eq, Call.HeaderAcked]
      rw [csrWrites_since (initIfPending_accesses mode s) (filterMap_pendingLog s),
        busReleased_csrs_iff _ _ _ (noStop_readTransfer _ _ _ _ _) (.inr ⟨_, _, _, rfl⟩),
        readTransfer_opened_iff]
      simp only [Board.session, initIfPending_polls, initIfPending_i2cBusNum]
  | write chip addr alen buffer len mode =>
      simp only [Call.run, i2cWrite_eq, Call.HeaderAcked]
      rw [csrWrites_since (initIfPending_accesses mode s) (filterMap_pendingLog s),
        busReleased_csrs_iff _ _ _ (noStop_writeTransfer _ _ _ _ _ _) (.inr ⟨_, _, _, rfl⟩),
        writeTransfer_opened_iff]
      simp only [Board.session, initIfPending_polls, initIfPending_i2cBusNum]

/-- A controller on which every poll ends at its first reading with the status
word `status`, and which receives the byte `0x5A`. -/
def Controller.answering (status : Word) : Controller where
  disr := fun _ _ => 0xFFFFFFFF
  isr := fun _ _ => status
  trbb := fun _ => 0x5A00

/-- The module before its first transfer, with bus 3 selected. -/
def bus3 : Board := { Board.initial fun _ => 0 with i2cBusNum := 3 }

theorem status_answering (status : Word) (p : Nat) :
    (Controller.answering status).status 3 p = status :=
  status_of_raised_first _ _ _ (by simp [Controller.raised, Controller.answering, shl])

/-- The chip does not acknowledge its address: the status word is `0x02`. -/
theorem i2cWrite_nak_holds_bus :
    ¬ BusReleased (csrWrites (bus3.since
      ((Call.write 0x50 0x10 1 [0xAB] 1 masterm).run
        (Controller.answering 0x02) bus3))) := by
  simp only [Call.run, i2cWrite_eq]
  rw [csrWrites_since (initIfPending_accesses _ _) (filterMap_pendingLog _),
    busReleased_csrs_iff _ _ _ (noStop_writeTransfer _ _ _ _ _ _)
      (.inr ⟨_, _, _, rfl⟩),
    writeTransfer_opened_iff]
  intro h
  obtain ⟨hstart, _⟩ := h
  simp only [Board.session, initIfPending_i2cBusNum, bus3, status_answering] at hstart
  exact hstart (by decide)

end BmcCodes.Uboot.AstI2c
