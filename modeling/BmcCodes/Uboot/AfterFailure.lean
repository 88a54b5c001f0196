import BmcCodes.Uboot.Acknowledge

/-!
# What follows a failed byte

A helper that reports failure ends the call at once in the header of a transfer:
the start, the address bytes and the repeated start.  The data loops of
`i2c_write` and `i2c_read` remember the failure and go on, so the chip receives
bytes in the place of the one it refused, and the buffer data that came after
one that was lost.  A call is quiet after its first failure exactly when no data
byte but the last fails.
-/

namespace BmcCodes.Uboot.AstI2c

open BmcCodes.Lib.Script

/-! ## Quiet logs -/

/-- The status word of the poll that the log goes on with: `I2C_ISR` as it is
read before the driver acknowledges it, and `0` if it is not. -/
def polled : List Access → Word
  | [] => 0
  | .read (.bus _ .isr) v :: _ => v
  | .write (.bus _ .isr) _ :: _ => 0
  | _ :: l => polled l

/-- The status bits that mean success to the helper that writes `v` to
`I2C_CSR`. -/
def reportMask (v : Word) : Word :=
  if v = 0x03 then 0x01 else if v = 0x02 ∨ v = 0x04 then 0x03 else 0x04

/-- The command `v`, with the log `l` after it, is reported as failed.  Nothing
is reported of a stop. -/
def ReportsFailure (v : Word) (l : List Access) : Prop :=
  v ≠ 0x30 ∧ polled l &&& reportMask v = 0

/-- The access issues a command other than a stop, or fetches received data. -/
def Access.traffic : Access → Bool
  | .write (.bus _ .csr) v => v != 0x30
  | .read (.bus _ .trbb) _ => true
  | _ => false

def Silent (l : List Access) : Prop := ∀ a ∈ l, a.traffic = false

/-- Once a command is reported as failed, the log is silent. -/
def QuietAfterFailure : List Access → Prop
  | [] => True
  | .write (.bus _ .csr) v :: l => (ReportsFailure v l → Silent l) ∧ QuietAfterFailure l
  | _ :: l => QuietAfterFailure l

theorem silent_append_iff (l₁ l₂ : List Access) :
    Silent (l₁ ++ l₂) ↔ Silent l₁ ∧ Silent l₂ := List.forall_mem_append

/-- Accesses that issue no command do not matter. -/
theorem quietAfterFailure_append {l₁ : List Access} (l₂ : List Access)
    (h : l₁.filterMap Access.commandWrite = []) :
    QuietAfterFailure (l₁ ++ l₂) ↔ QuietAfterFailure l₂ := by
  induction l₁ with
  | nil => exact Iff.rfl
  | cons a l₁ ih =>
      rw [List.filterMap_eq_nil_iff] at h
      have htail := ih (List.filterMap_eq_nil_iff.mpr fun b hb => h b (by simp [hb]))
      have hhead := h a (by simp)
      cases a with
      | read r v => exact htail
      | write r v =>
          cases r with
          | scu _ => exact htail
          | disr => exact htail
          | bus base r =>
              cases r
              case csr => simp [Access.commandWrite] at hhead
              all_goals exact htail

/-! ## Polls -/

section Poll

variable (ctl : Controller) (busNum base : Int) (p : Nat)

theorem polled_pollLog (l : List Access) :
    polled (ctl.pollLog busNum base p ++ l) = ctl.status busNum p := by
  have hdisr : ∀ v l, polled (.read .disr v :: l) = polled l := fun _ _ => rfl
  have hloop : ∀ n i, polled (ctl.readings busNum base p n i ++
      (.write (.bus base .isr) 0xFFFFFFFF :: l)) =
        (((List.range' i n).find? (ctl.raised busNum p)).map (ctl.isr p)).getD 0 := by
    intro n
    induction n with
    | zero => intro i; rfl
    | succ n ih =>
        intro i
        rw [Controller.readings, List.range'_succ, List.find?_cons, List.cons_append, hdisr]
        cases ctl.raised busNum p i with
        | true => rfl
        | false => exact ih (i + 1)
  rw [Controller.pollLog, List.append_assoc]
  exact hloop pollLimit 0

theorem silent_pollLog : Silent (ctl.pollLog busNum base p) := by
  have hloop : ∀ n i, Silent (ctl.readings busNum base p n i) := by
    intro n
    induction n with
    | zero => intro i a ha; simp [Controller.readings] at ha
    | succ n ih =>
        intro i
        rw [Controller.readings]
        refine List.forall_mem_cons.mpr ⟨rfl, ?_⟩
        split
        · exact List.forall_mem_singleton.mpr rfl
        · exact ih (i + 1)
  rw [Controller.pollLog, silent_append_iff]
  exact ⟨hloop pollLimit 0, List.forall_mem_singleton.mpr rfl⟩

end Poll

/-! ## Steps -/

/-- The helper for the step `x` is told from the command it writes. -/
def Recognised (mode : Int) (x : Step) : Prop :=
  (x.command mode).2 ≠ 0x30 ∧ reportMask (x.command mode).2 = x.ackMask

theorem recognised_start (mode : Int) (chip readWrite : Byte) :
    Recognised mode (.start chip readWrite) :=
  ⟨command_start_ne mode chip readWrite, rfl⟩

theorem recognised_send (mode : Int) (byte : Byte) : Recognised mode (.send byte) := by
  simp only [Recognised, Step.command, Step.ackMask]
  split <;> decide

theorem recognised_receive (mode len : Int) (i : Nat) :
    Recognised mode (.receive (lastFlag len i)) := by
  simp only [Recognised, Step.command, Step.ackMask, lastFlag]
  split <;> split <;> decide

section Trace

variable (S : Session)

/-- One step: if it fails, what comes after it must be silent. -/
theorem quietAfterFailure_emit_append (p : Nat) {x : Step}
    (hx : Recognised S.mode x) (l : List Access) :
    QuietAfterFailure (S.emit p x ++ l) ↔
      (S.ok p x = false → Silent l) ∧ QuietAfterFailure l := by
  have hissue : ∀ l', QuietAfterFailure (issue S.base (x.command S.mode) ++ l') ↔
      (ReportsFailure (x.command S.mode).2 l' → Silent l') ∧ QuietAfterFailure l' := by
    intro l'
    unfold issue
    split <;> exact Iff.rfl
  have hfails : ReportsFailure (x.command S.mode).2
      (S.ctl.pollLog S.busNum S.base p ++ (S.fetch p x ++ l)) ↔ S.ok p x = false := by
    rw [ReportsFailure, polled_pollLog, hx.2, ← Bool.not_eq_true, ok_iff, not_not]
    exact and_iff_right hx.1
  have hsilent : S.ok p x = false →
      (Silent (S.ctl.pollLog S.busNum S.base p ++ (S.fetch p x ++ l)) ↔ Silent l) := by
    intro hfailed
    have hnothing : S.fetch p x = [] := by
      unfold Session.fetch
      split
      · rw [hfailed]; rfl
      · rfl
    rw [hnothing, List.nil_append, silent_append_iff]
    exact and_iff_right (silent_pollLog _ _ _ _)
  rw [Session.emit, List.append_assoc, List.append_assoc, hissue, hfails,
    quietAfterFailure_append _ (filterMap_pollLog ..),
    quietAfterFailure_append _ (filterMap_fetch ..)]
  exact and_congr_left fun _ => imp_congr_right hsilent

theorem not_silent_emit_append (p : Nat) {x : Step} (hx : Recognised S.mode x)
    (l : List Access) : ¬ Silent (S.emit p x ++ l) := by
  intro h
  have hmem : Access.write (.bus S.base .csr) (x.command S.mode).2 ∈ S.emit p x ++ l := by
    unfold Session.emit issue
    split <;> simp
  have hquiet := h _ hmem
  simp only [Access.traffic, bne_eq_false_iff_eq] at hquiet
  exact hx.1 hquiet

/-- **A run of steps** is quiet after its first failure exactly when the first
failure ends it. -/
theorem quietAfterFailure_trace_append {t : List Access} (hsilent : Silent t)
    (hquiet : QuietAfterFailure t) (p : Nat) {xs : List Step}
    (hxs : ∀ x ∈ xs, Recognised S.mode x) :
    QuietAfterFailure (trace S.emit p xs ++ t) ↔ attempted S.ok p xs = xs := by
  induction xs generalizing p with
  | nil => exact iff_of_true hquiet rfl
  | cons x xs ih =>
      have hx := hxs x (by simp)
      have htail : ∀ y ∈ xs, Recognised S.mode y := fun y hy => hxs y (by simp [hy])
      rw [trace_cons, List.append_assoc, quietAfterFailure_emit_append S p hx,
        ih (p + 1) htail, attempted_cons]
      by_cases hok : S.ok p x = true
      · rw [if_pos hok, List.cons_inj_right]
        exact and_iff_right fun h => absurd hok (by simp [h])
      · rw [if_neg hok, List.cons_inj_right]
        constructor
        · intro h
          have hrest := h.1 (by simpa using hok)
          cases xs with
          | nil => rfl
          | cons y ys =>
              rw [trace_cons, List.append_assoc] at hrest
              exact absurd hrest (not_silent_emit_append S (p + 1) (htail y (by simp)) _)
        · intro h
          subst h
          exact ⟨fun _ => hsilent, rfl⟩

end Trace

/-! ## Transfers -/

/-- A transfer that is opened performs its body whole, so it is quiet exactly
when no step of the body but the last fails. -/
theorem quietAfterFailure_log_iff (T : Transfer) (S : Session) (p : Nat)
    (hT : ∀ x ∈ T.header ++ T.body, Recognised S.mode x) :
    QuietAfterFailure (T.log S p) ↔
      (T.opened S p = true → ∀ i (hi : i + 1 < T.body.length),
        S.ok (p + T.header.length + i) T.body[i] = true) := by
  have hstop : Silent (T.stopLog S p) ∧ QuietAfterFailure (T.stopLog S p) := by
    unfold Transfer.stopLog
    split
    · exact ⟨List.forall_mem_singleton.mpr rfl, fun h => absurd rfl h.1, trivial⟩
    · exact ⟨fun a ha => absurd ha (List.not_mem_nil), trivial⟩
  rw [Transfer.log, quietAfterFailure_trace_append S hstop.1 hstop.2 p
    fun x hx => hT x (mem_of_mem_performed hx), Transfer.performed]
  by_cases hopened : T.opened S p = true
  · have hall : allOk S.ok p T.header = true := hopened
    rw [if_pos hopened, attempted_of_allOk _ _ _ hall, attempted_append, if_pos hall,
      List.append_cancel_left_eq, attempted_eq_self_iff]
    exact (imp_iff_right hopened).symm
  · rw [if_neg hopened, List.append_nil]
    exact iff_of_true (attempted_attempted ..) fun h => absurd h hopened

/-! ## The three functions -/

/-- The status words of the data bytes report success, of all but the last. -/
def Call.DataAckedButLast (ctl : Controller) (s : Board) : Call → Prop
  | .probe _ _ => True
  | .read _ _ alen _ len _ => ∀ k, k + 1 < len.toNat →
      ctl.status s.i2cBusNum (s.polls + (alen.toNat + 2) + k) &&& 0x04 ≠ 0
  | .write _ _ alen _ len _ => ∀ k, k + 1 < len.toNat →
      ctl.status s.i2cBusNum (s.polls + (alen.toNat + 1) + k) &&& 0x03 ≠ 0

private theorem quietAfterFailure_since {ctl : Controller} {mode : Int} {T : Transfer}
    {s s' : Board} {l : List Access} (haccesses : s'.accesses = s.accesses ++ l)
    (hquiet : l.filterMap Access.commandWrite = []) :
    QuietAfterFailure (s.since (s'.transfer ctl mode T)) ↔
      QuietAfterFailure (T.log (s'.session ctl mode) s'.polls) := by
  rw [since_transfer ctl mode T haccesses]
  exact quietAfterFailure_append _ hquiet

/-- **When a call is quiet after its first failure**: unless its header is
acknowledged and a data byte before the last one fails. -/
theorem quietAfterFailure_iff_dataAckedButLast (ctl : Controller) (s : Board)
    (call : Call) :
    QuietAfterFailure (s.since (call.run ctl s)) ↔
      (call.HeaderAcked ctl s → call.DataAckedButLast ctl s) := by
  cases call with
  | probe chip mode =>
      simp only [Call.run, i2cProbe_eq, Call.DataAckedButLast, implies_true, iff_true]
      rw [quietAfterFailure_since (realI2cInit_accesses ..) (filterMap_initLog ..),
        quietAfterFailure_log_iff]
      · intro _ i hi
        exact absurd hi (by simp [probeTransfer])
      · intro x hx
        rw [List.mem_singleton.mp hx]
        exact recognised_start ..
  | read chip addr alen buffer len mode =>
      simp only [Call.run, i2cRead_eq, Call.HeaderAcked, Call.DataAckedButLast]
      rw [quietAfterFailure_since (initIfPending_accesses mode s) (filterMap_pendingLog s),
        quietAfterFailure_log_iff _ _ _ (forall_mem_readTransfer (recognised_start _)
          (recognised_send _) (recognised_receive _) _ _ _ _),
        readTransfer_opened_iff]
      simp only [Board.session, initIfPending_polls, initIfPending_i2cBusNum, readTransfer,
        receiveSteps, ok_iff, List.getElem_map, Step.ackMask, List.length_map,
        List.length_range', List.length_append, List.length_singleton, length_addrSteps]
      rw [show 1 + (alen.toNat + 1) = alen.toNat + 2 by omega]
  | write chip addr alen buffer len mode =>
      simp only [Call.run, i2cWrite_eq, Call.HeaderAcked, Call.DataAckedButLast]
      rw [quietAfterFailure_since (initIfPending_accesses mode s) (filterMap_pendingLog s),
        quietAfterFailure_log_iff _ _ _ (forall_mem_writeTransfer (recognised_start _)
          (recognised_send _) _ _ _ _ _),
        writeTransfer_opened_iff]
      simp only [Board.session, initIfPending_polls, initIfPending_i2cBusNum, writeTransfer,
        dataSteps, ok_iff, List.getElem_map, Step.ackMask, List.length_map,
        List.length_range', List.length_append, List.length_singleton, length_addrSteps]
      rw [show 1 + alen.toNat = alen.toNat + 1 by omega]

/-- The chip acknowledges its address and refuses the first of two data bytes:
the second one is sent all the same. -/
theorem i2cWrite_sends_after_nak :
    ¬ QuietAfterFailure (bus3.since
      ((Call.write 0x50 0 0 [0xAB, 0xCD] 2 masterm).run
        (Controller.replying fun p => if p = 0 then 0x01 else 0x00) bus3)) := by
  simp only [Call.run, i2cWrite_eq]
  rw [quietAfterFailure_since (initIfPending_accesses _ _) (filterMap_pendingLog _),
    quietAfterFailure_log_iff _ _ _ (forall_mem_writeTransfer (recognised_start _)
      (recognised_send _) _ _ _ _ _),
    writeTransfer_opened_iff]
  have hbus : bus3.i2cBusNum = 3 := rfl
  simp only [Board.session, initIfPending_polls, initIfPending_i2cBusNum, hbus,
    Controller.AcksHeader, ok_iff, status_replying]
  intro h
  have hfirst := h (by decide) 0 (by decide)
  exact hfirst (by decide)

end BmcCodes.Uboot.AstI2c
