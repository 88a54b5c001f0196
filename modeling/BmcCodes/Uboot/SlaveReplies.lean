import BmcCodes.Uboot.Commands
import Mathlib.Logic.Function.Iterate

/-!
# The replies of the slave command

`do_slaverw` receives one byte per iteration and answers the byte `0x21` with
two others.  The variable `byte` outlives the iteration, and a failing receive
leaves it as it was; that an old `0x21` is not answered again rests on the reset
of `byte` before the answer.  `byte` is thus never `0x21` where a receive is
issued, which also settles the flag that the receive passes to the controller.
-/

namespace BmcCodes.Uboot.AstI2c

/-! ## One iteration -/

/-- What the receive of an iteration stores, if it succeeds; `x` is `byte` and
the board at the head of the loop. -/
def slaveReceived (ctl : Controller) (x : Byte × Board) : Option Byte :=
  (i2cReceiveByte ctl (if 0x21 = x.1 then 1 else 0) slavem x.2).2.1

/-- `byte` and the board at the end of the iteration. -/
def slaveIter (ctl : Controller) (x : Byte × Board) : Byte × Board :=
  let (_, stored, s) := i2cReceiveByte ctl (if 0x21 = x.1 then 1 else 0) slavem x.2
  let byte := stored.getD x.1
  if 0x21 = byte then
    let (_, s) := i2cSendByte ctl 0x00 slavem s
    let (_, s) := i2cSendByte ctl 0x55 slavem s
    (0, s)
  else (byte, s)

/-- The commands that should make up an iteration: one receive, not marked as the
last one, and the answer to the byte `0x21`. -/
def replyCommands (received : Option Byte) : List (Option Word × Word) :=
  (none, 0x00) ::
    if received = some 0x21 then [(some 0x00, 1 <<< 2), (some 0x55, 1 <<< 2)] else []

theorem slaveLoop_eq_iterate (ctl : Controller) (n : Nat) (x : Byte × Board) :
    slaveLoop ctl n x.1 x.2 = ((slaveIter ctl)^[n] x).2 := by
  induction n generalizing x with
  | zero => rfl
  | succ n ih =>
      rw [Function.iterate_succ_apply, ← ih, slaveLoop]
      simp only [slaveIter]
      generalize i2cReceiveByte ctl (if 0x21 = x.1 then 1 else 0) slavem x.2 = r
      split <;> rfl

/-- **One iteration** keeps `byte` off `0x21`, and issues the commands it should. -/
theorem slaveIter_spec (ctl : Controller) {x : Byte × Board} (hx : x.1 ≠ 0x21) :
    (slaveIter ctl x).1 ≠ 0x21 ∧
      ∃ l, (slaveIter ctl x).2.accesses = x.2.accesses ++ l ∧
        l.filterMap Access.commandWrite =
          (replyCommands (slaveReceived ctl x)).flatMap writesOf := by
  have hlast : (if 0x21 = x.1 then (1 : Int) else 0) = 0 := if_neg fun h => hx h.symm
  let S := x.2.session ctl slavem
  have hreceive : writesOf (Step.command S.mode (.receive 0)) = writesOf (none, 0x00) := rfl
  have hsend : ∀ byte, Step.command S.mode (.send byte) =
      (some (byte.setWidth 32 &&& 0x000000FF), (1 <<< 2 : Word)) := fun _ => rfl
  simp only [slaveIter, slaveReceived, hlast, i2cReceiveByte_eq, i2cSendByte_eq,
    after_session, after_polls, after_after]
  by_cases hreply : (if S.ok x.2.polls (.receive 0) then some (S.received x.2.polls)
      else none) = some 0x21
  · rw [hreply, Option.getD_some, if_pos rfl]
    refine ⟨(by decide : (0 : Byte) ≠ 0x21), _, rfl, ?_⟩
    simp only [List.filterMap_append, filterMap_emit, replyCommands, if_pos]
    rfl
  · have hbyte : (if S.ok x.2.polls (.receive 0) then some (S.received x.2.polls)
        else none).getD x.1 ≠ 0x21 := by
      split
      · next hok =>
          rw [if_pos hok] at hreply
          exact fun h => hreply (congrArg some h)
      · exact hx
    rw [if_neg fun h => hbyte h.symm]
    refine ⟨hbyte, _, rfl, ?_⟩
    rw [filterMap_emit, replyCommands, if_neg hreply]
    rfl

/-! ## Runs of the loop -/

theorem iterate_slaveIter_ne (ctl : Controller) {x : Byte × Board} (hx : x.1 ≠ 0x21)
    (k : Nat) : ((slaveIter ctl)^[k] x).1 ≠ 0x21 := by
  induction k with
  | zero => exact hx
  | succ k ih =>
      rw [Function.iterate_succ_apply']
      exact (slaveIter_spec ctl ih).1

/-- The commands of the first `n` iterations are those of each of them. -/
theorem iterate_slaveIter_accesses (ctl : Controller) {x : Byte × Board}
    (hx : x.1 ≠ 0x21) (n : Nat) :
    ∃ l, ((slaveIter ctl)^[n] x).2.accesses = x.2.accesses ++ l ∧
      l.filterMap Access.commandWrite =
        ((List.range n).flatMap fun k =>
          replyCommands (slaveReceived ctl ((slaveIter ctl)^[k] x))).flatMap writesOf := by
  induction n with
  | zero => exact ⟨[], (List.append_nil _).symm, rfl⟩
  | succ n ih =>
      obtain ⟨l, hl, hwrites⟩ := ih
      obtain ⟨_, l', hl', hwrites'⟩ := slaveIter_spec ctl (iterate_slaveIter_ne ctl hx n)
      refine ⟨l ++ l', ?_, ?_⟩
      · rw [Function.iterate_succ_apply', hl', hl, List.append_assoc]
      · rw [List.filterMap_append, hwrites, hwrites', List.range_succ, List.flatMap_append,
          List.flatMap_append, List.flatMap_singleton]

/-- `byte` and the board when `do_slaverw` gets to iteration `k`. -/
def slaveHead (ctl : Controller) (bus : Word) (s : Board) (k : Nat) : Byte × Board :=
  (slaveIter ctl)^[k]
    (0, realI2cInit i2cBusSpeed i2cBusSlaveaddr slavem { s with i2cBusNum := bus.toInt })

/-- **The replies of `do_slaverw`**, in every run of its loop: `byte` is never
`0x21` at its head, and the commands issued are one receive per iteration, and
the two bytes of the answer directly after each receive that yields `0x21`. -/
theorem doSlaverw_replies (ctl : Controller) (bus : Word) (n : Nat) (s : Board) :
    (∀ k, (slaveHead ctl bus s k).1 ≠ 0x21) ∧
      (doSlaverw ctl 2 bus n s).2 = (slaveHead ctl bus s n).2 ∧
      commands (s.since (doSlaverw ctl 2 bus n s).2) =
        (List.range n).flatMap fun k =>
          replyCommands (slaveReceived ctl (slaveHead ctl bus s k)) := by
  have hstart : ((0 : Byte), realI2cInit i2cBusSpeed i2cBusSlaveaddr slavem
      { s with i2cBusNum := bus.toInt }).1 ≠ 0x21 := (by decide : (0 : Byte) ≠ 0x21)
  have hloop : (doSlaverw ctl 2 bus n s).2 = (slaveHead ctl bus s n).2 := by
    rw [slaveHead, ← slaveLoop_eq_iterate]
    rfl
  refine ⟨iterate_slaveIter_ne ctl hstart, hloop, ?_⟩
  obtain ⟨l, hl, hwrites⟩ := iterate_slaveIter_accesses ctl hstart n
  have haccesses : (slaveHead ctl bus s n).2.accesses =
      s.accesses ++ (initLog i2cBusSlaveaddr { s with i2cBusNum := bus.toInt } ++ l) := by
    rw [slaveHead, hl, realI2cInit_accesses, List.append_assoc]
  rw [hloop, since_eq haccesses, commands, List.filterMap_append, filterMap_initLog,
    hwrites, List.nil_append]
  have hpairs := pairUp_flatMap_writesOf ((List.range n).flatMap fun k =>
    replyCommands (slaveReceived ctl (slaveHead ctl bus s k))) []
  rw [List.append_nil, pairUp, List.append_nil] at hpairs
  exact hpairs

end BmcCodes.Uboot.AstI2c
