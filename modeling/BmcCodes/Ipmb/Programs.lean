import BmcCodes.Ipmb.Answers
import BmcCodes.Lib.CString
import BmcCodes.Lib.Network

/-!
# Two programs on one bus

`main` of `i2craw.c`, and two of these programs that run at opposite ends of a bus, each
with its own option and its own register.  The option decides whether a program asks;
the register is what it asks for and also what it answers.

A program answers the requests for its register.  It also takes every reply for a
request if its register is the read address `0x21`, with which replies begin.  So unless
both registers are `0x21`, every run comes to an end after a few steps
(`runs_end_iff`), and each program has then made one reply if it was asked for its
register and none otherwise (`settled_replies`).
-/

namespace BmcCodes.Ipmb.I2cRaw

open BmcCodes.Lib
open BmcCodes.Lib.CString (strncmp strncmp_word_eq_zero_iff)

/-! ## `main` -/

/-- What `main` does, apart from what its thread does. -/
inductive MainEvent where
  | newUsage
  | open (name : String)
  | date
  | cantCreateThread (ret : Int)
  /-- The request is written to the bus, and the status printed. -/
  | send (cmd : List Byte) (status : Int)
  | close
  deriving DecidableEq, Repr

/-- How `main` ends, if it does. -/
inductive Fate where
  | returned (status : Int)
  /-- `assert (fd > 0)` fails. -/
  | aborted
  /-- It sleeps, and the thread goes on. -/
  | sleeping
  deriving DecidableEq, Repr

/-- The name that `i2c_open` opens, which fits its buffer. -/
def i2cOpen (bus : Int) : String := "/dev/i2c" ++ toString bus

/-- `"r"` and `"w"`. -/
def optR : List Byte := [0x72]
def optW : List Byte := [0x77]

/-- `!strncmp(opt, word, strlen(opt))`. -/
def optIs (opt word : List Byte) : Bool := strncmp opt.length opt (word ++ [0]) = 0

/-- `bus` and `reg` are the values of `atoi` for the first and the third argument, `fd`
what `open` returns, `create` what `pthread_create` returns, and `ioctl` the answer to the
request. -/
def main (argc bus : Int) (opt : List Byte) (reg fd create : Int)
    (ioctl : List I2cMsg → Int) : List MainEvent × Fate :=
  if 4 ≠ argc then ([.newUsage], .returned (-1))
  else
    let sgReg := sgRegOf reg
    let events := [.open (i2cOpen bus), .date]
    if ¬fd > 0 then (events, .aborted)
    else
      let events := if create ≠ 0 then events ++ [.cantCreateThread create] else events
      if optIs opt optR then
        let cmd := requestBytes sgReg
        let ret := hwI2cRawWriteReadBytes ioctl slaveAddr 2 (some cmd) 0 none
        (events ++ [.send cmd ret], .sleeping)
      else if optIs opt optW then (events, .sleeping)
      else (events ++ [.close, .newUsage], .returned (-1))

theorem optIs_iff {opt : List Byte} (hopt : 0 ∉ opt) (word : List Byte) :
    optIs opt word = true ↔ opt <+: word := by
  rw [optIs, decide_eq_true_eq, strncmp_word_eq_zero_iff hopt]

/-- The empty option counts as `r`. -/
theorem optIs_optR_iff {opt : List Byte} (hopt : 0 ∉ opt) :
    optIs opt optR = true ↔ opt = [] ∨ opt = optR := by
  rw [optIs_iff hopt, optR, List.prefix_cons_iff]
  simp

/-- Which runs of `main` go on, and what those have written. -/
theorem main_sleeping_iff (argc bus : Int) (opt : List Byte) (reg fd create : Int)
    (ioctl : List I2cMsg → Int) :
    (main argc bus opt reg fd create ioctl).2 = .sleeping ↔
      argc = 4 ∧ fd > 0 ∧ (optIs opt optR = true ∨ optIs opt optW = true) := by
  unfold main
  by_cases hargc : 4 ≠ argc
  · rw [if_pos hargc]
    exact iff_of_false (by simp) fun h => hargc h.1.symm
  rw [if_neg hargc]
  dsimp only
  by_cases hfd : ¬fd > 0
  · rw [if_pos hfd]
    exact iff_of_false (by simp) fun h => hfd h.2.1
  rw [if_neg hfd]
  cases hr : optIs opt optR <;> cases hw : optIs opt optW <;> simp <;> omega

/-- `main` writes one request, and only under the option `r`. -/
theorem send_mem_main_iff (argc bus : Int) (opt : List Byte) (reg fd create : Int)
    (ioctl : List I2cMsg → Int) (cmd : List Byte) (status : Int) :
    .send cmd status ∈ (main argc bus opt reg fd create ioctl).1 ↔
      argc = 4 ∧ fd > 0 ∧ optIs opt optR = true ∧ cmd = requestBytes (sgRegOf reg) ∧
        status = hwI2cRawWriteReadBytes ioctl slaveAddr 2 (some cmd) 0 none := by
  unfold main
  by_cases hargc : 4 ≠ argc
  · rw [if_pos hargc]
    exact iff_of_false (by simp) fun h => hargc h.1.symm
  rw [if_neg hargc]
  dsimp only
  by_cases hfd : ¬fd > 0
  · rw [if_pos hfd]
    exact iff_of_false (by simp) fun h => hfd h.2.1
  rw [if_neg hfd]
  cases hr : optIs opt optR
  · by_cases hcreate : create ≠ 0 <;> cases hw : optIs opt optW <;> simp [hcreate]
  · have hmatch : argc = 4 ∧ fd > 0 := by omega
    by_cases hcreate : create ≠ 0 <;> simp [hcreate, hmatch] <;> grind

/-! ## The system -/

inductive Peer where
  | first
  | second
  deriving DecidableEq, Repr

def Peer.other : Peer → Peer
  | .first => .second
  | .second => .first

@[simp] theorem Peer.other_other (n : Peer) : n.other.other = n := by cases n <;> rfl

theorem Peer.eq_or_eq_other (n m : Peer) : n = m ∨ n = m.other := by
  cases n <;> cases m <;> decide

theorem Peer.other_ne (n : Peer) : n.other ≠ n := by cases n <;> decide

/-- How a program was started, with an option under which it goes on. -/
structure Config where
  opt : List Byte
  sgReg : Byte
  serves : optIs opt optR = true ∨ optIs opt optW = true

/-- `main` of the program sends a request. -/
def Config.asks (c : Config) : Bool := optIs c.opt optR

/-- What a program has written, on its way to the other one. -/
structure Frame where
  dest : Peer
  bytes : List Byte
  deriving DecidableEq, Repr

structure Peers where
  /-- The status of the write that `main` has made, if it has. -/
  request : Peer → Option Int
  /-- The replies that the task has made, whether or not the bus accepted them. -/
  replies : Peer → Nat

def Peers.initial : Peers := ⟨fun _ => none, fun _ => 0⟩

variable (config : Peer → Config)

/-- `main` of a program that asks writes its request, which the bus may refuse. -/
def Ask (s s' : Peers) (out : List Frame) : Prop :=
  ∃ n ioctl, (config n).asks = true ∧ s.request n = none ∧
    let cmd := requestBytes (config n).sgReg
    let status := hwI2cRawWriteReadBytes ioctl slaveAddr 2 (some cmd) 0 none
    s' = { s with request := Function.update s.request n (some status) } ∧
      out = if status = 0 then [⟨n.other, cmd⟩] else []

/-- The task of the receiver scans the frame; the bus may refuse any of its replies. -/
def Answer (f : Frame) (s s' : Peers) (out : List Frame) : Prop :=
  ∃ ioctl : Nat → List I2cMsg → Int,
    let events := slaveReadTask (config f.dest).sgReg ioctl f.bytes.length f.bytes
    s' = { s with
        replies := Function.update s.replies f.dest
          (s.replies f.dest + (replies events).length) } ∧
      out = (written events).map fun reg => ⟨f.dest.other, reg⟩

/-- The states that the two programs and the bus can get into. -/
def ReachablePeers : Network.State Peers Frame → Prop :=
  Network.Reachable (Ask config) (Answer config) ⟨Peers.initial, []⟩

/-- The states that they get into in `n` steps. -/
def PeerSteps : Nat → Network.State Peers Frame → Prop :=
  Network.Steps (Ask config) (Answer config) ⟨Peers.initial, []⟩

/-! ## Runs that end -/

/-- Each program takes the replies of the other one for requests, and a first request
is made. -/
def Endless : Prop := (∀ n, (config n).sgReg = 0x21) ∧ ∃ n, (config n).asks = true

/-- A frame is a request of the other program, or a reply that its receiver will not
answer. -/
def Proper (f : Frame) : Prop :=
  f.bytes = requestBytes (config f.dest.other).sgReg ∧
      (config f.dest.other).asks = true ∨
    f.bytes = replyBytes ∧ (config f.dest).sgReg ≠ 0x21

/-- The replies that a frame will cause. -/
def due (f : Frame) : Nat :=
  if f.bytes = requestBytes (config f.dest.other).sgReg ∧
    Answers (config f.dest).sgReg (config f.dest.other).sgReg then 1 else 0

/-- The replies of `n` that a frame will cause. -/
def dueFrom (n : Peer) (f : Frame) : Nat := if f.dest = n then due config f else 0

/-- What `n` owes: a reply, if the bus has accepted the request of the other program and
the task answers it. -/
def owed (n : Peer) (s : Peers) : Nat :=
  if s.request n.other = some 0 ∧ Answers (config n).sgReg (config n.other).sgReg then 1
  else 0

/-- The steps that a request of `n` may still take: the write, its delivery, and that of
a reply. -/
def toAsk (s : Peers) (n : Peer) : Nat :=
  if (config n).asks = true ∧ s.request n = none then 3 else 0

def toAskAll (s : Peers) : Nat := toAsk config s .first + toAsk config s .second

/-- The steps that a frame may still take. -/
def cost (f : Frame) : Nat := if f.bytes = replyBytes then 1 else 2

/-- The programs that send a request. -/
def askers : Nat := ([Peer.first, .second].filter fun n => (config n).asks).length

section Ends

variable {config} (hends : ¬Endless config)

/-- The task makes the replies that are due. -/
theorem Proper.replies_eq {f : Frame} (h : Proper config f)
    (ioctl : Nat → List I2cMsg → Int) :
    (replies (slaveReadTask (config f.dest).sgReg ioctl f.bytes.length f.bytes)).length =
      due config f := by
  rcases h with ⟨hbytes, -⟩ | ⟨hbytes, hreg⟩
  · rw [hbytes, replies_requestBytes, due]
    simp [hbytes]
  · rw [hbytes, replies_replyBytes hreg, due, hbytes,
      if_neg fun h => requestBytes_ne_replyBytes _ h.1.symm]
    rfl

theorem proper_of_ask {s s' : Peers} {out : List Frame} (h : Ask config s s' out) :
    ∀ f ∈ out, Proper config f := by
  obtain ⟨n, ioctl, hasks, -, -, rfl⟩ := h
  split
  · intro f hf
    rw [List.mem_singleton.mp hf]
    exact .inl ⟨by rw [Peer.other_other], by rwa [Peer.other_other]⟩
  · simp

include hends in
theorem Proper.answer {f : Frame} {s s' : Peers} {out : List Frame} (hf : Proper config f)
    (h : Answer config f s s' out) : ∀ f' ∈ out, Proper config f' := by
  obtain ⟨ioctl, -, rfl⟩ := h
  intro f' hf'
  obtain ⟨reg, hreg, rfl⟩ := List.mem_map.mp hf'
  refine .inr ⟨(slaveReadTask_replies _ ioctl _ _).2 reg hreg, ?_⟩
  -- a reply has been made, so the frame was a request, and not for the read address
  have hlength := length_written_le
    (slaveReadTask (config f.dest).sgReg ioctl f.bytes.length f.bytes)
  have hpos := List.length_pos_of_mem hreg
  rw [hf.replies_eq ioctl, due] at hlength
  split at hlength
  · next hdue =>
      intro hother
      rcases hf with ⟨-, hasks⟩ | ⟨hbytes, -⟩
      · refine hends ⟨fun n => ?_, _, hasks⟩
        rcases n.eq_or_eq_other f.dest with rfl | rfl
        · rcases hdue.2 with hreg21 | ⟨heq, -⟩
          · exact hreg21
          · exact heq.symm.trans hother
        · exact hother
      · exact requestBytes_ne_replyBytes _ (hdue.1.symm.trans hbytes)
  · omega

/-- Replies cause nothing. -/
theorem sum_dueFrom_written (n dest : Peer) (reg : Byte) (ioctl : Nat → List I2cMsg → Int)
    (bytes : List Byte) :
    (((written (slaveReadTask reg ioctl bytes.length bytes)).map
      fun reg => (⟨dest, reg⟩ : Frame)).map (dueFrom config n)).sum = 0 := by
  rw [List.map_map]
  refine List.sum_eq_zero fun x hx => ?_
  obtain ⟨bytes', hbytes, rfl⟩ := List.mem_map.mp hx
  have hreply := (slaveReadTask_replies reg ioctl _ _).2 bytes' hbytes
  have hdue : due config ⟨dest, bytes'⟩ = 0 :=
    if_neg fun h => requestBytes_ne_replyBytes _ (h.1.symm.trans hreply)
  simp [dueFrom, hdue]

/-- A request that the bus accepts makes a reply due, where one is owed for it. -/
theorem owed_of_ask {n : Peer} {s s' : Peers} {out : List Frame} (h : Ask config s s' out) :
    s'.replies n + (out.map (dueFrom config n)).sum + owed config n s =
      s.replies n + owed config n s' := by
  obtain ⟨m, ioctl, -, hnone, rfl, rfl⟩ := h
  generalize hwI2cRawWriteReadBytes ioctl slaveAddr 2
    (some (requestBytes (config m).sgReg)) 0 none = status
  rcases m.eq_or_eq_other n with rfl | rfl
  · -- its own request
    have hsum : ((if status = 0 then [(⟨m.other, requestBytes (config m).sgReg⟩ : Frame)]
        else []).map (dueFrom config m)).sum = 0 := by
      split <;> simp [dueFrom, Peer.other_ne]
    simp only [hsum, owed, Function.update_of_ne m.other_ne]
    omega
  · by_cases hstatus : status = 0
    · simp [hstatus, hnone, owed, dueFrom, due]
    · simp [hstatus, hnone, owed]

/-- The task makes the replies that the frame causes. -/
theorem owed_of_answer {n : Peer} {f : Frame} {s s' : Peers} {out : List Frame}
    (hf : Proper config f) (h : Answer config f s s' out) :
    s'.replies n + (out.map (dueFrom config n)).sum + owed config n s =
      s.replies n + dueFrom config n f + owed config n s' := by
  obtain ⟨ioctl, rfl, rfl⟩ := h
  rw [sum_dueFrom_written, hf.replies_eq]
  by_cases hn : f.dest = n
  · subst hn
    simp [dueFrom, owed]
  · simp [dueFrom, owed, hn, Function.update_of_ne (Ne.symm hn)]

include hends in
/-- The replies that have been made and those that will be are those that are owed. -/
theorem replies_balance {s : Network.State Peers Frame} (h : ReachablePeers config s)
    (n : Peer) :
    Network.potential (fun s : Peers => s.replies n) (dueFrom config n) s =
      owed config n s.parties :=
  Network.potential_eq_of_reachable (P := Proper config) (ψ := owed config n)
    (fun _ _ _ h => proper_of_ask h) (fun _ _ _ _ hf h => hf.answer hends h)
    (fun _ _ _ h => owed_of_ask h) (fun _ _ _ _ hf h => owed_of_answer hf h)
    (by simp) (by simp [Network.potential, Peers.initial, owed]) h

include hends in
/-- **What has been answered once nothing is on its way**: each program has replied once
if the bus accepted the request of the other one and its task answers that, and never
otherwise. -/
theorem settled_replies {s : Network.State Peers Frame} (h : ReachablePeers config s)
    (hsettled : s.inFlight = []) (n : Peer) :
    s.parties.replies n = owed config n s.parties := by
  rw [← replies_balance hends h, Network.potential, hsettled]
  rfl

/-- A program has made a request only if it was started to. -/
theorem asks_of_request {s : Network.State Peers Frame} (h : ReachablePeers config s) (n : Peer) :
    s.parties.request n ≠ none → (config n).asks = true := by
  refine Network.parties_of_reachable (P := fun s : Peers => s.request n ≠ none →
    (config n).asks = true) ?_ ?_ (fun hnone => absurd rfl hnone) h
  · intro s s' out hask hkept hrequest
    obtain ⟨m, ioctl, hasks, -, rfl, -⟩ := hask
    by_cases hm : n = m
    · rw [hm]
      exact hasks
    · simp only [Function.update_of_ne hm] at hrequest
      exact hkept hrequest
  · intro f s s' out hanswer hkept
    obtain ⟨ioctl, rfl, -⟩ := hanswer
    exact hkept

include hends in
/-- In the meantime, no program has replied more than once, or without having been asked. -/
theorem replies_le_of_reachable {s : Network.State Peers Frame} (h : ReachablePeers config s)
    (n : Peer) : s.parties.replies n ≤ (config n.other).asks.toNat := by
  have hbalance := replies_balance hends h n
  have howed : owed config n s.parties ≤ (config n.other).asks.toNat := by
    unfold owed
    split
    · next howed =>
        have hrequest : s.parties.request n.other ≠ none := by
          rw [howed.1]
          exact Option.some_ne_none 0
        rw [asks_of_request h n.other hrequest]
        exact Nat.le_refl 1
    · exact Nat.zero_le _
  rw [Network.potential] at hbalance
  omega

/-- One program that asks and one that does not, for the same register. -/
def exchange (sgReg : Byte) : Peer → Config
  | .first => ⟨optR, sgReg, by decide⟩
  | .second => ⟨optW, sgReg, by decide⟩

def reader : Peer → Config := exchange 0x30

theorem settled_replies_reader :
    ∃ s, ReachablePeers reader s ∧ s.parties.request .first = some 0 ∧
      s.parties.replies .second = owed reader .second s.parties := by
  have hends : ¬Endless reader := fun h => absurd (h.1 .first) (by decide)
  let asked : Peers :=
    { Peers.initial with request := Function.update Peers.initial.request .first (some 0) }
  let answered : Peers :=
    { asked with replies := Function.update asked.replies .second 1 }
  let settled : Peers :=
    { answered with replies := Function.update answered.replies .first 0 }
  have hask : Network.Step (Ask reader) (Answer reader) ⟨Peers.initial, []⟩
      ⟨asked, [⟨.second, requestBytes 0x30⟩]⟩ :=
    Network.Step.act [] ⟨.first, fun _ => 1, by decide, rfl, rfl, rfl⟩
  have hanswer : Network.Step (Ask reader) (Answer reader)
      ⟨asked, [⟨.second, requestBytes 0x30⟩]⟩ ⟨answered, [⟨.first, replyBytes⟩]⟩ :=
    Network.Step.deliver [] [] ⟨fun _ _ => 1, rfl, rfl⟩
  have hreply : Network.Step (Ask reader) (Answer reader)
      ⟨answered, [⟨.first, replyBytes⟩]⟩ ⟨settled, []⟩ :=
    Network.Step.deliver [] [] ⟨fun _ _ => 1, rfl, rfl⟩
  have hrun := ((Relation.ReflTransGen.single hask).tail hanswer).tail hreply
  exact ⟨_, hrun, rfl, settled_replies hends hrun rfl .second⟩

theorem toAskAll_eq (s : Peers) (n : Peer) :
    toAskAll config s = toAsk config s n + toAsk config s n.other := by
  cases n
  · rfl
  · exact Nat.add_comm _ _

theorem cost_of_ask {s s' : Peers} {out : List Frame} (h : Ask config s s' out) :
    toAskAll config s' + (out.map cost).sum + 1 ≤ toAskAll config s := by
  obtain ⟨n, ioctl, hasks, hnone, rfl, rfl⟩ := h
  generalize hwI2cRawWriteReadBytes ioctl slaveAddr 2
    (some (requestBytes (config n).sgReg)) 0 none = status
  have hout : ((if status = 0 then [(⟨n.other, requestBytes (config n).sgReg⟩ : Frame)]
      else []).map cost).sum ≤ 2 := by
    split
    · simp [cost, requestBytes_ne_replyBytes]
    · exact Nat.zero_le 2
  have hbefore : toAsk config s n = 3 := if_pos ⟨hasks, hnone⟩
  have hother : toAsk config { s with request := Function.update s.request n (some status) }
      n.other = toAsk config s n.other := by
    simp only [toAsk, Function.update_of_ne n.other_ne]
  have hafter : toAsk config { s with request := Function.update s.request n (some status) }
      n = 0 := by simp [toAsk]
  rw [toAskAll_eq _ n, toAskAll_eq _ n, hbefore, hother, hafter]
  omega

theorem cost_of_answer {f : Frame} {s s' : Peers} {out : List Frame}
    (hf : Proper config f) (h : Answer config f s s' out) :
    toAskAll config s' + (out.map cost).sum + 1 ≤ toAskAll config s + cost f := by
  obtain ⟨ioctl, rfl, rfl⟩ := h
  have hcost : (((written (slaveReadTask (config f.dest).sgReg ioctl f.bytes.length
      f.bytes)).map fun reg => (⟨f.dest.other, reg⟩ : Frame)).map cost) =
        (written (slaveReadTask (config f.dest).sgReg ioctl f.bytes.length f.bytes)).map
          fun _ => 1 := by
    rw [List.map_map]
    refine List.map_congr_left fun reg hreg => ?_
    exact if_pos ((slaveReadTask_replies _ ioctl _ _).2 reg hreg)
  have hlength := length_written_le
    (slaveReadTask (config f.dest).sgReg ioctl f.bytes.length f.bytes)
  have hdue : due config f + 1 ≤ cost f := by
    unfold due cost
    split
    · next h => rw [if_neg (h.1 ▸ requestBytes_ne_replyBytes _)]
    · split <;> decide
  rw [hf.replies_eq] at hlength
  rw [hcost, List.map_const', List.sum_replicate_nat]
  simp only [toAskAll, toAsk, Nat.mul_one]
  omega

include hends in
theorem steps_le {k : Nat} {s : Network.State Peers Frame} (h : PeerSteps config k s) :
    k ≤ 3 * askers config := by
  have hpotential : Network.potential (toAskAll config) cost s + k ≤
      Network.potential (toAskAll config) cost ⟨Peers.initial, []⟩ := by
    refine Network.potential_add_le_of_steps (P := Proper config) ?_ ?_ ?_ ?_ (by simp) h
    · exact fun _ _ _ h => proper_of_ask h
    · exact fun _ _ _ _ hf h => hf.answer hends h
    · exact fun _ _ _ h => cost_of_ask h
    · exact fun _ _ _ _ hf h => cost_of_answer hf h
  have hstart : Network.potential (toAskAll config) cost ⟨Peers.initial, []⟩ =
      3 * askers config := by
    simp only [Network.potential, toAskAll, toAsk, askers, Peers.initial]
    cases hfirst : (config .first).asks <;> cases hsecond : (config .second).asks <;>
      simp [hfirst, hsecond]
  omega

end Ends

/-! ## Runs without end -/

variable {config} in
/-- Each reply asks for the next one, if the bus accepts them. -/
theorem exists_steps_of_endless (hendless : Endless config) (k : Nat) :
    ∃ s dest bytes, PeerSteps config (k + 1) ⟨s, [⟨dest, bytes⟩]⟩ ∧
      (bytes = replyBytes ∨ bytes = requestBytes 0x21) ∧
      s.replies .first + s.replies .second = k := by
  obtain ⟨hreg, n, hasks⟩ := hendless
  induction k with
  | zero =>
      refine ⟨{ Peers.initial with request := Function.update Peers.initial.request n (some 0) },
        n.other, requestBytes 0x21, ?_, .inr rfl, rfl⟩
      have hask : Ask config Peers.initial
          { Peers.initial with request := Function.update Peers.initial.request n (some 0) }
          [⟨n.other, requestBytes 0x21⟩] := by
        refine ⟨n, fun _ => 1, hasks, rfl, ?_⟩
        rw [hreg]
        exact ⟨rfl, rfl⟩
      exact Network.Steps.refl.tail (Network.Step.act [] hask)
  | succ k ih =>
      obtain ⟨s, dest, bytes, hsteps, hbytes, hreplies⟩ := ih
      refine ⟨{ s with replies := Function.update s.replies dest (s.replies dest + 1) },
        dest.other, replyBytes, hsteps.tail (Network.Step.deliver [] [] ?_), .inl rfl, ?_⟩
      · refine ⟨fun _ _ => 1, ?_⟩
        dsimp only
        rw [hreg, slaveReadTask_readAddr bytes hbytes]
        exact ⟨rfl, rfl⟩
      · rw [← hreplies]
        cases dest
        · exact Nat.add_right_comm _ 1 _
        · rfl

/-- **Every run ends after a few steps**, three for each program that asks, unless each
program takes the replies of the other one for requests; then there are runs of any
length. -/
theorem runs_end_iff :
    ((∀ k s, PeerSteps config k s → k ≤ 3 * askers config) ↔ ¬Endless config) ∧
      (Endless config → ∀ k, ∃ s, PeerSteps config k s) := by
  refine ⟨⟨?_, fun hends k s h => steps_le hends h⟩, ?_⟩
  · intro h hendless
    obtain ⟨s, dest, bytes, hsteps, -⟩ :=
      exists_steps_of_endless hendless (3 * askers config)
    exact absurd (h _ _ hsteps) (by omega)
  · intro hendless k
    cases k with
    | zero => exact ⟨_, Network.Steps.refl⟩
    | succ k =>
        obtain ⟨s, dest, bytes, hsteps, -⟩ := exists_steps_of_endless hendless k
        exact ⟨_, hsteps⟩

end BmcCodes.Ipmb.I2cRaw
