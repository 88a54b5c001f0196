import BmcCodes.Adc.Original
import BmcCodes.Lib.LastWrite
import BmcCodes.Lib.Update

/-!
# The channel bits of the original driver

Each of the bits `[31:16]` of the engine control register enables a channel.
`enable_adc_channel` sets the bit of its channel and nothing else.
`disable_adc_channel` is meant to clear it and nothing else; but its mask
`~0x01 << (16 + n)` has only the bits above `16 + n`, so the call clears all
lower channels too, and the engine bits `[15:0]`.

In terms of last writes, a disable makes stray stores of `false`, and a run has
the intended outcome exactly when these are harmless.
-/

namespace BmcCodes.Adc.Original

open BmcCodes.Lib BmcCodes.Lib.LastWrite

inductive ChannelOp where
  | enable (n : Fin 16)
  | disable (n : Fin 16)
  deriving DecidableEq, Repr

namespace ChannelOp

def exec (s : Driver) : ChannelOp → Driver
  | .enable n => (enableAdcChannel (BitVec.ofNat 8 n) s).2
  | .disable n => (disableAdcChannel (BitVec.ofNat 8 n) s).2

def channel : ChannelOp → Fin 16
  | .enable n => n
  | .disable n => n

/-- What the call is meant to store in the bit of channel `m`. -/
def assigns (m : Fin 16) (op : ChannelOp) : Option Bool :=
  if op.channel = m then
    match op with
    | .enable _ => some true
    | .disable _ => some false
  else none

/-- The register macros as updates. -/
def update : ChannelOp → Update 32
  | .enable n => ⟨BitVec.allOnes 32, BitVec.twoPow 32 (16 + n)⟩
  | .disable n => ⟨(0xFFFFFFFE : Word) <<< (16 + n.val), 0⟩

theorem exec_engineControl (s : Driver) (op : ChannelOp) :
    (op.exec s).regs engineControl = op.update.apply (s.regs engineControl) := by
  have hchannel : ∀ n : Fin 16,
      adcChannelEnable + ((BitVec.ofNat 8 n).toNat : Int) = ((16 + n : Nat) : Int) := by
    decide
  cases op with
  | enable n =>
      simp only [exec, enableAdcChannel, Driver.writeRegisterOr, Driver.writeRegister,
        Driver.readRegister, if_true, hchannel, shl_natCast, update, Update.apply,
        BitVec.and_allOnes, BitVec.twoPow_eq]
      rfl
  | disable n =>
      simp only [exec, disableAdcChannel, Driver.writeRegisterAnd, Driver.writeRegister,
        Driver.readRegister, if_true, hchannel, shl_natCast, update, Update.apply]
      rfl

/-- What the call does store in bit `i`. -/
def stores (i : Nat) : ChannelOp → Option Bool
  | .enable n => if i = 16 + n then some true else none
  | .disable n => if i ≤ 16 + n then some false else none

theorem update_storesBit (op : ChannelOp) (i : Nat) (hi : i < 32) :
    op.update.storesBit i = op.stores i := by
  cases op with
  | enable n =>
      have hdata : (BitVec.twoPow 32 (16 + n)).getLsbD i = decide (i = 16 + n) := by
        rw [BitVec.getLsbD_twoPow, decide_eq_true (by omega : 16 + n.val < 32),
          Bool.true_and]
        exact decide_eq_decide.mpr eq_comm
      rw [Update.storesBit, update, hdata, BitVec.getLsbD_allOnes, decide_eq_true hi,
        stores]
      by_cases hin : i = 16 + n <;> simp [hin]
  | disable n =>
      have hmask : ∀ k < 32, (0xFFFFFFFE : Word).getLsbD k = decide (0 < k) := by decide
      have hkeep : ((0xFFFFFFFE : Word) <<< (16 + n.val)).getLsbD i =
          decide (16 + n < i) := by
        rw [BitVec.getLsbD_shiftLeft, hmask _ (by omega), decide_eq_true hi]
        by_cases hin : i ≤ 16 + n
        · simp [show ¬(16 + n.val < i) by omega, show i - (16 + n.val) = 0 by omega]
        · simp [show 16 + n.val < i by omega, show ¬(i < 16 + n.val) by omega,
            show 0 < i - (16 + n.val) by omega]
      simp only [Update.storesBit, update, hkeep, stores]
      by_cases hin : i ≤ 16 + n
      · simp [hin, show ¬(16 + n.val < i) by omega]
      · simp [hin, show 16 + n.val < i by omega]

theorem assigns_eq_none_iff (m : Fin 16) (op : ChannelOp) :
    op.assigns m = none ↔ op.channel ≠ m := by
  unfold assigns
  split
  · next h => cases op <;> simp [h]
  · next h => simp [h]

theorem exec_getLsbD (op : ChannelOp) (s : Driver) (i : Nat) (hi : i < 32) :
    ((op.exec s).regs engineControl).getLsbD i =
      (op.stores i).getD ((s.regs engineControl).getLsbD i) := by
  rw [exec_engineControl, Update.apply_getLsbD, update_storesBit op i hi]

/-- A call does what it is meant to do to its own channel. -/
theorem stores_of_assigns {m : Fin 16} {op : ChannelOp} {b : Bool}
    (h : op.assigns m = some b) : op.stores (16 + m) = some b := by
  unfold assigns at h
  split at h
  · next hm => cases op <;> simp_all [channel, stores]
  · simp at h

/-- Among the calls for other channels, those that disable a higher one store
`false`, and the others nothing. -/
theorem stores_of_channel_ne {m : Fin 16} {op : ChannelOp} (h : op.channel ≠ m) :
    op.stores (16 + m) =
      match op with
      | .enable _ => none
      | .disable n => if m < n then some false else none := by
  cases op with
  | enable n =>
      have hne : ¬16 + m.val = 16 + n.val := fun hmn => h (Fin.ext (by
        show n.val = m.val
        omega))
      exact if_neg hne
  | disable n =>
      have hne : n.val ≠ m.val := fun hmn => h (Fin.ext hmn)
      have hiff : 16 + m.val ≤ 16 + n.val ↔ m < n := by
        rw [Fin.lt_def]
        omega
      simp only [stores, hiff]

end ChannelOp

/-! ## Runs of calls -/

/-- After a run of calls the content `r'` has every channel as the last call
that names it left it, and the engine bits as in the initial content `r`. -/
structure ChannelsFollow (r : Word) (ops : List ChannelOp) (r' : Word) : Prop where
  channels : ∀ m : Fin 16, r'.getLsbD (16 + m) =
    lastWrite (ChannelOp.assigns m) (r.getLsbD (16 + m)) ops
  engine : ∀ i < 16, r'.getLsbD i = r.getLsbD i

/-- Every disable of the run finds the engine bits clear, and clear as well
every lower channel that no later call names. -/
def DisablesHarmless (r : Word) (ops : List ChannelOp) : Prop :=
  ∀ pre n post, ops = pre ++ .disable n :: post →
    (∀ i < 16, r.getLsbD i = false) ∧
      ∀ m < n, (∀ op ∈ post, op.channel ≠ m) →
        lastWrite (ChannelOp.assigns m) (r.getLsbD (16 + m)) pre = false

/-- Bit `i` holds the last of the values actually stored in it. -/
theorem run_engineControl_getLsbD (s : Driver) (ops : List ChannelOp) (i : Nat)
    (hi : i < 32) :
    ((ops.foldl ChannelOp.exec s).regs engineControl).getLsbD i =
      lastWrite (ChannelOp.stores i) ((s.regs engineControl).getLsbD i) ops := by
  exact foldl_eq_lastWrite (fun s : Driver => (s.regs engineControl).getLsbD i) _ _
    (fun s op => op.exec_getLsbD s i hi) s ops

/-- A channel follows the calls that name it if and only if no disable of a
higher one does it harm. -/
theorem channel_follows_iff (s : Driver) (ops : List ChannelOp) (m : Fin 16) :
    ((ops.foldl ChannelOp.exec s).regs engineControl).getLsbD (16 + m) =
        lastWrite (ChannelOp.assigns m)
          ((s.regs engineControl).getLsbD (16 + m)) ops ↔
      ∀ pre n post, ops = pre ++ .disable n :: post → m < n →
        (∀ op ∈ post, op.channel ≠ m) →
          lastWrite (ChannelOp.assigns m)
            ((s.regs engineControl).getLsbD (16 + m)) pre = false := by
  rw [run_engineControl_getLsbD s ops _ (by omega),
    lastWrite_eq_iff_strayHarmless _ false]
  · constructor
    · intro h pre n post hsplit hmn hpost
      have hne : (ChannelOp.disable n).channel ≠ m := Fin.ne_of_gt hmn
      refine h pre (.disable n) post hsplit
        ((ChannelOp.assigns_eq_none_iff ..).mpr hne) ?_ ?_
      · rw [ChannelOp.stores_of_channel_ne hne]
        exact if_pos hmn
      · exact fun op hop => (ChannelOp.assigns_eq_none_iff ..).mpr (hpost op hop)
    · intro h pre op post hsplit hother hstray hpost
      rw [ChannelOp.stores_of_channel_ne ((ChannelOp.assigns_eq_none_iff ..).mp hother)]
        at hstray
      cases op with
      | enable n => simp at hstray
      | disable n =>
          have hmn : m < n := by
            by_contra hmn
            simp [hmn] at hstray
          exact h pre n post hsplit hmn fun op hop =>
            (ChannelOp.assigns_eq_none_iff ..).mp (hpost op hop)
  · exact fun op b h => ChannelOp.stores_of_assigns h
  · intro op hother
    rw [ChannelOp.stores_of_channel_ne ((ChannelOp.assigns_eq_none_iff ..).mp hother)]
    cases op with
    | enable n => exact .inl rfl
    | disable n =>
        by_cases hmn : m < n
        · exact .inr (if_pos hmn)
        · exact .inl (if_neg hmn)

/-- An engine bit keeps its content if and only if it is clear or no call
disables a channel. -/
theorem engineBit_kept_iff (s : Driver) (ops : List ChannelOp) (i : Nat)
    (hi : i < 16) :
    ((ops.foldl ChannelOp.exec s).regs engineControl).getLsbD i =
        (s.regs engineControl).getLsbD i ↔
      ∀ pre n post, ops = pre ++ .disable n :: post →
        (s.regs engineControl).getLsbD i = false := by
  have hdisable : ∀ n : Fin 16, i ≤ 16 + n := fun n => by omega
  have henable : ∀ n : Fin 16, i ≠ 16 + n := fun n => by omega
  generalize hbit : (s.regs engineControl).getLsbD i = b
  rw [run_engineControl_getLsbD s ops i (by omega), hbit]
  -- no call is meant to store anything in the bit
  have hintended : ∀ l : List ChannelOp, lastWrite (fun _ => none) b l = b :=
    fun l => lastWrite_of_silent _ b l fun _ _ => rfl
  have hstray : ∀ op : ChannelOp, op.stores i = none ∨ op.stores i = some false := by
    intro op
    cases op with
    | enable n => exact .inl (if_neg (henable n))
    | disable n => exact .inr (if_pos (hdisable n))
  have hiff : lastWrite (ChannelOp.stores i) b ops = lastWrite (fun _ => none) b ops ↔
      StrayHarmless (fun _ => none) (ChannelOp.stores i) b false ops :=
    lastWrite_eq_iff_strayHarmless b false (by simp) (fun op _ => hstray op) ops
  rw [hintended] at hiff
  rw [hiff]
  constructor
  · intro h pre n post hsplit
    rw [← hintended pre]
    exact h pre _ post hsplit rfl (if_pos (hdisable n)) fun _ _ => rfl
  · intro h pre op post hsplit _ hclear _
    rw [hintended]
    cases op with
    | enable n => simp [ChannelOp.stores, henable] at hclear
    | disable n => exact h pre n post hsplit

/-! ## Two calls -/

/-- One call disables a channel above the one that the other enables. -/
def Clash : ChannelOp → ChannelOp → Prop
  | .enable m, .disable n => m < n
  | .disable n, .enable m => m < n
  | _, _ => False

private theorem pair_getLsbD (s : Driver) (a b : ChannelOp) (i : Nat)
    (hi : i < 32) :
    (([a, b].foldl ChannelOp.exec s).regs engineControl).getLsbD i =
      (b.stores i).getD ((a.stores i).getD ((s.regs engineControl).getLsbD i)) := by
  rw [run_engineControl_getLsbD s [a, b] i hi]
  exact (lastWrite_concat _ _ [a] b).trans
    (congrArg _ (lastWrite_concat _ _ [] a))

private theorem enable_disable_commute_iff (s : Driver) {m n : Fin 16}
    (hne : m ≠ n) :
    ([.enable m, .disable n].foldl ChannelOp.exec s).regs engineControl =
        ([.disable n, .enable m].foldl ChannelOp.exec s).regs engineControl ↔
      ¬ m < n := by
  constructor
  · intro h hmn
    have hbit := congrArg (fun r => r.getLsbD (16 + m)) h
    simp only [pair_getLsbD s _ _ (16 + m) (by omega), ChannelOp.stores,
      show 16 + m.val ≤ 16 + n.val by omega, if_true, Option.getD_some] at hbit
    exact Bool.false_ne_true hbit
  · intro hmn
    apply BitVec.eq_of_getLsbD_eq
    intro i hi
    rw [pair_getLsbD s _ _ i hi, pair_getLsbD s _ _ i hi]
    by_cases him : i = 16 + m
    · have hkept : ¬16 + m.val ≤ 16 + n.val := by
        have := Fin.val_ne_of_ne hne
        omega
      simp only [ChannelOp.stores, him, hkept, if_true, if_false, Option.getD_none]
    · simp only [ChannelOp.stores, him, if_false, Option.getD_none]

/-- Calls for different channels commute unless they clash. -/
theorem commute_iff_not_clash (s : Driver) (a b : ChannelOp)
    (hne : a.channel ≠ b.channel) :
    ([a, b].foldl ChannelOp.exec s).regs engineControl =
        ([b, a].foldl ChannelOp.exec s).regs engineControl ↔
      ¬ Clash a b := by
  have hsame : ∀ v : Bool, (∀ i, a.stores i = some v ∨ a.stores i = none) →
      (∀ i, b.stores i = some v ∨ b.stores i = none) →
      ([a, b].foldl ChannelOp.exec s).regs engineControl =
        ([b, a].foldl ChannelOp.exec s).regs engineControl := by
    intro v ha hb
    apply BitVec.eq_of_getLsbD_eq
    intro i hi
    rw [pair_getLsbD s _ _ i hi, pair_getLsbD s _ _ i hi]
    rcases ha i with hai | hai <;> rcases hb i with hbi | hbi <;> simp [hai, hbi]
  cases a with
  | enable m =>
      cases b with
      | enable n =>
          refine iff_of_true (hsame true ?_ ?_) id <;>
            exact fun i => by simp only [ChannelOp.stores]; split <;> simp
      | disable n => exact enable_disable_commute_iff s hne
  | disable n =>
      cases b with
      | enable m => exact eq_comm.trans (enable_disable_commute_iff s hne.symm)
      | disable m =>
          refine iff_of_true (hsame false ?_ ?_) id <;>
            exact fun i => by simp only [ChannelOp.stores]; split <;> simp

/-- **When the channel operations do what they are meant to do**: a run of calls
follows its last writes if and only if its disables are harmless, and two calls
for different channels commute if and only if they do not clash. -/
theorem channelOps_follow_iff_disablesHarmless (s : Driver) (ops : List ChannelOp) :
    (ChannelsFollow (s.regs engineControl) ops
        ((ops.foldl ChannelOp.exec s).regs engineControl) ↔
      DisablesHarmless (s.regs engineControl) ops) ∧
    ∀ a b : ChannelOp, a.channel ≠ b.channel →
      (([a, b].foldl ChannelOp.exec s).regs engineControl =
          ([b, a].foldl ChannelOp.exec s).regs engineControl ↔
        ¬ Clash a b) := by
  refine ⟨?_, commute_iff_not_clash s⟩
  constructor
  · intro h pre n post hsplit
    obtain ⟨hchannels, hengine⟩ := h
    refine ⟨fun i hi => ?_, fun m hmn hpost => ?_⟩
    · exact (engineBit_kept_iff s ops i hi).mp (hengine i hi) pre n post hsplit
    · exact (channel_follows_iff s ops m).mp (hchannels m) pre n post hsplit hmn hpost
  · intro h
    refine ⟨fun m => ?_, fun i hi => ?_⟩
    · rw [channel_follows_iff]
      exact fun pre n post hsplit hmn hpost => (h pre n post hsplit).2 m hmn hpost
    · rw [engineBit_kept_iff s ops i hi]
      exact fun pre n post hsplit => (h pre n post hsplit).1 i hi

/-- From the content that `adc_init` leaves, disabling channel 1 also disables
channel 0 and stops the engine. -/
theorem disableAdcChannel_clears_lower_bits :
    ¬ ChannelsFollow 0x0000000f [.enable 0, .disable 1]
        (([.enable 0, .disable 1].foldl ChannelOp.exec
          ⟨fun _ => 0x0000000f, 0⟩).regs engineControl) := by
  intro h
  exact absurd (h.engine 0 (by decide)) (by decide)

end BmcCodes.Adc.Original
