import BmcCodes.Uboot.Window
import Mathlib.Algebra.Group.Nat.Defs

/-!
# Which bus arguments are safe

The console commands check how many arguments they get, and take any number as
the bus.  Two shifts and the address of the register window are computed from
it: the interrupt bit needs a number up to 31, and the pins of the bus, which
only the initialisation enables, one up to 17.  Within these bounds the address
stays in range too, and the windows keep clear of each other and of `I2C_DISR`.
-/

namespace BmcCodes.Uboot.AstI2c

/-! ## Ranges -/

/-- The count of `a << n` is not negative, and no bit of `a` is lost in 32 bits. -/
def ShlFits (a : Word) (n : Int) : Prop := 0 ≤ n ∧ a.toNat * 2 ^ n.toNat < 2 ^ 32

/-- The value fits a signed `int`. -/
def FitsInt (x : Int) : Prop := -0x80000000 ≤ x ∧ x ≤ 0x7FFFFFFF

/-- The address `a` lies in the register window of bus `b`. -/
def InWindow (b a : Int) : Prop := busBase b ≤ a ∧ a < busBase b + 0x40

/-- The address of `I2C_DISR`. -/
def disrAddress : Int := astI2cRegBase

theorem shlFits_two_pow_iff {a : Word} {k : Nat} (ha : a.toNat = 2 ^ k) (n : Int) :
    ShlFits a n ↔ 0 ≤ n ∧ n + k < 32 := by
  refine and_congr_right fun hn => ?_
  rw [ha, ← Nat.pow_add, Nat.pow_lt_pow_iff_right (by decide)]
  omega

/-! ## One command -/

/-- What the command returns. -/
def Command.ret (ctl : Controller) (s : Board) : Command → Int
  | .master bus => (doMasterrw ctl 2 bus s).1
  | .slave bus n => (doSlaverw ctl 2 bus n s).1

/-- The command refuses its argument, and has accessed no register. -/
def Command.Rejected (ctl : Controller) (s : Board) (c : Command) : Prop :=
  c.ret ctl s = -1 ∧ (c.exec ctl s).accesses = s.accesses

/-- The command gets to `real_i2c_init`. -/
def Command.Initialises (s : Board) : Command → Prop
  | .master _ => s.i2cInitPending = true
  | .slave _ _ => True

/-- Everything that is computed from the bus number is in range. -/
structure Command.InRange (s : Board) (c : Command) : Prop where
  deviceBit : ShlFits 0x01 c.busNum
  pins : c.Initialises s → 2 ≤ c.busNum → ShlFits 0x4000 c.busNum
  next : FitsInt (c.busNum + 1)
  offset : FitsInt (0x040 * (c.busNum + 1))
  base : FitsInt (busBase c.busNum)
  disr : ¬ InWindow c.busNum disrAddress

/-- The argument of the command, as written: at most 31, and at most 17 if the
command initialises the controller. -/
def Command.ArgumentFits (s : Board) : Command → Prop
  | .master bus => bus.toNat ≤ 31 ∧ (s.i2cInitPending = true → bus.toNat ≤ 17)
  | .slave bus _ => bus.toNat ≤ 17

/-- Whatever the argument is, it is not refused. -/
theorem Command.not_rejected (ctl : Controller) (s : Board) (c : Command) :
    ¬ c.Rejected ctl s := by
  intro h
  have hret : c.ret ctl s = 0 := by cases c <;> rfl
  exact absurd (hret.symm.trans h.1) (by decide)

theorem toInt_le_iff (bus : Word) {m : Nat} (hm : m < 2 ^ 31) :
    (0 ≤ bus.toInt ∧ bus.toInt ≤ m) ↔ bus.toNat ≤ m := by
  have hlt := bus.isLt
  rw [BitVec.toInt_eq_toNat_cond]
  split <;> omega

/-- A bus number that names an interrupt bit has an address in range. -/
theorem inRange_iff (s : Board) (c : Command) :
    c.InRange s ↔
      (0 ≤ c.busNum ∧ c.busNum ≤ 31) ∧ (c.Initialises s → c.busNum ≤ 17) := by
  have hbit : ShlFits 0x01 c.busNum ↔ 0 ≤ c.busNum ∧ c.busNum ≤ 31 := by
    rw [shlFits_two_pow_iff (k := 0) rfl]
    omega
  have hpins : ShlFits 0x4000 c.busNum ↔ 0 ≤ c.busNum ∧ c.busNum ≤ 17 := by
    rw [shlFits_two_pow_iff (k := 14) rfl]
    omega
  constructor
  · intro h
    refine ⟨hbit.mp h.deviceBit, fun hinit => ?_⟩
    by_cases htwo : 2 ≤ c.busNum
    · exact (hpins.mp (h.pins hinit htwo)).2
    · omega
  · intro h
    obtain ⟨⟨hlow, hhigh⟩, hinit⟩ := h
    have hbase : busBase c.busNum = window c.busNum := busBase_eq_window _
    refine ⟨hbit.mpr ⟨hlow, hhigh⟩, fun hreached _ => hpins.mpr ⟨hlow, hinit hreached⟩,
      ?_, ?_, ?_, ?_⟩
    · constructor <;> omega
    · constructor <;> omega
    · rw [hbase, window]
      split <;> constructor <;> omega
    · rw [InWindow, hbase, window, disrAddress, astI2cRegBase]
      split <;> omega

theorem argumentFits_iff_inRange (s : Board) (c : Command) :
    c.ArgumentFits s ↔ c.InRange s := by
  rw [inRange_iff]
  cases c with
  | master bus =>
      have hbit := toInt_le_iff bus (m := 31) (by decide)
      have hpins := toInt_le_iff bus (m := 17) (by decide)
      simp only [Command.ArgumentFits, Command.busNum, Command.Initialises]
      constructor
      · intro h
        exact ⟨hbit.mpr h.1, fun hpending => (hpins.mpr (h.2 hpending)).2⟩
      · intro h
        exact ⟨hbit.mp h.1, fun hpending => hpins.mp ⟨h.1.1, h.2 hpending⟩⟩
  | slave bus n =>
      have hbit := toInt_le_iff bus (m := 31) (by decide)
      have hpins := toInt_le_iff bus (m := 17) (by decide)
      simp only [Command.ArgumentFits, Command.busNum, Command.Initialises, true_implies]
      omega

/-! ## Two commands -/

/-- The windows of two buses have no address in common. -/
theorem not_inWindow_of_ne {b b' : Int} (hne : b ≠ b') (a : Int) :
    ¬ (InWindow b a ∧ InWindow b' a) := by
  simp only [InWindow, busBase_eq_window, window]
  split <;> split <;> omega

/-- **Which arguments are safe.**  For any two commands: each of them refuses its
argument or computes in range, and the windows of different bus numbers that are
not refused are disjoint, if and only if both arguments fit. -/
theorem arguments_safe_iff (ctl ctl' : Controller) (s s' : Board) (c c' : Command) :
    ((c.Rejected ctl s ∨ c.InRange s) ∧ (c'.Rejected ctl' s' ∨ c'.InRange s') ∧
        (¬ c.Rejected ctl s → ¬ c'.Rejected ctl' s' → c.busNum ≠ c'.busNum →
          ∀ a, ¬ (InWindow c.busNum a ∧ InWindow c'.busNum a))) ↔
      c.ArgumentFits s ∧ c'.ArgumentFits s' := by
  rw [argumentFits_iff_inRange, argumentFits_iff_inRange,
    or_iff_right (c.not_rejected ctl s), or_iff_right (c'.not_rejected ctl' s')]
  constructor
  · intro h
    exact ⟨h.1, h.2.1⟩
  · intro h
    exact ⟨h.1, h.2, fun _ _ hne => not_inWindow_of_ne hne⟩

/-- `slave 20`, which is bus 32: the command goes ahead, and shifts by 32. -/
theorem slave_0x20_unsafe :
    ¬ ((Command.slave 0x20 1).Rejected (Controller.answering 0x04) bus3 ∨
      (Command.slave 0x20 1).InRange bus3) := by
  intro h
  rcases h with hrejected | hrange
  · exact (Command.slave 0x20 1).not_rejected _ _ hrejected
  · have hlost := hrange.deviceBit.2
    exact absurd hlost (by decide)

end BmcCodes.Uboot.AstI2c
