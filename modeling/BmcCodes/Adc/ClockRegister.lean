import BmcCodes.Adc.Original
import BmcCodes.Lib.Update

/-!
# The clock register of the original driver

`set_adc_clock` is meant to replace the divisor, bits `[9:0]`, and the inverse
flag, bit 16.  Its mask `~(0x01 << 16) + 0x3ff` is `0xFFFF03FE`: it clears bits
`[15:10]`, which belong to nobody, and keeps bits `[9:1]` and 16, which the new
value is only or-ed into.  So a run of calls leaves the intended content when
nothing was left in bits `[16:1]` that the last call does not set again.
-/

namespace BmcCodes.Adc.Original

open BmcCodes.Lib

/-- A call of `set_adc_clock` whose second argument is a flag. -/
structure ClockCall where
  divisor : Byte
  inverse : Byte
  inverse_flag : inverse = 0 ∨ inverse = 1

namespace ClockCall

def exec (s : Driver) (c : ClockCall) : Driver := (setAdcClock c.divisor c.inverse s).2

/-- What the call ors into the register. -/
def data (c : ClockCall) : Word :=
  c.divisor.setWidth 32 ||| c.inverse.setWidth 32 <<< 16

theorem data_getLsbD (c : ClockCall) (i : Nat) :
    c.data.getLsbD i =
      if i = 16 then decide (c.inverse = 1) else c.divisor.getLsbD i := by
  have hflag : c.inverse.setWidth 32 <<< 16 =
      if c.inverse = 1 then BitVec.twoPow 32 16 else 0#32 := by
    rcases c.inverse_flag with h | h <;> rw [h] <;> rfl
  have hdivisor : ∀ j, 8 ≤ j → c.divisor.getLsbD j = false := fun j hj =>
    BitVec.getLsbD_of_ge _ _ hj
  rw [data, hflag, BitVec.getLsbD_or, BitVec.getLsbD_setWidth]
  by_cases hi : i = 16
  · rw [if_pos hi, hi, hdivisor 16 (by decide)]
    split <;> simp_all
  · rw [if_neg hi]
    by_cases hsmall : i < 8
    · split <;> simp [hi, show i < 32 by omega]
    · split <;> simp [hdivisor i (by omega), Ne.symm hi]

/-- The register macro as an update. -/
def update (c : ClockCall) : Update 32 := ⟨0xFFFF03FE, c.data⟩

theorem exec_clockControl (s : Driver) (c : ClockCall) :
    (exec s c).regs clockControl = c.update.apply (s.regs clockControl) := by
  have hshift : ∀ x : Word, shl x adcClockInverse = x <<< 16 :=
    fun x => shl_natCast x 16
  simp only [exec, setAdcClock, hshift, Driver.writeRegisterAnd,
    Driver.writeRegister, if_true]
  rfl

end ClockCall

/-! ## Runs of calls -/

/-- The register content `r'` is `r` with the two fields of the call `c`. -/
structure ClockSet (r : Word) (c : ClockCall) (r' : Word) : Prop where
  divisor : r'.extractLsb' 0 10 = c.divisor.setWidth 10
  inverse : r'.getLsbD 16 = decide (c.inverse = 1)
  others : ∀ i < 32, 10 ≤ i → i ≠ 16 → r'.getLsbD i = r.getLsbD i

/-- What is set in bits `[16:1]`, by the initial content or by a call before the
last, is set again by the last call. -/
def NothingStale (r : Word) (earlier : List ClockCall) (last : ClockCall) : Prop :=
  (r ||| Update.staleBits (earlier.map ClockCall.data)) &&& 0x1FFFE &&&
    ~~~last.data = 0

theorem run_clockControl (s : Driver) (earlier : List ClockCall)
    (last : ClockCall) :
    ((earlier ++ [last]).foldl ClockCall.exec s).regs clockControl =
      ((s.regs clockControl ||| Update.staleBits (earlier.map ClockCall.data)) &&&
        0xFFFF03FE) ||| last.data :=
  Update.foldl_sameKeep (fun s : Driver => s.regs clockControl) ClockCall.exec
    0xFFFF03FE ClockCall.data ClockCall.exec_clockControl s earlier last

/-- Only bits `[7:0]` and 16 of the register are ever written. -/
theorem data_getLsbD_eq_false (c : ClockCall) (i : Nat) (hi : 8 ≤ i)
    (hflag : i ≠ 16) : c.data.getLsbD i = false := by
  rw [ClockCall.data_getLsbD, if_neg hflag]
  exact BitVec.getLsbD_of_ge _ _ hi

theorem staleBits_getLsbD_eq_false (calls : List ClockCall) (i : Nat)
    (hi : 8 ≤ i) (hflag : i ≠ 16) :
    (Update.staleBits (calls.map ClockCall.data)).getLsbD i = false := by
  rw [Update.staleBits_getLsbD, List.any_map, List.any_eq_false]
  intro c _
  simp [data_getLsbD_eq_false c i hi hflag]

theorem clockSet_iff_getLsbD (r : Word) (c : ClockCall) (r' : Word) :
    ClockSet r c r' ↔ ∀ i < 32, r'.getLsbD i =
      if i < 10 ∨ i = 16 then c.data.getLsbD i else r.getLsbD i := by
  constructor
  · intro h i hi
    obtain ⟨hdivisor, hinverse, hothers⟩ := h
    by_cases hten : i < 10
    · have hbit := congrArg (fun x => BitVec.getLsbD x i) hdivisor
      simp only [BitVec.getLsbD_extractLsb', BitVec.getLsbD_setWidth, hten,
        decide_true, Bool.true_and, Nat.zero_add] at hbit
      rw [if_pos (.inl hten), ClockCall.data_getLsbD, if_neg (by omega), hbit]
    · by_cases hflag : i = 16
      · rw [if_pos (.inr hflag), ClockCall.data_getLsbD, if_pos hflag, hflag, hinverse]
      · rw [if_neg (by omega), hothers i hi (by omega) hflag]
  · intro h
    refine ⟨?_, ?_, ?_⟩
    · apply BitVec.eq_of_getLsbD_eq
      intro i hi
      rw [BitVec.getLsbD_extractLsb', BitVec.getLsbD_setWidth, Nat.zero_add,
        h i (by omega), if_pos (.inl hi), ClockCall.data_getLsbD, if_neg (by omega)]
    · rw [h 16 (by decide), if_pos (.inr rfl), ClockCall.data_getLsbD, if_pos rfl]
    · intro i hi hten hflag
      rw [h i hi, if_neg (by omega)]

private theorem or_eq_right_iff (x d : Bool) : (x || d) = d ↔ (x && !d) = false := by
  cases x <;> cases d <;> simp

/-- **When `set_adc_clock` sets the clock.**  After a run of calls the register
has the two fields of the last call, and its other bits as before the run, if
and only if nothing stale was left in bits `[16:1]`. -/
theorem setAdcClock_run_iff_nothingStale (s : Driver) (earlier : List ClockCall)
    (last : ClockCall) :
    ClockSet (s.regs clockControl) last
        (((earlier ++ [last]).foldl ClockCall.exec s).regs clockControl) ↔
      NothingStale (s.regs clockControl) earlier last := by
  have hkeep : ∀ i < 32, (0xFFFF03FE : Word).getLsbD i =
      decide ((1 ≤ i ∧ i ≤ 9) ∨ 16 ≤ i) := by decide
  have hmask : ∀ i < 32, (0x1FFFE : Word).getLsbD i = decide (1 ≤ i ∧ i ≤ 16) := by
    decide
  rw [clockSet_iff_getLsbD, run_clockControl, NothingStale]
  generalize s.regs clockControl = r
  have hzero : ∀ x : Word, x = 0 ↔ ∀ i < 32, x.getLsbD i = false := by
    intro x
    constructor
    · rintro rfl i _
      simp
    · intro h
      exact BitVec.eq_of_getLsbD_eq fun i hi => by simp [h i hi]
  rw [hzero]
  refine forall₂_congr fun i hi => ?_
  have hstale := staleBits_getLsbD_eq_false earlier i
  have hlast := data_getLsbD_eq_false last i
  simp only [BitVec.getLsbD_or, BitVec.getLsbD_and, BitVec.getLsbD_not, hkeep i hi,
    hmask i hi, hi, decide_true, Bool.true_and]
  -- bit 0, the field bits that the mask keeps, the bits it clears, the rest
  rcases (by omega : i = 0 ∨ ((1 ≤ i ∧ i ≤ 9) ∨ i = 16) ∨ (10 ≤ i ∧ i ≤ 15) ∨ 17 ≤ i)
    with h | h | h | h
  · simp [h]
  · have hkept : (1 ≤ i ∧ i ≤ 9) ∨ 16 ≤ i := by omega
    have hmasked : 1 ≤ i ∧ i ≤ 16 := by omega
    rw [decide_eq_true hkept, decide_eq_true hmasked, Bool.and_true, if_pos (by omega)]
    exact or_eq_right_iff _ _
  · have hcleared : ¬((1 ≤ i ∧ i ≤ 9) ∨ 16 ≤ i) := by omega
    have hmasked : 1 ≤ i ∧ i ≤ 16 := by omega
    rw [decide_eq_false hcleared, decide_eq_true hmasked, if_neg (by omega),
      hstale (by omega) (by omega), hlast (by omega) (by omega)]
    cases r.getLsbD i <;> decide
  · have hkept : (1 ≤ i ∧ i ≤ 9) ∨ 16 ≤ i := by omega
    have hunmasked : ¬(1 ≤ i ∧ i ≤ 16) := by omega
    rw [decide_eq_true hkept, decide_eq_false hunmasked, if_neg (by omega),
      hstale (by omega) (by omega), hlast (by omega) (by omega)]
    cases r.getLsbD i <;> decide

/-- The divisor that `adc_init` leaves survives in a later one: `0x40` and then
`set_adc_clock(0x20, 0)` make `0x60`. -/
theorem setAdcClock_keeps_stale_divisor :
    ¬ ClockSet 0x40 ⟨0x20, 0, .inl rfl⟩
        (([⟨0x20, 0, .inl rfl⟩].foldl ClockCall.exec ⟨fun _ => 0x40, 0⟩).regs
          clockControl) := by
  intro h
  exact absurd h.divisor (by decide)

end BmcCodes.Adc.Original
