import BmcCodes.Uboot.BusRelease

/-!
# What a poll reads

`i2c_interrupt_status` reads `I2C_DISR` until the bit of the bus shows up, at
most 100000 times, and takes `I2C_ISR` directly after that reading.  Whatever
the readings are, it acknowledges all interrupts at its end.
-/

namespace BmcCodes.Uboot.AstI2c

/-- Reading `i` of poll `p`, as an access. -/
def Controller.disrRead (ctl : Controller) (p i : Nat) : Access := .read .disr (ctl.disr p i)

/-- A bus number that names a bit of `I2C_DISR` polls that bit. -/
theorem raised_eq_getLsbD (ctl : Controller) {busNum : Int} (hlow : 0 ≤ busNum)
    (hhigh : busNum < 32) (p i : Nat) :
    ctl.raised busNum p i = (ctl.disr p i).getLsbD busNum.toNat := by
  obtain ⟨b, rfl⟩ := Int.eq_ofNat_of_zero_le hlow
  have hb : BitVec.twoPow 32 b ≠ 0#32 := by
    intro h
    have hbit := congrArg (BitVec.getLsbD · b) h
    simp only [BitVec.getLsbD_twoPow, BitVec.getLsbD_zero] at hbit
    simp at hbit
    omega
  have hshl : shl 0x01 (b : Int) = BitVec.twoPow 32 b := shl_one_natCast b
  rw [Controller.raised, hshl, BitVec.and_twoPow, Int.toNat_natCast]
  cases (ctl.disr p i).getLsbD b <;> simp [hb]

section Readings

variable (ctl : Controller) (busNum base : Int) (p : Nat)

/-- The readings end with the first that reports the bus. -/
theorem readings_of_first (n i k : Nat) (hk : k < n)
    (hraised : ctl.raised busNum p (i + k) = true)
    (hfirst : ∀ j, i ≤ j → j < i + k → ctl.raised busNum p j = false) :
    ctl.readings busNum base p n i =
      (List.range' i (k + 1)).map (ctl.disrRead p) ++
        [.read (.bus base .isr) (ctl.isr p (i + k))] := by
  induction k generalizing n i with
  | zero =>
      obtain ⟨n, rfl⟩ : ∃ m, n = m + 1 := ⟨n - 1, by omega⟩
      rw [Nat.add_zero] at hraised
      rw [Controller.readings, if_pos hraised]
      rfl
  | succ k ih =>
      obtain ⟨n, rfl⟩ : ∃ m, n = m + 1 := ⟨n - 1, by omega⟩
      have hquiet := hfirst i (Nat.le_refl i) (by omega)
      have hshift : i + (k + 1) = i + 1 + k := by omega
      rw [hshift] at hraised hfirst ⊢
      rw [Controller.readings, if_neg (by simp [hquiet]), List.range'_succ,
        ih n (i + 1) (by omega) hraised fun j hj hjk => hfirst j (by omega) hjk]
      rfl

/-- Without such a reading they go on to the limit. -/
theorem readings_of_none (n i : Nat)
    (hnone : ∀ j, i ≤ j → j < i + n → ctl.raised busNum p j = false) :
    ctl.readings busNum base p n i = (List.range' i n).map (ctl.disrRead p) := by
  induction n generalizing i with
  | zero => rfl
  | succ n ih =>
      have hquiet := hnone i (Nat.le_refl i) (by omega)
      rw [Controller.readings, if_neg (by simp [hquiet]), List.range'_succ,
        ih (i + 1) fun j hj hjn => hnone j (by omega) (by omega)]
      rfl

end Readings

/-- **What a poll returns and does**: the first of at most 100000 readings that
has the bit of the bus decides the status, which is `0` if there is none; the
accesses are these readings, the status if it is read, and the acknowledgement. -/
theorem i2cInterruptStatus_first (ctl : Controller) (s : Board) (hlow : 0 ≤ s.i2cBusNum)
    (hhigh : s.i2cBusNum ≤ 13) :
    ((∃ k < 100000, (ctl.disr s.polls k).getLsbD s.i2cBusNum.toNat = true ∧
        (∀ j < k, (ctl.disr s.polls j).getLsbD s.i2cBusNum.toNat = false) ∧
        (i2cInterruptStatus ctl s).1 = ctl.isr s.polls k ∧
        s.since (i2cInterruptStatus ctl s).2 =
          (List.range (k + 1)).map (ctl.disrRead s.polls) ++
            [.read (.bus s.i2cBusBaseAddr .isr) (ctl.isr s.polls k),
              .write (.bus s.i2cBusBaseAddr .isr) 0xFFFFFFFF]) ∨
      ((∀ j < 100000, (ctl.disr s.polls j).getLsbD s.i2cBusNum.toNat = false) ∧
        (i2cInterruptStatus ctl s).1 = 0 ∧
        s.since (i2cInterruptStatus ctl s).2 =
          (List.range 100000).map (ctl.disrRead s.polls) ++
            [.write (.bus s.i2cBusBaseAddr .isr) 0xFFFFFFFF])) ∧
      ((i2cInterruptStatus ctl s).1 ≠ 0 →
        ∃ k < 100000, (ctl.disr s.polls k).getLsbD s.i2cBusNum.toNat = true) := by
  have hbit := raised_eq_getLsbD ctl hlow (by omega) s.polls
  have hsince : s.since (i2cInterruptStatus ctl s).2 =
      ctl.pollLog s.i2cBusNum s.i2cBusBaseAddr s.polls := by
    apply since_eq
    rw [i2cInterruptStatus_eq]
    rfl
  have hstatus : (i2cInterruptStatus ctl s).1 = ctl.status s.i2cBusNum s.polls := by
    rw [i2cInterruptStatus_eq]
  simp only [hsince, hstatus, ← hbit, List.range_eq_range', Controller.status,
    Controller.pollLog, pollLimit]
  cases hfind : (List.range' 0 100000).find? (ctl.raised s.i2cBusNum s.polls) with
  | none =>
      have hnone : ∀ j < 100000, ctl.raised s.i2cBusNum s.polls j = false := by
        intro j hj
        have hquiet := List.find?_range'_eq_none.mp hfind j (Nat.zero_le j) (by omega)
        simpa using hquiet
      refine ⟨.inr ⟨hnone, rfl, ?_⟩, fun h => absurd rfl h⟩
      rw [readings_of_none ctl _ _ _ 100000 0 fun j _ hj => hnone j (by omega)]
  | some k =>
      obtain ⟨hraised, hmem, hbefore⟩ := List.find?_range'_eq_some.mp hfind
      have hk : k < 100000 := by
        rw [List.mem_range'_1] at hmem
        omega
      have hfirst : ∀ j < k, ctl.raised s.i2cBusNum s.polls j = false := by
        intro j hj
        have hquiet := hbefore j (Nat.zero_le j) hj
        simpa using hquiet
      refine ⟨.inl ⟨k, hk, hraised, hfirst, rfl, ?_⟩, fun _ => ⟨k, hk, hraised⟩⟩
      have hreadings := readings_of_first ctl s.i2cBusNum s.i2cBusBaseAddr s.polls 100000 0 k
        hk (by rwa [Nat.zero_add]) fun j _ hj => hfirst j (by omega)
      rw [hreadings, Nat.zero_add, List.append_assoc]
      rfl

/-- The bit of bus 3 shows up at the second reading. -/
theorem i2cInterruptStatus_second_reading :
    (i2cInterruptStatus ⟨fun _ i => if i = 1 then 0x08 else 0x04, fun _ i => i, fun _ => 0⟩
      bus3).1 = 1 := by
  obtain ⟨⟨k, _, hbit, hfirst, hstatus, _⟩ | ⟨hnone, _⟩, _⟩ := i2cInterruptStatus_first
    ⟨fun _ i => if i = 1 then 0x08 else 0x04, fun _ i => i, fun _ => 0⟩ bus3
    (by decide) (by decide)
  · have hk : k = 1 := by
      by_contra hne
      dsimp only at hbit
      rw [if_neg hne] at hbit
      exact absurd hbit (by decide)
    rw [hstatus, hk]
    rfl
  · exact absurd (hnone 1 (by decide)) (by decide)

end BmcCodes.Uboot.AstI2c
