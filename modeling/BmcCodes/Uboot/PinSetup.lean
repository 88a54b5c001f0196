import BmcCodes.Lib.Update
import BmcCodes.Uboot.Commands

/-!
# The shared registers of the SCU

`real_i2c_init` enables the pins of a bus in SCU register `0x90` and releases
the controller from reset in SCU register `0x04`.  All buses share both.  Each
initialisation is an update of `0x90` that sets one bit above bit 15, or none,
and clears bit 0 or nothing; no two of them disagree about a bit, so the order
in which buses are initialised does not matter.
-/

namespace BmcCodes.Uboot.AstI2c

open BmcCodes.Lib

/-! ## One initialisation -/

/-- What initialising bus `b` does to SCU register `0x90`. -/
def pinUpdate (b : Int) : Update 32 where
  keep := if 9 ≤ b ∧ b ≤ 12 then ~~~0x01 else BitVec.allOnes 32
  data := if 2 ≤ b then shl 0x4000 b else 0

theorem enablePins_scu (s : Board) :
    (enablePins s).scu 0x90 = (pinUpdate s.i2cBusNum).apply (s.scu 0x90) := by
  simp only [enablePins, pinUpdate, Update.apply, ge_iff_le, Board.readScu, Board.writeScu,
    Board.log]
  have hall : ∀ x : Word, x &&& 4294967295#32 = x := fun _ => BitVec.and_allOnes
  by_cases htwo : 2 ≤ s.i2cBusNum
  · by_cases hsd : 9 ≤ s.i2cBusNum ∧ s.i2cBusNum ≤ 12 <;> simp [htwo, hsd, hall]
  · have hsd : ¬ (9 ≤ s.i2cBusNum ∧ s.i2cBusNum ≤ 12) := by omega
    simp [htwo, hsd, hall]

section Init

variable (speed slaveadd mode : Int) (s : Board)

theorem realI2cInit_scu_0x90 :
    (realI2cInit speed slaveadd mode s).scu 0x90 =
      (pinUpdate s.i2cBusNum).apply (s.scu 0x90) := by
  have hpins := enablePins_scu
    ({ s with i2cBusBaseAddr := busBase s.i2cBusNum }.writeScu 0x00 0x1688A8A8)
  simp only [realI2cInit, Board.writeBus, Board.writeScu, Board.readScu, Board.log] at *
  rw [if_neg (by decide), hpins, if_neg (by decide)]

theorem realI2cInit_scu_0x04 :
    (realI2cInit speed slaveadd mode s).scu 0x04 = s.scu 0x04 &&& ~~~0x04 := by
  obtain ⟨_, _, _, hscu, _⟩ := enablePins_spec
    ({ s with i2cBusBaseAddr := busBase s.i2cBusNum }.writeScu 0x00 0x1688A8A8)
  simp only [realI2cInit, Board.writeBus, Board.writeScu, Board.readScu, Board.log] at *
  rw [if_pos trivial, hscu 0x04 (by decide), if_neg (by decide)]

end Init

/-- The pins of bus `b` are bit `14 + b`. -/
theorem pinUpdate_data_getLsbD (n : Nat) {i : Nat} (hi : i < 32) :
    (pinUpdate n).data.getLsbD i = decide ((2 : Int) ≤ n ∧ (i : Int) = 14 + n) := by
  have hpins : shl 0x4000 (n : Int) = BitVec.twoPow 32 (14 + n) := by
    rw [shl_natCast, BitVec.twoPow_eq, BitVec.shiftLeft_add]
    rfl
  simp only [pinUpdate]
  split
  · next htwo =>
      rw [hpins, BitVec.getLsbD_twoPow, Bool.eq_iff_iff]
      simp only [Bool.and_eq_true, decide_eq_true_eq]
      omega
  · next htwo => simp [htwo]

/-- The buses 9 to 12 take bit 0, the SD1 pin function. -/
theorem pinUpdate_keep_getLsbD (b : Int) {i : Nat} (hi : i < 32) :
    (pinUpdate b).keep.getLsbD i = decide (¬ (i = 0 ∧ 9 ≤ b ∧ b ≤ 12)) := by
  simp only [pinUpdate]
  split
  · next hsd =>
      have hone : (0x01 : Word) = BitVec.twoPow 32 0 := rfl
      simp [hone, hi, hsd]
  · next hsd =>
      have hkept : ¬ (i = 0 ∧ 9 ≤ b ∧ b ≤ 12) := fun h => hsd h.2
      rw [BitVec.getLsbD_allOnes, decide_eq_true hi]
      exact (decide_eq_true hkept).symm

theorem pinUpdate_storesBit {b : Int} (hlow : 0 ≤ b) {i : Nat} (hi : i < 32) :
    (pinUpdate b).storesBit i =
      if i = 0 then (if 9 ≤ b ∧ b ≤ 12 then some false else none)
      else if 2 ≤ b ∧ (i : Int) = 14 + b then some true else none := by
  obtain ⟨n, rfl⟩ := Int.eq_ofNat_of_zero_le hlow
  rw [Update.storesBit, pinUpdate_data_getLsbD n hi, pinUpdate_keep_getLsbD n hi]
  by_cases hzero : i = 0
  · have hpin : ¬ ((2 : Int) ≤ n ∧ (i : Int) = 14 + n) := by omega
    rw [if_pos hzero, decide_eq_false hpin]
    by_cases hsd : (9 : Int) ≤ n ∧ (n : Int) ≤ 12
    · have hkeep : ¬ ¬ (i = 0 ∧ (9 : Int) ≤ n ∧ (n : Int) ≤ 12) := fun h => h ⟨hzero, hsd⟩
      rw [if_pos hsd, decide_eq_false hkeep]
      rfl
    · have hkeep : ¬ (i = 0 ∧ (9 : Int) ≤ n ∧ (n : Int) ≤ 12) := fun h => hsd h.2
      rw [if_neg hsd, decide_eq_true hkeep]
      rfl
  · have hkeep : ¬ (i = 0 ∧ (9 : Int) ≤ n ∧ (n : Int) ≤ 12) := fun h => hzero h.1
    rw [if_neg hzero, decide_eq_true hkeep]
    by_cases hpin : (2 : Int) ≤ n ∧ (i : Int) = 14 + n
    · rw [if_pos hpin, decide_eq_true hpin]
      rfl
    · rw [if_neg hpin, decide_eq_false hpin]
      rfl

/-! ## Any number of initialisations -/

/-- The board after the buses `bs` have been initialised in turn. -/
def initBuses (speed slaveadd mode : Int) (s : Board) (bs : List Int) : Board :=
  bs.foldl (fun s b => realI2cInit speed slaveadd mode { s with i2cBusNum := b }) s

section InitBuses

variable (speed slaveadd mode : Int) (s : Board)

theorem initBuses_scu_0x90 (bs : List Int) :
    (initBuses speed slaveadd mode s bs).scu 0x90 =
      Update.run (bs.map pinUpdate) (s.scu 0x90) :=
  Update.foldl_eq_run (fun s : Board => s.scu 0x90) _ pinUpdate
    (fun _ _ => realI2cInit_scu_0x90 ..) s bs

/-- Releasing the controller from reset once more changes nothing. -/
theorem initBuses_scu_0x04 (bs : List Int) :
    (initBuses speed slaveadd mode s bs).scu 0x04 =
      if bs = [] then s.scu 0x04 else s.scu 0x04 &&& ~~~0x04 := by
  induction bs generalizing s with
  | nil => rfl
  | cons b bs ih =>
      have hcons : initBuses speed slaveadd mode s (b :: bs) =
          initBuses speed slaveadd mode
            (realI2cInit speed slaveadd mode { s with i2cBusNum := b }) bs := rfl
      rw [hcons, ih, realI2cInit_scu_0x04, if_neg (List.cons_ne_nil b bs)]
      split
      · rfl
      · rw [BitVec.and_assoc, BitVec.and_self]

variable {bs : List Int} (hbs : ∀ b ∈ bs, 0 ≤ b ∧ b ≤ 13)

include hbs

/-- Bit 0 is cleared by the buses 9 to 12, and set by none. -/
theorem initBuses_bit_zero :
    ((initBuses speed slaveadd mode s bs).scu 0x90).getLsbD 0 = true ↔
      (s.scu 0x90).getLsbD 0 = true ∧ ¬ ∃ b ∈ bs, 9 ≤ b ∧ b ≤ 12 := by
  rw [initBuses_scu_0x90, Update.run_map_getLsbD pinUpdate bs _ 0 false
    (fun b => 9 ≤ b ∧ b ≤ 12)]
  · by_cases hsd : ∃ b ∈ bs, 9 ≤ b ∧ b ≤ 12
    · rw [if_pos hsd]
      exact iff_of_false Bool.false_ne_true fun h => h.2 hsd
    · rw [if_neg hsd]
      exact (and_iff_left hsd).symm
  · intro b hb
    rw [pinUpdate_storesBit (hbs b hb).1 (by decide), if_pos rfl]

/-- Any other bit is set by the bus whose pins it enables, and cleared by none. -/
theorem initBuses_bit {i : Nat} (hi : i < 32) (hpos : i ≠ 0) :
    ((initBuses speed slaveadd mode s bs).scu 0x90).getLsbD i = true ↔
      (s.scu 0x90).getLsbD i = true ∨ ∃ b ∈ bs, 2 ≤ b ∧ (i : Int) = 14 + b := by
  rw [initBuses_scu_0x90, Update.run_map_getLsbD pinUpdate bs _ i true
    (fun b => 2 ≤ b ∧ (i : Int) = 14 + b)]
  · by_cases hpin : ∃ b ∈ bs, 2 ≤ b ∧ (i : Int) = 14 + b
    · rw [if_pos hpin]
      exact iff_of_true rfl (.inr hpin)
    · rw [if_neg hpin]
      exact (or_iff_left hpin).symm
  · intro b hb
    rw [pinUpdate_storesBit (hbs b hb).1 hi, if_neg hpos]

end InitBuses

/-- **The SCU after any initialisations.**  Register `0x90` has bit `14 + b` set
for each bus `b` from 2 on, bit 0 cleared if one of the buses 9 to 12 is among
them, and every other bit as before; register `0x04` has bit 2 cleared.  Only
the set of the buses matters, and no pins are disabled. -/
theorem initBuses_scu (speed slaveadd mode : Int) (s : Board) (bs : List Int)
    (hbs : ∀ b ∈ bs, 0 ≤ b ∧ b ≤ 13) :
    let s' := initBuses speed slaveadd mode s bs
    ((s'.scu 0x90).getLsbD 0 = true ↔
        (s.scu 0x90).getLsbD 0 = true ∧ ¬ ∃ b ∈ bs, 9 ≤ b ∧ b ≤ 12) ∧
      (∀ i < 32, i ≠ 0 → ((s'.scu 0x90).getLsbD i = true ↔
        (s.scu 0x90).getLsbD i = true ∨ ∃ b ∈ bs, 2 ≤ b ∧ (i : Int) = 14 + b)) ∧
      s'.scu 0x04 = (if bs = [] then s.scu 0x04 else s.scu 0x04 &&& ~~~0x04) ∧
      (∀ bs' : List Int, (∀ b, b ∈ bs' ↔ b ∈ bs) →
        (initBuses speed slaveadd mode s bs').scu 0x90 = s'.scu 0x90 ∧
          (initBuses speed slaveadd mode s bs').scu 0x04 = s'.scu 0x04) ∧
      ∀ b : Nat, 2 ≤ b → b ≤ 13 → (s.scu 0x90).getLsbD (14 + b) = true →
        (s'.scu 0x90).getLsbD (14 + b) = true := by
  intro s'
  have hzero := initBuses_bit_zero speed slaveadd mode s hbs
  have hbit := fun {i : Nat} => initBuses_bit (i := i) speed slaveadd mode s hbs
  refine ⟨hzero, fun i => hbit, initBuses_scu_0x04 speed slaveadd mode s bs, ?_, ?_⟩
  · intro bs' hsame
    have hbs' : ∀ b ∈ bs', 0 ≤ b ∧ b ≤ 13 := fun b hb => hbs b ((hsame b).mp hb)
    constructor
    · apply BitVec.eq_of_getLsbD_eq
      intro i hi
      rw [Bool.eq_iff_iff]
      by_cases hpos : i = 0
      · subst hpos
        rw [initBuses_bit_zero speed slaveadd mode s hbs', hzero]
        simp only [hsame]
      · rw [initBuses_bit speed slaveadd mode s hbs' hi hpos, hbit hi hpos]
        simp only [hsame]
    · have hnil : bs' = [] ↔ bs = [] := by
        simp only [List.eq_nil_iff_forall_not_mem, hsame]
      simp only [s', initBuses_scu_0x04, hnil]
  · intro b _ hhigh hset
    exact (hbit (by omega) (by omega)).mpr (.inl hset)

/-- Bus 9, then bus 3 and bus 9 again, on registers with all bits set. -/
theorem initBuses_scu_9_3_9 :
    (initBuses 100000 0x10 0 (Board.initial fun _ => 0xFFFFFFFF) [9, 3, 9]).scu 0x90 =
      (initBuses 100000 0x10 0 (Board.initial fun _ => 0xFFFFFFFF) [3, 9]).scu 0x90 :=
  ((initBuses_scu 100000 0x10 0 (Board.initial fun _ => 0xFFFFFFFF) [3, 9]
    (by decide)).2.2.2.1 [9, 3, 9] (by intro b; simp; tauto)).1

end BmcCodes.Uboot.AstI2c
