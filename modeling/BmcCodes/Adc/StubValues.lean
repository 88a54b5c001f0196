import BmcCodes.Adc.TddSimulation

/-!
# Stub values of the test code

`adc_set_stubval` plays the converter for the tests: it stores a sample where
`adc_measure` looks for it.  Two channels share a data register.  The function
clears the ten bits of its channel, but ors in all sixteen of the value; the upper
six end up between the two fields or above both, and stay there.  No history of
them reaches a sample.
-/

namespace BmcCodes.Adc.Tdd

open BmcCodes.Lib BmcCodes.Lib.LastWrite

/-- `adc_set_stubval`.  The offset is a `u8`, and the value a `u16` that is shifted
as a word. -/
def adcSetStubval (chanNo : Int) (stubval : BitVec 16) (s : RegFile) : RegFile :=
  let offset : Byte := BitVec.ofInt 8 (4 * chanNo.tdiv 2)
  let regv := readl (adcDataRegister + offset.setWidth 32) s
  let regv :=
    if 0 = chanNo.tmod 2 then
      let regv := regv &&& ~~~0x3ff
      regv ||| stubval.setWidth 32
    else
      let regv := regv &&& ~~~(shl 0x3ff 16)
      regv ||| shl (stubval.setWidth 32) 16
  writel regv (adcDataRegister + offset.setWidth 32) s

/-! ## One call -/

/-- What a call does to the data register of channel `n`. -/
def stubUpdate (n : Fin 16) (v : BitVec 16) : Update 32 where
  keep := ~~~((0x3ff : Word) <<< (16 * (n.val % 2)))
  data := v.setWidth 32 <<< (16 * (n.val % 2))

section Call

variable (s : RegFile) (n : Fin 16) (v : BitVec 16)

theorem adcSetStubval_eq :
    adcSetStubval (n : Nat) v s =
      writel ((stubUpdate n v).apply (s (sampleRegister n))) (sampleRegister n) s := by
  rw [adcSetStubval, dataOffset_eq, tmod_two_eq, readl, ← sampleRegister]
  rcases Nat.mod_two_eq_zero_or_one n.val with hn | hn
  · rw [hn, if_pos (by rfl), stubUpdate, hn, Nat.mul_zero, BitVec.shiftLeft_zero,
      BitVec.shiftLeft_zero]
    rfl
  · rw [hn, if_neg (by decide), stubUpdate, hn]
    rfl

theorem adcSetStubval_of_ne {o : Word} (ho : o ≠ sampleRegister n) :
    adcSetStubval (n : Nat) v s o = s o := by
  rw [adcSetStubval_eq, writel, if_neg ho]

end Call

theorem sampleRegister_eq_iff (m n : Fin 16) :
    sampleRegister m = sampleRegister n ↔ m.val / 2 = n.val / 2 := by
  revert m n
  decide

/-! ## The two fields of a register

Field `b` of a data register is its ten bits from bit `16 * b` on. -/

theorem keep_field : ∀ a < 2, ∀ b < 2,
    (~~~((0x3ff : Word) <<< (16 * a))).extractLsb' (16 * b) 10 =
      if a = b then 0#10 else BitVec.allOnes 10 := by
  decide

/-- The value fits below the other field, or is shifted above it. -/
theorem data_field (v : BitVec 16) {a b : Nat} (ha : a < 2) (hb : b < 2) :
    ((v.setWidth 32 : Word) <<< (16 * a)).extractLsb' (16 * b) 10 =
      if a = b then v.setWidth 10 else 0#10 := by
  apply BitVec.eq_of_getLsbD_eq
  intro i hi
  rw [BitVec.getLsbD_extractLsb', BitVec.getLsbD_shiftLeft, BitVec.getLsbD_setWidth]
  split
  · next hab =>
      subst hab
      rw [BitVec.getLsbD_setWidth, Nat.add_sub_cancel_left, decide_eq_true hi,
        decide_eq_true (by omega : 16 * a + i < 32), decide_eq_true (by omega : i < 32),
        decide_eq_false (by omega : ¬16 * a + i < 16 * a)]
      rfl
  · next hab =>
      rw [BitVec.getLsbD_zero]
      rcases Nat.lt_or_gt_of_ne hab with hlt | hgt
      · rw [BitVec.getLsbD_of_ge v _ (by omega), Bool.and_false, Bool.and_false,
          Bool.and_false]
      · rw [decide_eq_true (by omega : 16 * b + i < 16 * a), Bool.not_true, Bool.and_false,
          Bool.false_and, Bool.and_false]

/-- A call replaces the field of its channel, and no bit of the value reaches the
other field of the register. -/
theorem stubUpdate_field {m n : Fin 16} (hmn : m.val / 2 = n.val / 2) (v : BitVec 16) :
    (stubUpdate n v).field (16 * (m.val % 2)) 10 =
      if n = m then ⟨0#10, v.setWidth 10⟩ else ⟨BitVec.allOnes 10, 0#10⟩ := by
  have hsame : n = m ↔ n.val % 2 = m.val % 2 := by
    rw [Fin.ext_iff]
    omega
  have hn := Nat.mod_lt n.val (by decide : 0 < 2)
  have hm := Nat.mod_lt m.val (by decide : 0 < 2)
  rw [Update.field, stubUpdate, keep_field _ hn _ hm, data_field v hn hm]
  simp only [hsame]
  split <;> rfl

/-- **One call** gives the converter a sample for the channel, and nothing else. -/
theorem converter_adcSetStubval (s : RegFile) (n : Fin 16) (v : BitVec 16) :
    converter (adcSetStubval (n : Nat) v s) =
      { converter s with
        sample := fun m => if n = m then v.setWidth 10 else (converter s).sample m } := by
  simp only [converter, adcSetStubval_of_ne s n v (sampleRegister_ne_engine n).symm,
    adcSetStubval_of_ne s n v (sampleRegister_ne_clock n).symm, Converter.mk.injEq, true_and]
  funext m
  by_cases hregister : sampleRegister m = sampleRegister n
  · -- the channel itself or the other one in its register
    have hmn := (sampleRegister_eq_iff m n).mp hregister
    rw [adcSetStubval_eq, writel, if_pos hregister, Update.extractLsb'_apply,
      stubUpdate_field hmn, ← hregister]
    split
    · exact Update.apply_replace _ _
    · exact Update.apply_keep _
  · rw [adcSetStubval_of_ne s n v hregister, if_neg fun h => hregister (congrArg _ h.symm)]

/-! ## Any number of calls -/

/-- A call of `adc_set_stubval` for one of the sixteen channels. -/
structure StubCall where
  channel : Fin 16
  stubval : BitVec 16
  deriving DecidableEq, Repr

namespace StubCall

def exec (s : RegFile) (c : StubCall) : RegFile := adcSetStubval (c.channel : Nat) c.stubval s

/-- The sample that the call stores for channel `m`. -/
def samples (m : Fin 16) (c : StubCall) : Option (BitVec 10) :=
  if c.channel = m then some (c.stubval.setWidth 10) else none

end StubCall

section Calls

variable (s : RegFile) (calls : List StubCall)

theorem foldl_exec_sample (m : Fin 16) :
    (converter (calls.foldl StubCall.exec s)).sample m =
      lastWrite (StubCall.samples m) ((converter s).sample m) calls := by
  refine foldl_eq_lastWrite (fun s => (converter s).sample m) _ _ ?_ s calls
  intro s c
  rw [StubCall.exec, converter_adcSetStubval, StubCall.samples]
  dsimp only
  split <;> rfl

theorem foldl_exec_of_ne {o : Word} (ho : ∀ n, sampleRegister n ≠ o) :
    calls.foldl StubCall.exec s o = s o := by
  have hkept := foldl_eq_lastWrite (fun s : RegFile => s o) StubCall.exec (fun _ => none)
    (fun s c => adcSetStubval_of_ne s c.channel c.stubval (ho c.channel).symm) s calls
  exact hkept.trans (lastWrite_of_silent _ _ _ fun _ _ => rfl)

/-- A measurement of an enabled channel returns the last sample it was given. -/
theorem adcMeasure_foldl_exec {m : Fin 16}
    (hstatus : (s adcEngineControlRegister).getLsbD m = true) :
    adcMeasure (m : Nat) (calls.foldl StubCall.exec s) =
      (lastWrite (StubCall.samples m) ((converter s).sample m) calls).toNat := by
  have henabled : (converter (calls.foldl StubCall.exec s)).enabled m = true := by
    rw [← hstatus, ← foldl_exec_of_ne s calls sampleRegister_ne_engine]
    rfl
  rw [adcMeasure_eq, if_pos henabled, foldl_exec_sample]

end Calls

theorem toNat_setWidth_10 (v : BitVec 16) : (v.setWidth 10).toNat = (v &&& 0x3ff).toNat := by
  have hmask : (0x3ff : BitVec 16).toNat = 2 ^ 10 - 1 := rfl
  rw [BitVec.toNat_setWidth, BitVec.toNat_and, hmask, Nat.and_two_pow_sub_one_eq_mod]

/-- **Stub values are measured.**  After any calls, whatever the registers held and
however wide the values were, an enabled channel reads as the low ten bits of the
last value stored for it, and as before if there is none; the engine and the clock
register are as before. -/
theorem adcMeasure_stub_values (s : RegFile) (calls : List StubCall) (m : Fin 16)
    (hstatus : (s adcEngineControlRegister).getLsbD m = true) :
    let s' := calls.foldl StubCall.exec s
    (∀ earlier v later, calls = earlier ++ ⟨m, v⟩ :: later →
        (∀ c ∈ later, c.channel ≠ m) →
          adcMeasure (m : Nat) s' = ((v &&& 0x3ff).toNat : Int)) ∧
      ((∀ c ∈ calls, c.channel ≠ m) →
        adcMeasure (m : Nat) s' = adcMeasure (m : Nat) s) ∧
      s' adcEngineControlRegister = s adcEngineControlRegister ∧
      s' adcClockControlRegister = s adcClockControlRegister := by
  intro s'
  have hmeasure : adcMeasure (m : Nat) s' =
      (lastWrite (StubCall.samples m) ((converter s).sample m) calls).toNat :=
    adcMeasure_foldl_exec s calls hstatus
  have hsilent : ∀ l : List StubCall, (∀ c ∈ l, c.channel ≠ m) →
      ∀ c ∈ l, c.samples m = none := fun l hl c hc => if_neg (hl c hc)
  refine ⟨?_, ?_, foldl_exec_of_ne s calls sampleRegister_ne_engine,
    foldl_exec_of_ne s calls sampleRegister_ne_clock⟩
  · intro earlier v later hcalls hlater
    have hstored : StubCall.samples m ⟨m, v⟩ = some (v.setWidth 10) := if_pos rfl
    rw [hmeasure, hcalls, List.append_cons,
      lastWrite_append_of_silent _ _ _ _ (hsilent later hlater), lastWrite_concat, hstored,
      Option.getD_some, toNat_setWidth_10]
  · intro hcalls
    rw [hmeasure, lastWrite_of_silent _ _ _ (hsilent calls hcalls), adcMeasure_eq]
    exact (if_pos hstatus).symm

/-- Channel 4, stored twice with its neighbour in between, wide values first; all
channels are enabled. -/
theorem adcMeasure_stub_values_channel_four :
    adcMeasure 4 ([⟨4, 0xFFFF⟩, ⟨5, 0xFFFF⟩, ⟨4, 0xA5⟩, ⟨5, 0⟩].foldl StubCall.exec
      fun _ => 0xFFFF) = 0xA5 :=
  (adcMeasure_stub_values (fun _ => 0xFFFF) [⟨4, 0xFFFF⟩, ⟨5, 0xFFFF⟩, ⟨4, 0xA5⟩, ⟨5, 0⟩] 4
    (by decide)).1 [⟨4, 0xFFFF⟩, ⟨5, 0xFFFF⟩] 0xA5 [⟨5, 0⟩] rfl (by decide)

end BmcCodes.Adc.Tdd
