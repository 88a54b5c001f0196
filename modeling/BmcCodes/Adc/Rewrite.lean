import BmcCodes.Adc.Service
import BmcCodes.Adc.TddSimulation

/-!
# What the rewrite has kept

The two drivers take the same requests.  Here they are given the same ones, at the same
converter: what it stores, both find in their data registers, the original driver by
physical address and the rewritten one by offset.

The original driver enables channel `n` with bit `16 + n` of the engine register, the
rewritten one with bit `n`; both represent the same `Converter`.  But the original driver
measures a channel whether it is enabled or not, and corrects the sample, and the rewritten
one does neither.  So the two leave the same record exactly when the channel is enabled and
the correction changes nothing.  The original driver also returns what it has measured, where
the rewritten one returns 0; with the returned values, only the sample 0 is left.
-/

namespace BmcCodes.Adc.Rewrite

open BmcCodes.Lib BmcCodes.Lib.Machine
open Original (Driver IsData)
open Tdd (RegFile Converter Request)

/-! ## Two drivers at one converter -/

structure Both where
  original : Driver
  rewritten : RegFile

/-- The requests that both drivers know, with a channel that exists and a divisor that fits
its field.  The original driver has no request that disables a channel. -/
def Shared : Original.Event → Prop
  | .request cmd arg =>
      cmd ≠ ioctlIoWrite ∧ Request.InRange ⟨cmd, arg⟩ ∧ (cmd = ioctlEnableAdc → arg.data = 1)
  | .convert _ => True

abbrev SharedEvent := { e : Original.Event // Shared e }

def Both.exec (b : Both) (e : SharedEvent) : Both where
  original := e.val.exec b.original
  rewritten :=
    match e.val with
    | .request cmd arg => (Tdd.step b.rewritten ⟨cmd, arg⟩).2
    | .convert samples => fun offset =>
        if IsData (offset + adcEngineAddress) then samples (offset + adcEngineAddress)
        else b.rewritten offset

/-- The same on the converter, with no mention of registers. -/
def convert (c : Converter) (e : SharedEvent) : Converter :=
  match e.val with
  | .request cmd arg => (c.step ⟨cmd, arg⟩).2
  | .convert samples => { c with sample := Original.sample samples }

/-- Both drivers hold the state of the converter, but for its divisor, which the original
driver finds in another field of the request.  The correction is one that `adc_init` can
determine. -/
structure Represents (b : Both) (c : Converter) : Prop where
  enabled : ∀ n : Fin 16,
    (b.original.regs Original.engineControl).getLsbD (16 + n) = c.enabled n
  sample : Original.sample b.original.regs = c.sample
  rewritten : Tdd.converter b.rewritten = c
  cvData : -0x1ff ≤ b.original.cvData ∧ b.original.cvData ≤ 0x200

/-- The rewritten driver succeeds and leaves the record that the original one leaves, if the
event is a measurement. -/
def SameRecord (b : Both) (e : SharedEvent) : Prop :=
  match e.val with
  | .request cmd arg =>
      cmd = ioctlAdcMeasure →
        (Tdd.step b.rewritten ⟨cmd, arg⟩).1 =
          (0, (Original.ioaccessIoctl cmd arg b.original).2.1)
  | .convert _ => True

/-- The drivers also return the same value. -/
def SameAnswer (b : Both) (e : SharedEvent) : Prop :=
  match e.val with
  | .request cmd arg =>
      cmd = ioctlAdcMeasure →
        (Tdd.step b.rewritten ⟨cmd, arg⟩).1 =
          ((Original.ioaccessIoctl cmd arg b.original).1,
            (Original.ioaccessIoctl cmd arg b.original).2.1)
  | .convert _ => True

/-- The channel is enabled and has a sample with `P`, if the event is a measurement. -/
def Measures (P : BitVec 10 → Prop) (c : Converter) (e : SharedEvent) : Prop :=
  match e.val with
  | .request cmd arg =>
      cmd = ioctlAdcMeasure → c.enabled (Request.channel ⟨cmd, arg⟩) ∧
        P (c.sample (Request.channel ⟨cmd, arg⟩))
  | .convert _ => True

/-! ## The original driver -/

theorem isData_sample (n : Fin 16) :
    IsData (Original.dataRegister + 4 * BitVec.ofNat 32 (n / 2)) := by
  revert n
  decide

theorem sample_writeRegister (s : Driver) {address : Word} (data : Word)
    (h : ¬IsData address) :
    Original.sample (s.writeRegister address data).regs = Original.sample s.regs := by
  funext n
  have hne : Original.dataRegister + 4 * BitVec.ofNat 32 (n / 2) ≠ address :=
    fun heq => h (heq ▸ isData_sample n)
  rw [Original.sample, Original.Event.writeRegister_of_ne s data hne]
  rfl

theorem sample_convert (s : Driver) (samples : Word → Word) :
    Original.sample (Original.Event.exec s (.convert samples)).regs =
      Original.sample samples := by
  funext n
  simp only [Original.sample, Original.Event.exec, isData_sample n, if_true]

/-- In range, both drivers see the same channel. -/
theorem address_setWidth (cmd : Word) {arg : IoAccessData} (h : arg.address.toNat < 16) :
    arg.address.setWidth 8 = BitVec.ofNat 8 (Request.channel ⟨cmd, arg⟩) := by
  apply BitVec.eq_of_toNat_eq
  rw [BitVec.toNat_setWidth, BitVec.toNat_ofNat, Request.channel, Fin.val_ofNat,
    Nat.mod_eq_of_lt h]

theorem sound_of_shared {e : Original.Event} (h : Shared e) : e.Sound := by
  cases e with
  | convert samples => trivial
  | request cmd arg =>
      refine ⟨h.1, fun henable => ?_⟩
      have hchannel := h.2.1.2 (.inl henable)
      rw [BitVec.toNat_setWidth]
      exact Nat.lt_of_le_of_lt (Nat.mod_le _ _) hchannel

/-- The bit that the original driver sets for a channel. -/
theorem enables_getLsbD {cmd : Word} {arg : IoAccessData} (h : Shared (.request cmd arg))
    (n : Fin 16) :
    (Original.Event.enables (.request cmd arg)).getLsbD (16 + n) =
      decide (cmd = ioctlEnableAdc ∧ n = Request.channel ⟨cmd, arg⟩) := by
  by_cases henable : cmd = ioctlEnableAdc
  · have hchannel := h.2.1.2 (.inl henable)
    have hnumber : ∀ m : Fin 16, (BitVec.ofNat 8 m).toNat = m := by decide
    rw [Original.Event.enables, if_pos henable, address_setWidth cmd hchannel, hnumber,
      BitVec.getLsbD_twoPow, decide_eq_true (by omega), Bool.true_and, decide_eq_decide,
      and_iff_right henable, Nat.add_left_cancel_iff, Fin.ext_iff, eq_comm]
  · rw [Original.Event.enables, if_neg henable]
    simp [henable]

/-- A request leaves the samples alone. -/
theorem sample_request {cmd : Word} (hcmd : cmd ≠ ioctlIoWrite) (arg : IoAccessData)
    (s : Driver) :
    Original.sample (Original.Event.exec s (.request cmd arg)).regs =
      Original.sample s.regs := by
  rcases Original.Event.exec_request hcmd arg s with ⟨_, hexec⟩ | ⟨_, _, _, hexec⟩ | ⟨_, _, hexec⟩
  · rw [hexec, sample_writeRegister s _ (by decide)]
  · rw [hexec, sample_writeRegister s _ (by decide)]
  · rw [hexec]

/-! ## The converter -/

theorem step_enabled (c : Converter) {q : Request}
    (hone : q.cmd = ioctlEnableAdc → q.arg.data = 1) (n : Fin 16) :
    (c.step q).2.enabled n =
      (c.enabled n || decide (q.cmd = ioctlEnableAdc ∧ n = q.channel)) := by
  have hset : ioctlEnableAdc ≠ ioctlSetAdcClock := by decide
  have hmeasure : ioctlEnableAdc ≠ ioctlAdcMeasure := by decide
  unfold Converter.step
  by_cases henable : q.cmd = ioctlEnableAdc
  · simp only [henable, hset, hmeasure, if_true, if_false, hone henable, decide_true, true_and]
    by_cases hn : n = q.channel <;> simp [hn]
  · simp only [henable, false_and, decide_false, Bool.or_false, if_false]
    split
    · rfl
    · split
      · split <;> rfl
      · rfl

theorem step_sample (c : Converter) (q : Request) : (c.step q).2.sample = c.sample := by
  unfold Converter.step
  split
  · rfl
  · split
    · split <;> rfl
    · split <;> rfl

/-! ## One event -/

theorem converter_convert (s : RegFile) (samples : Word → Word) :
    Tdd.converter (fun offset =>
        if IsData (offset + adcEngineAddress) then samples (offset + adcEngineAddress)
        else s offset) =
      { Tdd.converter s with sample := Original.sample samples } := by
  have hengine : ¬IsData (adcEngineControlRegister + adcEngineAddress) := by decide
  have hclock : ¬IsData (adcClockControlRegister + adcEngineAddress) := by decide
  have haddress : ∀ n : Fin 16, Tdd.sampleRegister n + adcEngineAddress =
      Original.dataRegister + 4 * BitVec.ofNat 32 (n / 2) := by decide
  simp only [Tdd.converter, hengine, hclock, haddress, isData_sample, if_true, if_false]
  rfl

theorem Represents.exec {b : Both} {c : Converter} (h : Represents b c) (e : SharedEvent) :
    Represents (b.exec e) (convert c e) := by
  obtain ⟨e, hshared⟩ := e
  have hchanges := Original.Event.changes_exec b.original (sound_of_shared hshared)
  have hcvData : (e.exec b.original).cvData = b.original.cvData := hchanges.cvData
  cases e with
  | request cmd arg =>
      refine ⟨fun n => ?_, ?_, ?_, hcvData ▸ h.cvData⟩
      · have hengine := hchanges.engine
        rw [Both.exec, convert, hengine, BitVec.getLsbD_or, h.enabled,
          enables_getLsbD hshared, step_enabled c (hshared.2.2)]
      · exact ((sample_request hshared.1 arg b.original).trans h.sample).trans
          (step_sample c ⟨cmd, arg⟩).symm
      · exact Tdd.simulation.next h.rewritten hshared.2.1
  | convert samples =>
      refine ⟨fun n => ?_, sample_convert b.original samples, ?_, hcvData ▸ h.cvData⟩
      · have hengine : ¬IsData Original.engineControl := by decide
        simp only [Both.exec, convert, Original.Event.exec, hengine, if_false]
        rw [h.enabled]
      · simp only [Both.exec, convert]
        rw [converter_convert, h.rewritten]

/-- After `adc_init`, no channel is enabled in the original driver. -/
theorem represents_of_adcInit {hw : Original.Hardware} {n : Nat} {s₀ s : Driver}
    (hinit : Original.adcInit hw n s₀ = some s) {regs : RegFile}
    (hoff : ∀ n, (Tdd.converter regs).enabled n = false)
    (hsample : (Tdd.converter regs).sample = Original.sample hw.sampled) :
    Represents ⟨s, regs⟩ (Tdd.converter regs) := by
  have hcvData := Original.adcInit_cvData hinit
  have hlt := (Original.sample hw.sampled 0).isLt
  have hengine := (Original.adcInit_serving hinit).engine
  refine ⟨fun n => ?_, ?_, rfl, by dsimp only; omega⟩
  · have hupper : ∀ n : Fin 16, (0x0000000f : Word).getLsbD (16 + n) = false := by decide
    rw [hengine, List.map_nil, hoff]
    rw [show Update.staleBits [] = 0#32 from rfl, BitVec.or_zero, hupper]
  · rw [hsample]
    rw [Original.adcInit] at hinit
    dsimp only at hinit
    split at hinit
    · rw [Option.some_inj] at hinit
      rw [← hinit, sample_writeRegister _ _ (by decide), sample_writeRegister _ _ (by decide)]
    · simp at hinit

/-! ## One measurement -/

/-- A corrected sample fits the record. -/
theorem toInt_reading {raw : BitVec 10} {cvData : Int}
    (hcvData : -0x1ff ≤ cvData ∧ cvData ≤ 0x200) :
    (BitVec.ofInt 32 (Original.reading raw cvData)).toInt = Original.reading raw cvData := by
  have hraw := raw.isLt
  have hnonneg := Original.reading_nonneg raw cvData
  have hsmall : Original.reading raw cvData ≤ 0x5ff := by
    unfold Original.reading
    split <;> omega
  exact BitVec.toInt_ofInt_eq_self (by decide) (by omega) (by omega)

/-- A corrected sample is the sample itself if there is nothing to correct. -/
theorem setWidth_eq_reading_iff {raw : BitVec 10} {cvData : Int}
    (hcvData : -0x1ff ≤ cvData ∧ cvData ≤ 0x200) :
    raw.setWidth 32 = BitVec.ofInt 32 (Original.reading raw cvData) ↔
      raw = 0 ∨ cvData = 0 := by
  rw [← BitVec.toInt_inj, toInt_setWidth_10, toInt_reading hcvData, Original.reading]
  by_cases hzero : raw = 0
  · simp [hzero]
  · have hne : raw.toNat ≠ 0 := fun h => hzero (BitVec.eq_of_toNat_eq h)
    rw [if_neg hzero, or_iff_right hzero]
    omega

/-- The same number is in the record and returned, by the original driver. -/
theorem original_measure {b : Both} {c : Converter} (h : Represents b c) {cmd : Word}
    {arg : IoAccessData} (hshared : Shared (.request cmd arg)) (hcmd : cmd = ioctlAdcMeasure) :
    (Original.ioaccessIoctl cmd arg b.original).1 =
        Original.reading (c.sample (Request.channel ⟨cmd, arg⟩)) b.original.cvData ∧
      (Original.ioaccessIoctl cmd arg b.original).2.1 =
        { arg with data := BitVec.ofInt 32 (Original.reading
            (c.sample (Request.channel ⟨cmd, arg⟩)) b.original.cvData) } := by
  have hchannel := address_setWidth cmd (hshared.2.1.2 (.inr hcmd))
  have hraw := Original.adcMeasure_eq b.original (Request.channel ⟨cmd, arg⟩)
  rw [← hchannel] at hraw
  rw [hcmd] at hraw ⊢
  rw [Original.ioaccessIoctl_measure_eq arg hraw, ← h.sample]
  exact ⟨toInt_reading h.cvData, rfl⟩

/-- The rewritten driver measures channels that are enabled. -/
theorem rewritten_measure {b : Both} {c : Converter} (h : Represents b c) {cmd : Word}
    {arg : IoAccessData} (hshared : Shared (.request cmd arg)) (hcmd : cmd = ioctlAdcMeasure) :
    (Tdd.step b.rewritten ⟨cmd, arg⟩).1 =
      if c.enabled (Request.channel ⟨cmd, arg⟩) then
        (0, { arg with data := (c.sample (Request.channel ⟨cmd, arg⟩)).setWidth 32 })
      else (-1, arg) := by
  have hset : ioctlAdcMeasure ≠ ioctlSetAdcClock := by decide
  rw [Tdd.simulation.output h.rewritten hshared.2.1, Converter.step, if_neg (hcmd ▸ hset),
    if_pos hcmd]
  split <;> rfl

theorem sameRecord_iff {b : Both} {c : Converter} (h : Represents b c) (e : SharedEvent) :
    SameRecord b e ↔ Measures (fun raw => raw = 0 ∨ b.original.cvData = 0) c e := by
  obtain ⟨e, hshared⟩ := e
  cases e with
  | convert samples => exact Iff.rfl
  | request cmd arg =>
      refine imp_congr_right fun hcmd => ?_
      rw [rewritten_measure h hshared hcmd, (original_measure h hshared hcmd).2]
      dsimp only
      rw [← setWidth_eq_reading_iff h.cvData]
      split
      · next henabled =>
          rw [and_iff_right henabled]
          simp
      · next hdisabled => simp [hdisabled]

/-- Where the record is the same, so is the returned value if the sample is 0. -/
theorem sameAnswer_iff {b : Both} {c : Converter} (h : Represents b c) (e : SharedEvent) :
    SameAnswer b e ↔ Measures (· = 0) c e := by
  obtain ⟨e, hshared⟩ := e
  cases e with
  | convert samples => exact Iff.rfl
  | request cmd arg =>
      refine imp_congr_right fun hcmd => ?_
      obtain ⟨hreturned, hrecord⟩ := original_measure h hshared hcmd
      have hnonneg := Original.reading_nonneg (c.sample (Request.channel ⟨cmd, arg⟩))
        b.original.cvData
      rw [rewritten_measure h hshared hcmd, hreturned, hrecord]
      constructor
      · intro hsame
        split at hsame
        · next henabled =>
            obtain ⟨hzero, hdata⟩ := Prod.mk.inj hsame
            have hsample := congrArg IoAccessData.data hdata
            dsimp only at hsample
            rw [← hzero, ← BitVec.toInt_inj, toInt_setWidth_10] at hsample
            refine ⟨henabled, BitVec.eq_of_toNat_eq ?_⟩
            exact Int.ofNat_inj.mp hsample
        · next =>
            have hminus := (Prod.mk.inj hsame).1
            omega
      · intro hmeasures
        obtain ⟨henabled, hzero⟩ := hmeasures
        rw [if_pos henabled, hzero]
        rfl

/-! ## Runs -/

/-- The correction is the same in a whole run, so the converter alone decides. -/
theorem each_iff_of_represents {P : Both → SharedEvent → Prop}
    {ok : Converter → SharedEvent → Prop} {cvData : Int}
    (hok : ∀ b c e, Represents b c → b.original.cvData = cvData → (P b e ↔ ok c e))
    {b : Both} {c : Converter} (h : Represents b c) (hcv : b.original.cvData = cvData)
    (events : List SharedEvent) : Each Both.exec P b events ↔ Each convert ok c events := by
  have hcvData : ∀ (b' : Both) (e : SharedEvent),
      (b'.exec e).original.cvData = b'.original.cvData := fun b' e =>
    (Original.Event.changes_exec b'.original (sound_of_shared e.property)).cvData
  refine each_iff_of_tracks
    (R := fun b' c' => Represents b' c' ∧ b'.original.cvData = cvData) ?_ ?_ ⟨h, hcv⟩ events
  · intro b' c' e h'
    exact ⟨h'.1.exec e, (hcvData b' e).trans h'.2⟩
  · intro b' c' e h'
    exact hok b' c' e h'.1 h'.2

/-- **When the drivers agree.**  Over any run of shared requests, while samples come in, both
drivers represent the same converter.  They leave the same records at every measurement of
the run if and only if each is of a channel that was enabled before, and its sample is 0 or
the original driver has nothing to correct; and they also return the same values if and only
if each is of a channel that was enabled before, and its sample is 0. -/
theorem agree_run_iff {b : Both} {c : Converter} (h : Represents b c)
    (events : List SharedEvent) :
    Represents (events.foldl Both.exec b) (events.foldl convert c) ∧
      (Each Both.exec SameRecord b events ↔
        Each convert (Measures fun raw => raw = 0 ∨ b.original.cvData = 0) c events) ∧
      (Each Both.exec SameAnswer b events ↔ Each convert (Measures (· = 0)) c events) := by
  refine ⟨?_, ?_, ?_⟩
  · induction events generalizing b c with
    | nil => exact h
    | cons e events ih => exact ih (h.exec e)
  · refine each_iff_of_represents (fun b' c' e h' hcv => ?_) h rfl events
    rw [← hcv]
    exact sameRecord_iff h' e
  · exact each_iff_of_represents (fun b' c' e h' _ => sameAnswer_iff h' e) h rfl events

/-- Calibrated with the sample `0x200`, there is nothing to correct: both drivers measure
what channel 3 holds once it is enabled. -/
theorem agree_run_iff_midscale :
    ∃ s, Original.adcInit ⟨fun _ => 0x100, fun _ => 0x2000200⟩ 1 ⟨fun _ => 0, 0⟩ = some s ∧
      Each Both.exec SameRecord ⟨s, fun o => if o < 0x10 then 0 else 0x2000200⟩
        [⟨.request ioctlEnableAdc ⟨0, 3, 1, 0, 0, 0⟩, by decide, by decide, by decide⟩,
          ⟨.convert fun _ => 0x1A501A5, trivial⟩,
          ⟨.request ioctlAdcMeasure ⟨0, 3, 0, 0, 0, 0⟩, by decide, by decide, by decide⟩] := by
  have hinit : ∃ s, Original.adcInit ⟨fun _ => 0x100, fun _ => 0x2000200⟩ 1
      ⟨fun _ => 0, 0⟩ = some s := ⟨_, rfl⟩
  obtain ⟨s, hinit⟩ := hinit
  have hcvData : s.cvData = 0 := (Original.adcInit_cvData hinit).trans (by decide)
  refine ⟨s, hinit, ((agree_run_iff (represents_of_adcInit hinit ?_ ?_) _).2.1).mpr ?_⟩
  · decide
  · funext n
    revert n
    decide
  · exact ⟨fun h => absurd h (by decide), trivial, fun _ => ⟨by decide, .inr hcvData⟩, trivial⟩

end BmcCodes.Adc.Rewrite
