import BmcCodes.Adc.Calibration
import BmcCodes.Lib.Machine
import BmcCodes.Lib.Update
import Mathlib.Data.List.Induction

/-!
# The original driver in service

`adc_mod_init` registers the device and initialises the converter.  From then on requests
come in, in any order, and between them the converter stores new samples.

As long as nobody writes registers directly, no request disables a channel, and a clock
setting replaces only those bits of the clock register that the mask of `set_adc_clock`
clears: bit 0 of the divisor, and bits `[15:10]`.  Into the rest of the divisor and the
inverse flag it is or-ed, so there the settings of a run add up.  The correction stays
what it was, so every measurement of a run is corrected in the same way
(`adcModInit_serves`).
-/

namespace BmcCodes.Adc.Original

open BmcCodes.Lib BmcCodes.Lib.Machine

/-! ## The module -/

/-- The driver, and `ioaccess_major`. -/
structure Module where
  driver : Driver
  ioaccessMajor : Int

/-- `registered` is what `register_chrdev` returns. -/
def adcModInit (hw : Hardware) (n : Nat) (registered : Int) (m : Module) :
    Option (Int × Module) :=
  let result := registered
  if result < 0 then some (result, m)
  else
    let m := if m.ioaccessMajor = 0 then { m with ioaccessMajor := result } else m
    (adcInit hw n m.driver).map fun driver => (0, { m with driver := driver })

/-- The registers that the converter stores its samples in. -/
def IsData (a : Word) : Prop := dataRegister ≤ a ∧ a < dataRegister + 0x20

instance (a : Word) : Decidable (IsData a) := inferInstanceAs (Decidable (_ ∧ _))

/-- What `set_adc_clock` keeps of the clock register, bits `[9:1]` and `[31:16]`. -/
def clockMask : Word := 0xFFFF03FE

inductive Event where
  | request (cmd : Word) (arg : IoAccessData)
  /-- The converter stores new samples. -/
  | convert (samples : Word → Word)

namespace Event

def exec (s : Driver) : Event → Driver
  | .request cmd arg => (ioaccessIoctl cmd arg s).2.2
  | .convert samples =>
      { s with regs := fun a => if IsData a then samples a else s.regs a }

/-- The request writes no register directly, and if it enables a channel, one of the
sixteen. -/
def Sound : Event → Prop
  | .request cmd arg =>
      cmd ≠ ioctlIoWrite ∧ (cmd = ioctlEnableAdc → (arg.address.setWidth 8).toNat < 16)
  | .convert _ => True

/-- The bit of the engine register that the event sets. -/
def enables : Event → Word
  | .request cmd arg =>
      if cmd = ioctlEnableAdc then BitVec.twoPow 32 (16 + (arg.address.setWidth 8).toNat)
      else 0#32
  | .convert _ => 0#32

/-- The setting that the event writes to the clock register, if it does. -/
def clockData : Event → Option Word
  | .request cmd arg =>
      if cmd = ioctlSetAdcClock then
        some ((arg.address.setWidth 8).setWidth 32 |||
          (arg.data.setWidth 8).setWidth 32 <<< 16)
      else none
  | .convert _ => none

/-! ## One event -/

theorem writeRegister_self (s : Driver) (address data : Word) :
    (s.writeRegister address data).regs address = data := if_pos rfl

theorem writeRegister_of_ne (s : Driver) {address a : Word} (data : Word) (h : a ≠ address) :
    (s.writeRegister address data).regs a = s.regs a := if_neg h

/-- What a request can do, if it does not write a register directly: enable a channel,
or set the clock, or leave the driver as it is. -/
theorem exec_request {cmd : Word} (hcmd : cmd ≠ ioctlIoWrite) (arg : IoAccessData)
    (s : Driver) :
    cmd = ioctlEnableAdc ∧ exec s (.request cmd arg) =
        s.writeRegister engineControl (s.regs engineControl ||| enables (.request cmd arg)) ∨
      (∃ d, cmd = ioctlSetAdcClock ∧ clockData (.request cmd arg) = some d ∧
        exec s (.request cmd arg) =
          s.writeRegister clockControl
            ((⟨clockMask, d⟩ : Update 32).apply (s.regs clockControl))) ∨
      cmd ≠ ioctlEnableAdc ∧ cmd ≠ ioctlSetAdcClock ∧ exec s (.request cmd arg) = s := by
  unfold exec ioaccessIoctl
  dsimp only
  by_cases hread : cmd = ioctlIoRead
  · rw [if_pos hread, hread]
    exact .inr (.inr ⟨by decide, by decide, rfl⟩)
  rw [if_neg hread, if_neg hcmd]
  by_cases hclock : cmd = ioctlSetAdcClock
  · refine .inr (.inl ⟨_, hclock, if_pos hclock, ?_⟩)
    have hshift : ∀ x : Word, shl x adcClockInverse = x <<< 16 := fun x => shl_natCast x 16
    rw [if_pos hclock]
    simp only [setAdcClock, hshift]
    rfl
  rw [if_neg hclock]
  by_cases hmeasure : cmd = ioctlAdcMeasure
  · rw [if_pos hmeasure, hmeasure]
    exact .inr (.inr ⟨by decide, by decide, rfl⟩)
  rw [if_neg hmeasure]
  by_cases henable : cmd = ioctlEnableAdc
  · refine .inl ⟨henable, ?_⟩
    have hshift : shl 0x01 (adcChannelEnable + ((arg.address.setWidth 8).toNat : Int)) =
        BitVec.twoPow 32 (16 + (arg.address.setWidth 8).toNat) := shl_one_natCast _
    rw [if_pos henable, enables, if_pos henable, enableAdcChannel, hshift]
    rfl
  · rw [if_neg henable]
    exact .inr (.inr ⟨henable, hclock, rfl⟩)

/-- What every event keeps, and what it changes. -/
structure Changes (s : Driver) (e : Event) (s' : Driver) : Prop where
  engine : s'.regs engineControl = s.regs engineControl ||| e.enables
  clockKept : s'.regs clockControl &&& clockMask =
    (s.regs clockControl ||| e.clockData.getD 0) &&& clockMask
  clockReplaced : s'.regs clockControl &&& ~~~clockMask =
    e.clockData.getD (s.regs clockControl) &&& ~~~clockMask
  others : ∀ a, ¬IsData a → a ≠ engineControl → a ≠ clockControl → s'.regs a = s.regs a
  cvData : s'.cvData = s.cvData

/-- An event that does not set the clock leaves its register alone. -/
theorem Changes.of_clockControl_eq {s s' : Driver} {e : Event} (hdata : e.clockData = none)
    (hengine : s'.regs engineControl = s.regs engineControl ||| e.enables)
    (hclock : s'.regs clockControl = s.regs clockControl)
    (hothers : ∀ a, ¬IsData a → a ≠ engineControl → a ≠ clockControl → s'.regs a = s.regs a)
    (hcvData : s'.cvData = s.cvData) : Changes s e s' := by
  refine ⟨hengine, ?_, ?_, hothers, hcvData⟩
  · rw [hdata, Option.getD_none, hclock]
    simp
  · rw [hdata, Option.getD_none, hclock]

theorem changes_exec (s : Driver) {e : Event} (he : e.Sound) : Changes s e (exec s e) := by
  have hengine : ¬IsData engineControl := by decide
  have hclock : ¬IsData clockControl := by decide
  have hne : clockControl ≠ engineControl := by decide
  cases e with
  | convert samples =>
      refine Changes.of_clockControl_eq rfl ?_ ?_ (fun a ha _ _ => if_neg ha) rfl
      · simp [exec, enables, hengine]
      · simp [exec, hclock]
  | request cmd arg =>
      rcases exec_request he.1 arg s with ⟨henable, hexec⟩ | ⟨d, hset, hdata, hexec⟩ |
        ⟨henable, hset, hexec⟩
      · have hdata : clockData (.request cmd arg) = none := by
          rw [clockData, henable, if_neg (by decide)]
        rw [hexec]
        exact Changes.of_clockControl_eq hdata (writeRegister_self _ _ _)
          (writeRegister_of_ne _ _ hne) (fun a _ ha _ => writeRegister_of_ne _ _ ha) rfl
      · have hbits : enables (.request cmd arg) = 0#32 := by
          rw [enables, hset, if_neg (by decide)]
        rw [hexec]
        refine ⟨?_, ?_, ?_, fun a _ _ ha => writeRegister_of_ne _ _ ha, rfl⟩
        · rw [hbits, BitVec.or_zero, writeRegister_of_ne _ _ hne.symm]
        · rw [writeRegister_self, hdata]
          exact Update.apply_and_keep ⟨clockMask, d⟩ _
        · rw [writeRegister_self, hdata]
          exact Update.apply_and_not_keep ⟨clockMask, d⟩ _
      · have hbits : enables (.request cmd arg) = 0#32 := if_neg henable
        rw [hexec]
        exact Changes.of_clockControl_eq (if_neg hset) (by rw [hbits, BitVec.or_zero]) rfl
          (fun _ _ _ _ => rfl) rfl

end Event

/-! ## Runs -/

open Event

/-- What holds after the events of a run that began with `adc_init`. -/
structure Serving (hw : Hardware) (events : List Event) (s : Driver) : Prop where
  engine : s.regs engineControl = 0x0000000f ||| Update.staleBits (events.map enables)
  /-- Bits `[9:1]` and `[31:16]` gather what was set. -/
  clockKept : s.regs clockControl &&& clockMask =
    (hw.sampled clockControl ||| Update.staleBits (events.filterMap clockData)) &&& clockMask
  /-- Bit 0 and bits `[15:10]` are those of the last setting. -/
  clockReplaced : s.regs clockControl &&& ~~~clockMask =
    (events.filterMap clockData).getLastD (hw.sampled clockControl) &&& ~~~clockMask
  password : s.regs scuPasswordRegister = 0xaa
  others : ∀ a, ¬IsData a → a ∉ [engineControl, clockControl, scuPasswordRegister] →
    s.regs a = hw.sampled a
  cvData : s.cvData = 0x200 - (sample hw.sampled 0).toNat

theorem adcInit_serving {hw : Hardware} {n : Nat} {s₀ s : Driver}
    (h : adcInit hw n s₀ = some s) : Serving hw [] s := by
  have hcvData := adcInit_cvData h
  rw [adcInit] at h
  dsimp only at h
  split at h
  · rw [Option.some_inj] at h
    subst h
    have hne : clockControl ≠ engineControl := by decide
    have hengine : engineControl ≠ scuPasswordRegister := by decide
    have hclock : clockControl ≠ scuPasswordRegister := by decide
    refine ⟨?_, ?_, ?_, writeRegister_self _ _ _, fun a _ ha => ?_, hcvData⟩
    · rw [writeRegister_of_ne _ _ hengine, writeRegister_self]
      rfl
    · rw [writeRegister_of_ne _ _ hclock, writeRegister_of_ne _ _ hne]
      simp [Update.staleBits]
    · rw [writeRegister_of_ne _ _ hclock, writeRegister_of_ne _ _ hne]
      rfl
    · simp only [List.mem_cons, List.not_mem_nil, or_false, not_or] at ha
      rw [writeRegister_of_ne _ _ ha.2.2, writeRegister_of_ne _ _ ha.1]
  · simp at h

/-- One more event. -/
theorem Serving.exec {hw : Hardware} {events : List Event} {s : Driver}
    (h : Serving hw events s) {e : Event} (he : e.Sound) :
    Serving hw (events ++ [e]) (e.exec s) := by
  have hchanges := changes_exec s he
  have hengine : scuPasswordRegister ≠ engineControl := by decide
  have hclock : scuPasswordRegister ≠ clockControl := by decide
  refine ⟨?_, ?_, ?_, ?_, fun a hdata ha => ?_, hchanges.cvData.trans h.cvData⟩
  · rw [hchanges.engine, h.engine, List.map_append, List.map_singleton, Update.staleBits_concat,
      BitVec.or_assoc]
  · rw [hchanges.clockKept, List.filterMap_append, BitVec.and_or_distrib_right, h.clockKept,
      ← BitVec.and_or_distrib_right]
    cases hdata : e.clockData with
    | none => simp [hdata]
    | some d =>
        rw [List.filterMap_cons_some hdata, List.filterMap_nil, Update.staleBits_concat,
          Option.getD_some, BitVec.or_assoc]
  · rw [hchanges.clockReplaced, List.filterMap_append]
    cases hdata : e.clockData with
    | none =>
        rw [List.filterMap_cons_none hdata, List.filterMap_nil, List.append_nil,
          Option.getD_none, h.clockReplaced]
    | some d =>
        rw [List.filterMap_cons_some hdata, List.filterMap_nil, Option.getD_some]
        simp
  · rw [hchanges.others _ (by decide) hengine hclock, h.password]
  · simp only [List.mem_cons, List.not_mem_nil, or_false, not_or] at ha
    rw [hchanges.others a hdata ha.1 ha.2.1]
    exact h.others a hdata (by simp [ha])

theorem Serving.run {hw : Hardware} {s : Driver} (h : Serving hw [] s) {events : List Event}
    (hsound : ∀ e ∈ events, e.Sound) : Serving hw events (events.foldl Event.exec s) := by
  induction events using List.reverseRecOn with
  | nil => exact h
  | append_singleton events e ih =>
      rw [List.foldl_concat]
      exact (ih fun e he => hsound e (by simp [he])).exec (hsound e (by simp))

/-! ## Measurements -/

/-- A measurement returns a ten-bit sample with this correction. -/
def Measured (cvData : Int) (s : Driver) : Event → Prop
  | .request cmd arg =>
      cmd = ioctlAdcMeasure → ∃ raw : BitVec 10,
        adcMeasure (arg.address.setWidth 8) s = raw.toNat ∧
        (ioaccessIoctl cmd arg s).1 = reading raw cvData ∧
        0 ≤ (ioaccessIoctl cmd arg s).1 ∧ (ioaccessIoctl cmd arg s).1 ≤ 0x5ff
  | .convert _ => True

theorem exists_adcMeasure_eq (adcChannelSelection : Byte) (s : Driver) :
    ∃ raw : BitVec 10, adcMeasure adcChannelSelection s = raw.toNat := by
  unfold adcMeasure
  dsimp only
  split
  · rw [and_0x3ff_eq, toInt_setWidth_10]
    exact ⟨_, rfl⟩
  · rw [and_0x3ff_eq, toInt_setWidth_10]
    exact ⟨_, rfl⟩

section Correction

-- the corrections that `adc_init` can determine
variable {cvData : Int} (hrange : -0x1ff ≤ cvData ∧ cvData ≤ 0x200)

include hrange

theorem measured_of_cvData {s : Driver} (hcvData : s.cvData = cvData) (e : Event) :
    Measured cvData s e := by
  cases e with
  | convert samples => trivial
  | request cmd arg =>
      rintro rfl
      obtain ⟨raw, hraw⟩ := exists_adcMeasure_eq (arg.address.setWidth 8) s
      have hlt := raw.isLt
      have hnonneg := reading_nonneg raw cvData
      have hle : reading raw cvData ≤ 0x5ff := by
        unfold reading
        split <;> omega
      have hreturned : (ioaccessIoctl ioctlAdcMeasure arg s).1 = reading raw cvData := by
        rw [ioaccessIoctl_measure_eq arg hraw, hcvData]
        exact BitVec.toInt_ofInt_eq_self (by decide) (by omega) (by omega)
      exact ⟨raw, hraw, hreturned, by omega, by omega⟩

theorem each_measured {s : Driver} (hcvData : s.cvData = cvData) {events : List Event}
    (hsound : ∀ e ∈ events, e.Sound) : Each Event.exec (Measured cvData) s events := by
  induction events generalizing s with
  | nil => trivial
  | cons e events ih =>
      rw [List.forall_mem_cons] at hsound
      rw [each_cons]
      exact ⟨measured_of_cvData hrange hcvData e,
        ih ((changes_exec s hsound.1).cvData.trans hcvData) hsound.2⟩

end Correction

/-- A module that is inserted without an error has been initialised. -/
theorem adcModInit_eq_zero {hw : Hardware} {n : Nat} {registered : Int} {m m' : Module}
    (h : adcModInit hw n registered m = some (0, m')) :
    0 ≤ registered ∧ adcInit hw n m.driver = some m'.driver := by
  unfold adcModInit at h
  dsimp only at h
  split at h
  · next hneg =>
      rw [Option.some_inj, Prod.mk.injEq] at h
      exact absurd h.1 (by omega)
  · next hpos =>
      rw [Option.map_eq_some_iff] at h
      obtain ⟨driver, hdriver, hm⟩ := h
      have hm' : m'.driver = driver := by
        rw [Prod.mk.injEq] at hm
        rw [← hm.2]
      rw [hm', ← hdriver]
      refine ⟨by omega, ?_⟩
      split <;> rfl

/-- **The driver in service**: after its insertion, and any run of requests that write no
register directly, while samples come in, the engine register has the bits of the engine
and of every channel that was ever enabled; bits `[9:1]` and `[31:16]` of the clock register
have those of every clock ever set, and its other bits those of the last one; and all other
registers are as `adc_init` has left them.  Each measurement returns a sample with the one
correction that `adc_init` has determined. -/
theorem adcModInit_serves {hw : Hardware} {n : Nat} {registered : Int} {m m' : Module}
    (hinit : adcModInit hw n registered m = some (0, m')) {events : List Event}
    (hsound : ∀ e ∈ events, e.Sound) :
    Serving hw events (events.foldl Event.exec m'.driver) ∧
      Each Event.exec (Measured (0x200 - (sample hw.sampled 0).toNat)) m'.driver events := by
  obtain ⟨-, hdriver⟩ := adcModInit_eq_zero hinit
  have hserving := adcInit_serving hdriver
  have hraw := (sample hw.sampled 0).isLt
  exact ⟨hserving.run hsound, each_measured (by omega) hserving.cvData hsound⟩

/-- Channel 3 is enabled, a sample arrives, and channel 0 is measured. -/
theorem adcModInit_serves_measurement :
    ∃ m', adcModInit ⟨fun _ => 0x100, fun _ => 0x1F0⟩ 1 0 ⟨⟨fun _ => 0, 0⟩, 0⟩ =
        some (0, m') ∧
      Each Event.exec (Measured 0x10) m'.driver
        [.request ioctlEnableAdc ⟨0, 3, 0, 0, 0, 0⟩, .convert fun _ => 0x1A5,
          .request ioctlAdcMeasure ⟨0, 0, 0, 0, 0, 0⟩] := by
  have hinit : ∃ m', adcModInit ⟨fun _ => 0x100, fun _ => 0x1F0⟩ 1 0
      ⟨⟨fun _ => 0, 0⟩, 0⟩ = some (0, m') := ⟨_, rfl⟩
  obtain ⟨m', hinit⟩ := hinit
  refine ⟨m', hinit, (adcModInit_serves hinit ?_).2⟩
  simp only [List.mem_cons, List.not_mem_nil, or_false, forall_eq_or_imp, forall_eq]
  exact ⟨⟨by decide, by decide⟩, trivial, by decide, by decide⟩

end BmcCodes.Adc.Original
