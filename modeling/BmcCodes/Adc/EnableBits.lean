import BmcCodes.Adc.ChannelBits
import BmcCodes.Adc.TddSimulation

/-!
# The enable bits of the two drivers

The original driver enables channel `n` with bit `16 + n` of the engine
register, as the register map says; the rewritten one, in its set and in its get
function alike, with bit `n`.  The two agree on a run of enable requests only
where nothing happens: each request must find both bits at the requested value
already.
-/

namespace BmcCodes.Adc.Tdd

open BmcCodes.Lib BmcCodes.Lib.Machine BmcCodes.Adc.Original

/-- An `IOCTL_ENABLE_ADC` request for one of the sixteen channels with a flag as
its data. -/
structure EnableRequest where
  arg : IoAccessData
  address_lt : arg.address.toNat < 16
  data_flag : arg.data = 0 ∨ arg.data = 1

namespace EnableRequest

def channel (q : EnableRequest) : Fin 16 := ⟨q.arg.address.toNat, q.address_lt⟩

def on (q : EnableRequest) : Bool := q.arg.data = 1

def exec (s : RegFile) (q : EnableRequest) : RegFile :=
  (adcIoctl ioctlEnableAdc q.arg s).2.2

theorem exec_engine (s : RegFile) (q : EnableRequest) :
    exec s q adcEngineControlRegister =
      (Update.assignBit q.channel q.on).apply (s adcEngineControlRegister) := by
  have haddress : q.arg.address.toInt = ((q.channel : Nat) : Int) :=
    BitVec.toInt_eq_toNat_of_lt (by have := q.address_lt; omega)
  have hexec : exec s q = adcEnableChan (q.channel : Nat) q.arg.data.toInt s := by
    rw [← haddress]
    rfl
  rw [hexec, adcEnableChan_eq, writel, if_pos rfl, on]
  simp only [toInt_eq_one_iff]

/-- The request changes bit `16 + n` of the engine register to the flag, and no
other bit. -/
def DrivesOwnBit (s : RegFile) (q : EnableRequest) : Prop :=
  exec s q adcEngineControlRegister =
    (Update.assignBit (16 + q.channel) q.on).apply (s adcEngineControlRegister)

/-- Bits `n` and `16 + n` of the content `r` have the requested value. -/
def Satisfied (r : Word) (q : EnableRequest) : Prop :=
  r.getLsbD q.channel = q.on ∧ r.getLsbD (16 + q.channel) = q.on

/-- A satisfied request changes nothing. -/
theorem exec_engine_of_satisfied {s : RegFile} {q : EnableRequest}
    (h : q.Satisfied (s adcEngineControlRegister)) :
    exec s q adcEngineControlRegister = s adcEngineControlRegister := by
  rw [exec_engine]
  exact (Update.assignBit_apply_eq_self_iff _ _ _ (by omega)).mpr h.1

theorem drivesOwnBit_iff (s : RegFile) (q : EnableRequest) :
    q.DrivesOwnBit s ↔ q.Satisfied (s adcEngineControlRegister) := by
  rw [DrivesOwnBit, exec_engine]
  exact Update.assignBit_apply_eq_assignBit_apply_iff (by omega) (by omega) (by omega) _ _

end EnableRequest

/-- On a run of enable requests the rewritten driver does what the register map
and the original driver do: each request drives the bit of its channel only, the
engine bits stay, and a run that only enables leaves what the original does. -/
structure MatchesRegisterMap (s : RegFile) (qs : List EnableRequest) : Prop where
  ownBit : Each EnableRequest.exec (fun s q => q.DrivesOwnBit s) s qs
  engine : ∀ i < 16, (qs.foldl EnableRequest.exec s adcEngineControlRegister).getLsbD i =
    (s adcEngineControlRegister).getLsbD i
  original : (∀ q ∈ qs, q.on = true) → ∀ t : Driver,
    t.regs engineControl = s adcEngineControlRegister →
      qs.foldl EnableRequest.exec s adcEngineControlRegister =
        ((qs.map fun q => ChannelOp.enable q.channel).foldl ChannelOp.exec t).regs
          engineControl

theorem each_drivesOwnBit_iff (s : RegFile) (qs : List EnableRequest) :
    Each EnableRequest.exec (fun s q => q.DrivesOwnBit s) s qs ↔
      ∀ q ∈ qs, q.Satisfied (s adcEngineControlRegister) := by
  induction qs generalizing s with
  | nil => simp
  | cons q qs ih =>
      rw [each_cons, List.forall_mem_cons, EnableRequest.drivesOwnBit_iff]
      refine and_congr_right fun hq => ?_
      rw [ih, EnableRequest.exec_engine_of_satisfied hq]

/-- A run of satisfied requests changes nothing. -/
theorem foldl_exec_of_satisfied {s : RegFile} {qs : List EnableRequest}
    (h : ∀ q ∈ qs, q.Satisfied (s adcEngineControlRegister)) :
    qs.foldl EnableRequest.exec s adcEngineControlRegister =
      s adcEngineControlRegister := by
  induction qs generalizing s with
  | nil => rfl
  | cons q qs ih =>
      have hq := EnableRequest.exec_engine_of_satisfied (h q (by simp))
      rw [List.foldl_cons, ih fun q' hq' => ?_, hq]
      rw [hq]
      exact h q' (by simp [hq'])

/-- Enabling channels whose bits are set changes nothing in the original. -/
theorem foldl_enable_of_set {t : Driver} {ns : List (Fin 16)}
    (h : ∀ n ∈ ns, (t.regs engineControl).getLsbD (16 + n) = true) :
    ((ns.map ChannelOp.enable).foldl ChannelOp.exec t).regs engineControl =
      t.regs engineControl := by
  induction ns generalizing t with
  | nil => rfl
  | cons n ns ih =>
      have hn : ((ChannelOp.enable n).exec t).regs engineControl =
          t.regs engineControl := by
        apply BitVec.eq_of_getLsbD_eq
        intro i hi
        rw [ChannelOp.exec_getLsbD _ t i hi, ChannelOp.stores]
        split
        · next hin => rw [hin, h n (by simp), Option.getD_some]
        · rfl
      rw [List.map_cons, List.foldl_cons, ih fun n' hn' => ?_, hn]
      rw [hn]
      exact h n' (by simp [hn'])

/-- **When the rewritten driver matches the register map**: on the runs whose
requests ask for nothing new. -/
theorem matchesRegisterMap_iff_satisfied (s : RegFile) (qs : List EnableRequest) :
    MatchesRegisterMap s qs ↔
      ∀ q ∈ qs, q.Satisfied (s adcEngineControlRegister) := by
  constructor
  · intro h
    exact (each_drivesOwnBit_iff s qs).mp h.ownBit
  · intro h
    refine ⟨(each_drivesOwnBit_iff s qs).mpr h, fun i _ => ?_, fun hon t ht => ?_⟩
    · rw [foldl_exec_of_satisfied h]
    · have hset : ∀ n ∈ qs.map EnableRequest.channel,
          (t.regs engineControl).getLsbD (16 + n) = true := by
        intro n hn
        obtain ⟨q, hq, rfl⟩ := List.mem_map.mp hn
        rw [ht, (h q hq).2, hon q hq]
      have henable := foldl_enable_of_set hset
      rw [List.map_map] at henable
      rw [foldl_exec_of_satisfied h, ← ht]
      exact henable.symm

/-- Enabling channel 0 in a cleared register sets `ENGINE_ENABLE`, bit 0, and
not bit 16. -/
theorem enable_channel_zero_sets_engine_bit :
    ¬ MatchesRegisterMap (fun _ => 0)
        [⟨⟨0, 0, 1, 0, 0, 0⟩, by decide, .inr rfl⟩] := by
  intro h
  exact absurd (h.engine 0 (by decide)) (by decide)

end BmcCodes.Adc.Tdd
