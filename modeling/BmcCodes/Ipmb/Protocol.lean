import BmcCodes.Ipmb.Programs

/-!
# One request on the bus

Two programs run the slave task with one register value, and the one with option `r` sends
one request: the system of `Programs.lean`, started as `exchange`.

As long as the register is not the read address `0x21`, with which replies begin, no reply
is answered, so one is made at most.  With register `0x21` every reply asks for the next
one.
-/

namespace BmcCodes.Ipmb.I2cRaw

open BmcCodes.Lib

theorem exchange_asks (sgReg : Byte) (n : Peer) :
    (exchange sgReg n).asks = decide (n = .first) := by
  cases n <;> rfl

/-- With register `0x21` the replies follow each other without end. -/
theorem exists_reachable_replies_eq (n : Nat) :
    ∃ s, ReachablePeers (exchange 0x21) s ∧
      s.parties.replies .first + s.parties.replies .second = n := by
  have hendless : Endless (exchange 0x21) := by
    refine ⟨fun n => ?_, .first, exchange_asks 0x21 .first⟩
    cases n <;> rfl
  obtain ⟨s, dest, bytes, hsteps, _, hreplies⟩ := exists_steps_of_endless hendless n
  exact ⟨_, hsteps.reachable, hreplies⟩

/-- **At most one reply is made**, in every run of the two programs, if and only if the
register value is not the read address. -/
theorem replies_le_one_iff_ne_readAddr (sgReg : Byte) :
    (∀ s, ReachablePeers (exchange sgReg) s →
      s.parties.replies .first + s.parties.replies .second ≤ 1) ↔ sgReg ≠ 0x21 := by
  constructor
  · rintro h rfl
    obtain ⟨s, hs, hreplies⟩ := exists_reachable_replies_eq 2
    have hle := h s hs
    omega
  · intro hne s hs
    have hends : ¬Endless (exchange sgReg) := fun h => hne (h.1 .first)
    -- only the second program is asked
    have hfirst := replies_le_of_reachable hends hs .first
    have hsecond := replies_le_of_reachable hends hs .second
    rw [exchange_asks] at hfirst hsecond
    exact Nat.add_le_add hfirst hsecond

/-- With register `0x21` the first reply is answered. -/
theorem reply_answered_at_readAddr :
    ¬ ∀ s, ReachablePeers (exchange 0x21) s →
      s.parties.replies .first + s.parties.replies .second ≤ 1 := by
  intro h
  obtain ⟨s, hs, hreplies⟩ := exists_reachable_replies_eq 2
  have hle := h s hs
  omega

end BmcCodes.Ipmb.I2cRaw
