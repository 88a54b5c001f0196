import Mathlib.Algebra.BigOperators.Group.List.Basic
import Mathlib.Algebra.GroupWithZero.Nat
import Mathlib.Logic.Relation

/-!
# Messages in flight

Parties that communicate by messages only.  A step is an action that a party
takes by itself, or the delivery of one message in flight; either may change the
state of the parties and send new messages.  Messages are delivered once, at any
time and in any order.

A potential charges each message in flight a fixed weight.  One that every step
decreases bounds how long a run can go on (`potential_add_le_of_steps`), and one that
keeps up with what the parties owe is settled when nothing is in flight
(`potential_eq_of_reachable`).
-/

namespace BmcCodes.Lib.Network

variable {σ μ : Type*}

structure State (σ μ : Type*) where
  parties : σ
  inFlight : List μ

/-- `act s s' out`: some party moves the state from `s` to `s'` and sends `out`.
`handle m s s' out`: so does the receiver of the message `m`. -/
inductive Step (act : σ → σ → List μ → Prop) (handle : μ → σ → σ → List μ → Prop) :
    State σ μ → State σ μ → Prop where
  | act {s s' : σ} {out : List μ} (msgs : List μ) (h : act s s' out) :
      Step act handle ⟨s, msgs⟩ ⟨s', msgs ++ out⟩
  | deliver {s s' : σ} {m : μ} {out : List μ} (pre post : List μ)
      (h : handle m s s' out) :
      Step act handle ⟨s, pre ++ m :: post⟩ ⟨s', pre ++ post ++ out⟩

variable (act : σ → σ → List μ → Prop) (handle : μ → σ → σ → List μ → Prop)

/-- The states of the runs that start in `s`. -/
def Reachable (s : State σ μ) : State σ μ → Prop :=
  Relation.ReflTransGen (Step act handle) s

/-- What the parties and the messages in flight can still do. -/
def potential (φ : σ → Nat) (weight : μ → Nat) (s : State σ μ) : Nat :=
  φ s.parties + (s.inFlight.map weight).sum

variable {act handle}

/-- What the parties keep by themselves and when they handle messages, holds throughout. -/
theorem parties_of_reachable {P : σ → Prop} (hact : ∀ s s' out, act s s' out → P s → P s')
    (hhandle : ∀ m s s' out, handle m s s' out → P s → P s') {s t : State σ μ}
    (hs : P s.parties) (h : Reachable act handle s t) : P t.parties := by
  induction h with
  | refl => exact hs
  | tail _ hstep ih =>
      cases hstep with
      | act msgs h => exact hact _ _ _ h ih
      | deliver pre post h => exact hhandle _ _ _ _ h ih

/-! ## Messages of a kind -/

/-- Every message in flight is of a kind that sending and handling keep to. -/
theorem inFlight_of_reachable {P : μ → Prop}
    (hact : ∀ s s' out, act s s' out → ∀ m ∈ out, P m)
    (hhandle : ∀ m s s' out, P m → handle m s s' out → ∀ m' ∈ out, P m')
    {s t : State σ μ} (hs : ∀ m ∈ s.inFlight, P m) (h : Reachable act handle s t) :
    ∀ m ∈ t.inFlight, P m := by
  induction h with
  | refl => exact hs
  | tail _ hstep ih =>
      cases hstep with
      | act msgs h => exact List.forall_mem_append.mpr ⟨ih, hact _ _ _ h⟩
      | deliver pre post h =>
          rw [List.forall_mem_append, List.forall_mem_cons] at ih
          obtain ⟨hpre, hm, hpost⟩ := ih
          exact List.forall_mem_append.mpr
            ⟨List.forall_mem_append.mpr ⟨hpre, hpost⟩, hhandle _ _ _ _ hm h⟩

section Kinds

variable {P : μ → Prop} {φ ψ : σ → Nat} {weight : μ → Nat}
  (hactKind : ∀ s s' out, act s s' out → ∀ m ∈ out, P m)
  (hhandleKind : ∀ m s s' out, P m → handle m s s' out → ∀ m' ∈ out, P m')

include hactKind hhandleKind

/-- **Balances are kept**: what has been done and what is in flight make up what is
owed, if every step pays for what it changes. -/
theorem potential_eq_of_reachable
    (hact : ∀ s s' out, act s s' out → φ s' + (out.map weight).sum + ψ s = φ s + ψ s')
    (hhandle : ∀ m s s' out, P m → handle m s s' out →
      φ s' + (out.map weight).sum + ψ s = φ s + weight m + ψ s')
    {s t : State σ μ} (hs : ∀ m ∈ s.inFlight, P m)
    (hbalance : potential φ weight s = ψ s.parties) (h : Reachable act handle s t) :
    potential φ weight t = ψ t.parties := by
  induction h with
  | refl => exact hbalance
  | tail hrun hstep ih =>
      have hkind := inFlight_of_reachable hactKind hhandleKind hs hrun
      cases hstep with
      | act msgs h =>
          have := hact _ _ _ h
          simp only [potential, List.map_append, List.sum_append] at ih ⊢
          omega
      | deliver pre post h =>
          have := hhandle _ _ _ _ (hkind _ (by simp)) h
          simp only [potential, List.map_append, List.map_cons, List.sum_append,
            List.sum_cons] at ih ⊢
          omega

omit hactKind hhandleKind

variable (act handle) in
/-- The states that runs of `n` steps end in. -/
inductive Steps (s : State σ μ) : Nat → State σ μ → Prop where
  | refl : Steps s 0 s
  | tail {n : Nat} {t u : State σ μ} (h : Steps s n t) (hstep : Step act handle t u) :
      Steps s (n + 1) u

theorem Steps.reachable {s t : State σ μ} {n : Nat} (h : Steps act handle s n t) :
    Reachable act handle s t := by
  induction h with
  | refl => exact .refl
  | tail _ hstep ih => exact ih.tail hstep

include hactKind hhandleKind

/-- **Decreasing potentials end runs.** -/
theorem potential_add_le_of_steps
    (hact : ∀ s s' out, act s s' out → φ s' + (out.map weight).sum + 1 ≤ φ s)
    (hhandle : ∀ m s s' out, P m → handle m s s' out →
      φ s' + (out.map weight).sum + 1 ≤ φ s + weight m)
    {s t : State σ μ} {n : Nat} (hs : ∀ m ∈ s.inFlight, P m) (h : Steps act handle s n t) :
    potential φ weight t + n ≤ potential φ weight s := by
  induction h with
  | refl => exact Nat.le_refl _
  | tail hrun hstep ih =>
      have hkind := inFlight_of_reachable hactKind hhandleKind hs hrun.reachable
      cases hstep with
      | act msgs h =>
          have := hact _ _ _ h
          simp only [potential, List.map_append, List.sum_append] at ih ⊢
          omega
      | deliver pre post h =>
          have := hhandle _ _ _ _ (hkind _ (by simp)) h
          simp only [potential, List.map_append, List.map_cons, List.sum_append,
            List.sum_cons] at ih ⊢
          omega

end Kinds

end BmcCodes.Lib.Network
