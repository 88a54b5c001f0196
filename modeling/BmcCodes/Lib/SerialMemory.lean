import BmcCodes.Lib.BigEndian
import BmcCodes.Lib.Machine
import Mathlib.Logic.Function.Basic

/-!
# Memory chips on a serial bus

A master and some chips share a bus.  The master claims it for one chip and one
direction, hands over bytes or asks for them, and releases the bus.  A memory chip
takes the first bytes it is handed as an address and stores the further ones from
there on; asked for bytes, it returns what it holds from there on.  Either way it
goes on at its first cell after the last one.

`width` says which chips there are, and how many address bytes each of them takes.

* `run_write`, `run_read` — what the signals of a transfer do to the chip addressed.
* `read_of_write`, `write_of_not_covers` — the chips as memories: what was written is read
  back, and a write leaves alone what it does not cover.
-/

namespace BmcCodes.Lib.SerialMemory

open Machine

variable {ι : Type*} [DecidableEq ι]

/-! ## Cells -/

section Cells

variable (size : Nat) (cells : Nat → BitVec 8)

/-- The `n` cells from `x` on. -/
def load (x n : Nat) : List (BitVec 8) := (List.range n).map fun i => cells ((x + i) % size)

/-- The cells after the bytes have been stored from `x` on. -/
def store (cells : Nat → BitVec 8) (x : Nat) : List (BitVec 8) → Nat → BitVec 8
  | [] => cells
  | b :: bs => store (Function.update cells x b) ((x + 1) % size) bs

theorem length_load (x n : Nat) : (load size cells x n).length = n := by
  rw [load, List.length_map, List.length_range]

theorem load_succ {x : Nat} (hx : x < size) (n : Nat) :
    load size cells x (n + 1) = cells x :: load size cells ((x + 1) % size) n := by
  rw [load, List.range_succ_eq_map, List.map_cons, List.map_map, Nat.add_zero,
    Nat.mod_eq_of_lt hx, load]
  refine congrArg (cells x :: ·) (List.map_congr_left fun i _ => ?_)
  rw [Function.comp_apply, Nat.mod_add_mod, Nat.succ_eq_add_one, Nat.add_right_comm,
    Nat.add_assoc]

/-- A cell that no byte reaches is left alone. -/
theorem store_of_forall_ne (x y : Nat) (bs : List (BitVec 8)) (hx : x < size)
    (h : ∀ i < bs.length, (x + i) % size ≠ y) : store size cells x bs y = cells y := by
  induction bs generalizing x cells with
  | nil => rfl
  | cons b bs ih =>
      have hhere : y ≠ x := by
        have h0 := h 0 (Nat.succ_pos _)
        rw [Nat.add_zero, Nat.mod_eq_of_lt hx] at h0
        exact h0.symm
      rw [store, ih _ _ (Nat.mod_lt _ (by omega)), Function.update_of_ne hhere]
      intro i hi
      have hsucc := h (i + 1) (Nat.succ_lt_succ hi)
      rwa [Nat.mod_add_mod, Nat.add_assoc, Nat.add_comm 1 i]

/-- **What was stored is loaded**, if it fits the chip. -/
theorem load_store (x : Nat) (bs : List (BitVec 8)) (hx : x < size)
    (hfits : bs.length ≤ size) : load size (store size cells x bs) x bs.length = bs := by
  induction bs generalizing x cells with
  | nil => rfl
  | cons b bs ih =>
      have hlength : bs.length < size := hfits
      have hhere : store size cells x (b :: bs) x = b := by
        rw [store, store_of_forall_ne _ _ _ _ _ (Nat.mod_lt _ (by omega)),
          Function.update_self]
        -- the bytes after the first would have to go all the way round
        intro i hi hback
        rw [Nat.mod_add_mod] at hback
        rcases Nat.lt_or_ge (x + 1 + i) size with hlt | hge
        · rw [Nat.mod_eq_of_lt hlt] at hback
          omega
        · rw [Nat.mod_eq_sub_mod hge, Nat.mod_eq_of_lt (by omega)] at hback
          omega
      rw [List.length_cons, load_succ _ _ hx, hhere]
      exact congrArg (b :: ·) (ih _ _ (Nat.mod_lt _ (by omega)) (by omega))

end Cells

/-! ## The bus -/

/-- What a master signals. -/
inductive Signal (ι : Type*) where
  /-- Claim the bus for a chip, to hand over bytes or to ask for them. -/
  | start (chip : ι) (read : Bool)
  | put (b : BitVec 8)
  | get
  | stop
  deriving DecidableEq, Repr

/-- What it finds in answer. -/
inductive Answer where
  | ack
  | nak
  | data (b : BitVec 8)
  | silent
  deriving DecidableEq, Repr

/-- What the chip that was addressed last is doing. -/
inductive Phase (ι : Type*) where
  | idle
  /-- It takes bytes, of which the next `missing` ones belong to an address. -/
  | taking (chip : ι) (missing : Nat)
  | giving (chip : ι)
  deriving DecidableEq, Repr

structure Bus (ι : Type*) where
  phase : Phase ι
  /-- The cell of each chip that is next. -/
  pointer : ι → Nat
  cells : ι → Nat → BitVec 8

variable (width : ι → Option Nat)

/-- The number of cells of a chip. -/
def size (chip : ι) : Nat := 256 ^ (width chip).getD 0

omit [DecidableEq ι] in
theorem size_pos (chip : ι) : 0 < size width chip := Nat.pow_pos (by decide)

/-- The bus after the chip has gone on to its next cell. -/
def Bus.advance (b : Bus ι) (chip : ι) : Bus ι :=
  { b with
    pointer := Function.update b.pointer chip ((b.pointer chip + 1) % size width chip) }

/-- The bus after the chip has stored a byte in its next cell. -/
def Bus.keep (b : Bus ι) (chip : ι) (x : BitVec 8) : Bus ι :=
  { b.advance width chip with
    cells := Function.update b.cells chip
      (Function.update (b.cells chip) (b.pointer chip) x) }

def step (b : Bus ι) : Signal ι → Answer × Bus ι
  | .start chip read =>
      match width chip with
      | none => (.nak, { b with phase := .idle })
      | some n =>
          if read then (.ack, { b with phase := .giving chip })
          else (.ack, { b with
            phase := .taking chip n
            pointer := Function.update b.pointer chip 0 })
  | .put x =>
      match b.phase with
      | .taking chip (n + 1) => (.ack, { b with
          phase := .taking chip n
          pointer := Function.update b.pointer chip (b.pointer chip * 256 + x.toNat) })
      | .taking chip 0 => (.ack, b.keep width chip x)
      | _ => (.nak, b)
  | .get =>
      match b.phase with
      | .giving chip => (.data (b.cells chip (b.pointer chip)), b.advance width chip)
      -- nobody drives the bus
      | _ => (.data 0xFF, b)
  | .stop => (.silent, { b with phase := .idle })

/-! ## Transfers -/

section Transfers

variable {width} {chip : ι}

/-- The address bytes make up the pointer. -/
theorem run_address (b : Bus ι) (x : Nat) (bs : List (BitVec 8))
    (hphase : b.phase = .taking chip bs.length) (hpointer : b.pointer chip = x) :
    run (step width) b (bs.map .put) =
      (List.replicate bs.length .ack, { b with
        phase := .taking chip 0
        pointer := Function.update b.pointer chip
          (x * 256 ^ bs.length + BigEndian.value bs) }) := by
  obtain ⟨phase, pointer, cells⟩ := b
  subst hpointer
  induction bs generalizing phase pointer with
  | nil =>
      obtain rfl : phase = .taking chip 0 := hphase
      simp
  | cons y bs ih =>
      obtain rfl : phase = .taking chip (bs.length + 1) := hphase
      have hvalue : (pointer chip * 256 + y.toNat) * 256 ^ bs.length + BigEndian.value bs =
          pointer chip * 256 ^ (bs.length + 1) + BigEndian.value (y :: bs) := by
        rw [BigEndian.value_cons]
        ring
      rw [List.map_cons, run_cons]
      simp only [step]
      rw [ih _ _ rfl]
      simp only [Function.update_self, Function.update_idem, hvalue]
      rfl

variable (width) in
/-- The bytes after the address are stored. -/
theorem run_store (b : Bus ι) (bs : List (BitVec 8)) (hphase : b.phase = .taking chip 0) :
    (run (step width) b (bs.map .put)).1 = List.replicate bs.length .ack ∧
      (run (step width) b (bs.map .put)).2.cells = Function.update b.cells chip
        (store (size width chip) (b.cells chip) (b.pointer chip) bs) := by
  induction bs generalizing b with
  | nil => exact ⟨rfl, (Function.update_eq_self ..).symm⟩
  | cons y bs ih =>
      have hstep : step width b (.put y) = (.ack, b.keep width chip y) := by
        rw [step, hphase]
      obtain ⟨hanswers, hcells⟩ := ih (b.keep width chip y) hphase
      rw [List.map_cons, run_cons, hstep, hanswers, hcells]
      simp only [Bus.keep, Bus.advance, Function.update_self, Function.update_idem, store]
      exact ⟨rfl, trivial⟩

variable (width) in
/-- The bytes asked for are loaded. -/
theorem run_load (b : Bus ι) (n : Nat) (hphase : b.phase = .giving chip)
    (hpointer : b.pointer chip < size width chip) :
    (run (step width) b (List.replicate n .get)).1 =
        (load (size width chip) (b.cells chip) (b.pointer chip) n).map .data ∧
      (run (step width) b (List.replicate n .get)).2.cells = b.cells := by
  induction n generalizing b with
  | zero => exact ⟨rfl, rfl⟩
  | succ n ih =>
      have hstep : step width b .get =
          (.data (b.cells chip (b.pointer chip)), b.advance width chip) := by
        rw [step, hphase]
      have hnext : (b.advance width chip).pointer chip =
          (b.pointer chip + 1) % size width chip := Function.update_self ..
      obtain ⟨hanswers, hcells⟩ := ih (b.advance width chip) hphase
        (hnext ▸ Nat.mod_lt _ (size_pos width chip))
      rw [List.replicate_succ, run_cons, hstep, hanswers, hcells, hnext, load_succ _ _ hpointer]
      exact ⟨rfl, rfl⟩

/-- The bus after `chip` has been addressed with the bytes `address`. -/
def Bus.pointed (b : Bus ι) (chip : ι) (address : List (BitVec 8)) : Bus ι :=
  { b with
    phase := .taking chip 0
    pointer := Function.update b.pointer chip (BigEndian.value address) }

/-- A chip that is there acknowledges its address. -/
theorem run_start_address (b : Bus ι) (address : List (BitVec 8))
    (hchip : width chip = some address.length) :
    run (step width) b (.start chip false :: address.map .put) =
      (List.replicate (address.length + 1) .ack, b.pointed chip address) := by
  have hstep : step width b (.start chip false) = (.ack, { b with
      phase := .taking chip address.length
      pointer := Function.update b.pointer chip 0 }) := by
    simp only [step, hchip]
    rfl
  rw [run_cons, hstep, run_address _ 0 address rfl (Function.update_self ..), Bus.pointed]
  simp only [Function.update_idem, Nat.zero_mul, Nat.zero_add]
  rfl

/-- **A transfer that hands over an address and data** is acknowledged throughout, and
stores the data at the address. -/
theorem run_write (b : Bus ι) (address data : List (BitVec 8))
    (hchip : width chip = some address.length) :
    (run (step width) b (.start chip false :: (address ++ data).map .put)).1 =
        List.replicate (address.length + 1 + data.length) .ack ∧
      (run (step width) b (.start chip false :: (address ++ data).map .put)).2.cells =
        Function.update b.cells chip
          (store (size width chip) (b.cells chip) (BigEndian.value address) data) := by
  obtain ⟨hanswers, hcells⟩ := run_store width (b.pointed chip address) data rfl
  rw [List.map_append, ← List.cons_append, run_append, run_start_address b address hchip,
    hanswers, hcells, List.replicate_append_replicate]
  simp only [Bus.pointed, Function.update_self, and_self]

/-- **A transfer that hands over an address and asks for data** after a second start
returns the data at the address. -/
theorem run_read (b : Bus ι) (address : List (BitVec 8)) (n : Nat)
    (hchip : width chip = some address.length) :
    (run (step width) b (.start chip false ::
        (address.map .put ++ .start chip true :: List.replicate n .get))).1 =
        List.replicate (address.length + 2) .ack ++
          (load (size width chip) (b.cells chip) (BigEndian.value address) n).map .data ∧
      (run (step width) b (.start chip false ::
        (address.map .put ++ .start chip true :: List.replicate n .get))).2.cells =
        b.cells := by
  have hstep : step width (b.pointed chip address) (.start chip true) =
      (.ack, { b.pointed chip address with phase := .giving chip }) := by
    simp only [step, hchip]
    rfl
  have hpointer : (b.pointed chip address).pointer chip = BigEndian.value address :=
    Function.update_self ..
  have hbound : BigEndian.value address < size width chip := by
    rw [size, hchip]
    exact BigEndian.value_lt address
  obtain ⟨hanswers, hcells⟩ := run_load width
    { b.pointed chip address with phase := .giving chip } n rfl (hpointer ▸ hbound)
  rw [← List.cons_append, run_append, run_start_address b address hchip, run_cons, hstep,
    hanswers, hcells, hpointer]
  simp only [Bus.pointed, List.replicate_succ' (n := address.length + 1), List.append_assoc]
  exact ⟨rfl, trivial⟩

end Transfers

/-! ## The chips as memories -/

section Chips

variable (cells : ι → Nat → BitVec 8)

/-- `n` bytes of a chip from `x` on, if it is there. -/
def read (chip : ι) (x n : Nat) : Option (List (BitVec 8)) :=
  (width chip).map fun _ => load (size width chip) (cells chip) (x % size width chip) n

/-- The cells after bytes have been written to a chip from `x` on, if it is there. -/
def write (chip : ι) (x : Nat) (bs : List (BitVec 8)) : Option (ι → Nat → BitVec 8) :=
  (width chip).map fun _ => Function.update cells chip
    (store (size width chip) (cells chip) (x % size width chip) bs)

variable {width cells} {chip : ι} {x : Nat} {bs : List (BitVec 8)} {cells' : ι → Nat → BitVec 8}

/-- **What was written is read back.** -/
theorem read_of_write (h : write width cells chip x bs = some cells')
    (hfits : bs.length ≤ size width chip) : read width cells' chip x bs.length = some bs := by
  obtain ⟨n, hn, rfl⟩ := Option.map_eq_some_iff.mp h
  rw [read, hn, Option.map_some, Function.update_self,
    load_store _ _ _ _ (Nat.mod_lt _ (size_pos width chip)) hfits]

/-- The cells that `n` bytes from `x` on of a chip occupy. -/
def Covers (width : ι → Option Nat) (chip : ι) (x n y : Nat) : Prop :=
  ∃ i < n, (x + i) % size width chip = y

/-- A write leaves alone what it does not cover. -/
theorem write_of_not_covers (h : write width cells chip x bs = some cells') (chip' : ι) (y : Nat)
    (hy : chip' = chip → ¬Covers width chip x bs.length y) : cells' chip' y = cells chip' y := by
  obtain ⟨n, hn, rfl⟩ := Option.map_eq_some_iff.mp h
  by_cases hchip : chip' = chip
  · subst hchip
    rw [Function.update_self]
    refine store_of_forall_ne _ _ _ _ _ (Nat.mod_lt _ (size_pos width chip')) fun i hi hback => ?_
    rw [Nat.mod_add_mod] at hback
    exact hy rfl ⟨i, hi, hback⟩
  · rw [Function.update_of_ne hchip]

omit [DecidableEq ι] in
/-- What is read depends on the cells it covers. -/
theorem read_congr {cells' : ι → Nat → BitVec 8} (chip : ι) (x n : Nat)
    (h : ∀ y, Covers width chip x n y → cells' chip y = cells chip y) :
    read width cells' chip x n = read width cells chip x n := by
  refine congrArg (Option.map · (width chip)) (funext fun _ => ?_)
  refine List.map_congr_left fun i hi => h _ ⟨i, List.mem_range.mp hi, ?_⟩
  rw [Nat.mod_add_mod]

end Chips

end BmcCodes.Lib.SerialMemory
