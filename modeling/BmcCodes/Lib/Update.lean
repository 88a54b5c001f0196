import Mathlib.Data.List.Basic

/-!
# Read-modify-write updates of a register

A driver changes a few bits of a packed register by reading it, masking it and
writing it back with new bits or-ed in.  Whatever the mask and the bits, such a
step is `r ↦ (r &&& keep) ||| data`.  This file studies these updates as
objects of their own, at any width: on each bit of a register an update either
stores a bit or stores nothing (`storesBit`).

* `run_map_getLsbD` — updates whose order does not matter.
* `assignBit` — the update that assigns one bit and keeps all the others.
* `field` — what an update of a register does to a field of it.
* `foldl_sameKeep` — a run of updates that share one mask.
-/

namespace BmcCodes.Lib

variable {w : Nat}

/-- The step `r ↦ (r &&& keep) ||| data`. -/
structure Update (w : Nat) where
  /-- The bits that survive from the old content. -/
  keep : BitVec w
  /-- The bits that are or-ed in. -/
  data : BitVec w
  deriving DecidableEq, Repr

namespace Update

/-- The content of the register after the update. -/
def apply (u : Update w) (r : BitVec w) : BitVec w := (r &&& u.keep) ||| u.data

/-- The content after a run of updates, the head of the list first. -/
def run (us : List (Update w)) (r : BitVec w) : BitVec w :=
  us.foldl (fun r u => u.apply r) r

@[simp] theorem run_nil (r : BitVec w) : run [] r = r := rfl

@[simp] theorem run_cons (u : Update w) (us : List (Update w)) (r : BitVec w) :
    run (u :: us) r = run us (u.apply r) := rfl

/-- A register that every operation updates has been through a run of updates. -/
theorem foldl_eq_run {σ ι : Type*} (part : σ → BitVec w) (step : σ → ι → σ)
    (update : ι → Update w)
    (hstep : ∀ s op, part (step s op) = (update op).apply (part s)) (s : σ)
    (ops : List ι) : part (ops.foldl step s) = run (ops.map update) (part s) := by
  induction ops generalizing s with
  | nil => rfl
  | cons op ops ih => rw [List.foldl_cons, ih, hstep, List.map_cons, run_cons]

/-- Into the bits it keeps, an update only ors. -/
theorem apply_and_keep (u : Update w) (r : BitVec w) :
    u.apply r &&& u.keep = (r ||| u.data) &&& u.keep := by
  apply BitVec.eq_of_getLsbD_eq
  intro i _
  simp only [apply, BitVec.getLsbD_or, BitVec.getLsbD_and]
  cases r.getLsbD i <;> cases u.data.getLsbD i <;> cases u.keep.getLsbD i <;> rfl

/-- The bits it does not keep, an update replaces. -/
theorem apply_and_not_keep (u : Update w) (r : BitVec w) :
    u.apply r &&& ~~~u.keep = u.data &&& ~~~u.keep := by
  apply BitVec.eq_of_getLsbD_eq
  intro i hi
  simp only [apply, BitVec.getLsbD_or, BitVec.getLsbD_and, BitVec.getLsbD_not, hi]
  cases r.getLsbD i <;> cases u.data.getLsbD i <;> cases u.keep.getLsbD i <;> rfl

/-- What the update stores in bit `i`: an or-ed bit is set, a masked one is
cleared, and any other is left alone. -/
def storesBit (i : Nat) (u : Update w) : Option Bool :=
  if u.data.getLsbD i then some true
  else if u.keep.getLsbD i then none
  else some false

theorem apply_getLsbD (u : Update w) (r : BitVec w) (i : Nat) :
    (u.apply r).getLsbD i = (u.storesBit i).getD (r.getLsbD i) := by
  unfold apply storesBit
  rw [BitVec.getLsbD_or, BitVec.getLsbD_and]
  cases u.data.getLsbD i <;> cases u.keep.getLsbD i <;> simp

/-- The bits of `x` are among those of `r`. -/
theorem and_not_eq_zero_iff (x r : BitVec w) :
    x &&& ~~~r = 0 ↔ ∀ i < w, x.getLsbD i = true → r.getLsbD i = true := by
  constructor
  · intro h i hi hx
    have hzero : (x &&& ~~~r).getLsbD i = false := by rw [h]; simp
    rw [BitVec.getLsbD_and, BitVec.getLsbD_not, hx, decide_eq_true hi] at hzero
    simpa using hzero
  · intro h
    apply BitVec.eq_of_getLsbD_eq
    intro i hi
    rw [BitVec.getLsbD_and, BitVec.getLsbD_not, decide_eq_true hi]
    cases hx : x.getLsbD i with
    | false => simp
    | true => rw [h i hi hx]; simp

/-- Updates that agree on what bit `i` becomes, where they store it at all, can
come in any order: the bit gets that value if some update stores it. -/
theorem run_map_getLsbD {ι : Type*} (f : ι → Update w) (l : List ι) (r : BitVec w)
    (i : Nat) (b : Bool) (P : ι → Prop) [DecidablePred P]
    (h : ∀ x ∈ l, (f x).storesBit i = if P x then some b else none) :
    (run (l.map f) r).getLsbD i = if ∃ x ∈ l, P x then b else r.getLsbD i := by
  induction l generalizing r with
  | nil => simp
  | cons x l ih =>
      rw [List.map_cons, run_cons, ih ((f x).apply r) fun y hy => h y (by simp [hy]),
        apply_getLsbD, h x (by simp)]
      by_cases hx : P x <;> simp [hx]

/-! ## One bit -/

/-- The update that assigns bit `n` and keeps every other one. -/
def assignBit (n : Nat) (b : Bool) : Update w :=
  ⟨~~~(BitVec.twoPow w n), if b then BitVec.twoPow w n else 0#w⟩

theorem assignBit_storesBit (n : Nat) (b : Bool) (i : Nat) (hi : i < w) :
    (assignBit (w := w) n b).storesBit i = if n = i then some b else none := by
  unfold assignBit storesBit
  by_cases hni : n = i <;> cases b <;> simp [hni, hi, eq_comm (a := i)]

theorem assignBit_apply_getLsbD (n : Nat) (b : Bool) (r : BitVec w) (i : Nat)
    (hi : i < w) :
    ((assignBit n b).apply r).getLsbD i = if n = i then b else r.getLsbD i := by
  rw [apply_getLsbD, assignBit_storesBit n b i hi]
  split <;> rfl

/-- Assigning a bit the value it has changes nothing. -/
theorem assignBit_apply_eq_self_iff (n : Nat) (b : Bool) (r : BitVec w)
    (hn : n < w) : (assignBit n b).apply r = r ↔ r.getLsbD n = b := by
  constructor
  · intro h
    rw [← h, assignBit_apply_getLsbD n b r n hn, if_pos rfl]
  · intro h
    apply BitVec.eq_of_getLsbD_eq
    intro i hi
    rw [assignBit_apply_getLsbD n b r i hi]
    split
    · next hni => rw [← hni, h]
    · rfl

/-- Assigning one bit or another has the same outcome only if neither assignment
changes anything. -/
theorem assignBit_apply_eq_assignBit_apply_iff {m n : Nat} (hmn : m ≠ n)
    (hm : m < w) (hn : n < w) (b : Bool) (r : BitVec w) :
    (assignBit m b).apply r = (assignBit n b).apply r ↔
      r.getLsbD m = b ∧ r.getLsbD n = b := by
  constructor
  · intro h
    have hbit := fun i => congrArg (fun r => r.getLsbD i) h
    constructor
    · have hm' := hbit m
      rw [assignBit_apply_getLsbD m b r m hm, assignBit_apply_getLsbD n b r m hm,
        if_pos rfl, if_neg hmn.symm] at hm'
      exact hm'.symm
    · have hn' := hbit n
      rw [assignBit_apply_getLsbD m b r n hn, assignBit_apply_getLsbD n b r n hn,
        if_pos rfl, if_neg hmn] at hn'
      exact hn'
  · intro h
    obtain ⟨hrm, hrn⟩ := h
    rw [(assignBit_apply_eq_self_iff m b r hm).mpr hrm,
      (assignBit_apply_eq_self_iff n b r hn).mpr hrn]

/-! ## Fields -/

/-- What the update does to the field of `len` bits from `start` on. -/
def field (start len : Nat) (u : Update w) : Update len :=
  ⟨u.keep.extractLsb' start len, u.data.extractLsb' start len⟩

theorem extractLsb'_apply (u : Update w) (r : BitVec w) (start len : Nat) :
    (u.apply r).extractLsb' start len =
      (u.field start len).apply (r.extractLsb' start len) := by
  rw [apply, BitVec.extractLsb'_or, BitVec.extractLsb'_and]
  rfl

/-- An update that keeps nothing replaces the content. -/
@[simp] theorem apply_replace (d r : BitVec w) : (⟨0#w, d⟩ : Update w).apply r = d := by
  rw [apply, BitVec.and_zero, BitVec.zero_or]

/-- An update that keeps everything and ors nothing in does nothing. -/
@[simp] theorem apply_keep (r : BitVec w) :
    (⟨BitVec.allOnes w, 0#w⟩ : Update w).apply r = r := by
  rw [apply, BitVec.and_allOnes, BitVec.or_zero]

/-! ## Updates under one mask -/

/-- The union of the values `ds`: what updates that are followed by another
one under the same mask may leave behind. -/
def staleBits (ds : List (BitVec w)) : BitVec w := ds.foldr (· ||| ·) 0#w

/-- A run of updates under one mask: what survives of the initial content and
of the values written before the last one is what the mask keeps. -/
theorem run_sameKeep (keep : BitVec w) (ds : List (BitVec w)) (d r : BitVec w) :
    run ((ds ++ [d]).map (fun x => ⟨keep, x⟩)) r =
      ((r ||| staleBits ds) &&& keep) ||| d := by
  induction ds generalizing r with
  | nil => simp [apply, staleBits]
  | cons x xs ih =>
      simp only [List.cons_append, List.map_cons, run_cons, ih, apply, staleBits,
        List.foldr_cons]
      apply BitVec.eq_of_getLsbD_eq
      intro i _
      simp only [BitVec.getLsbD_or, BitVec.getLsbD_and]
      cases r.getLsbD i <;> cases x.getLsbD i <;> cases keep.getLsbD i <;> simp

/-- A register that every operation updates under one mask. -/
theorem foldl_sameKeep {σ ι : Type*} (part : σ → BitVec w) (step : σ → ι → σ)
    (keep : BitVec w) (data : ι → BitVec w)
    (hstep : ∀ s op, part (step s op) = (⟨keep, data op⟩ : Update w).apply (part s))
    (s : σ) (ops : List ι) (op : ι) :
    part ((ops ++ [op]).foldl step s) =
      ((part s ||| staleBits (ops.map data)) &&& keep) ||| data op := by
  rw [foldl_eq_run part step (fun op => ⟨keep, data op⟩) hstep, ← run_sameKeep,
    ← List.map_singleton, ← List.map_append, List.map_map]
  rfl

theorem staleBits_getLsbD (ds : List (BitVec w)) (i : Nat) :
    (staleBits ds).getLsbD i = ds.any fun d => d.getLsbD i := by
  induction ds with
  | nil => simp [staleBits]
  | cons d ds ih =>
      rw [List.any_cons, ← ih, ← BitVec.getLsbD_or]
      rfl

theorem staleBits_concat (ds : List (BitVec w)) (d : BitVec w) :
    staleBits (ds ++ [d]) = staleBits ds ||| d := by
  apply BitVec.eq_of_getLsbD_eq
  intro i _
  rw [BitVec.getLsbD_or, staleBits_getLsbD, staleBits_getLsbD, List.any_append]
  simp

end Update

end BmcCodes.Lib
