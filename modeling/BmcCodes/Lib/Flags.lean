import Mathlib.Data.List.Basic

/-!
# Flags and fields of a word

A word holds several fields, each of which is read through a mask.  Or-ing bits in and
clearing them leaves the fields alone that share no bit with them.  What the content of a field
stands for is looked up in a table (`lookup_of_mem`).
-/

namespace BmcCodes.Lib.Flags

variable {w : Nat} {r d m : BitVec w}

/-- Bits or-ed in outside a field do not change it. -/
theorem or_and_of_and_eq_zero (hd : d &&& m = 0#w) : (r ||| d) &&& m = r &&& m := by
  rw [BitVec.and_or_distrib_right, hd, BitVec.or_zero]

/-- Bits cleared outside a field do not change it. -/
theorem and_not_and_of_and_eq_zero (hd : d &&& m = 0#w) : r &&& ~~~d &&& m = r &&& m := by
  apply BitVec.eq_of_getLsbD_eq
  intro i hi
  have hbit : (d &&& m).getLsbD i = false := by rw [hd, BitVec.getLsbD_zero]
  rw [BitVec.getLsbD_and] at hbit
  rw [BitVec.getLsbD_and, BitVec.getLsbD_and, BitVec.getLsbD_and, BitVec.getLsbD_not,
    decide_eq_true hi, Bool.true_and]
  cases hm : m.getLsbD i with
  | false => rw [Bool.and_false, Bool.and_false]
  | true =>
      rw [hm, Bool.and_true] at hbit
      rw [hbit, Bool.not_false, Bool.and_true]

/-- A field that is clear holds the value or-ed into it. -/
theorem or_and_of_clear (hr : r &&& m = 0#w) (hd : d &&& m = d) :
    (r ||| d) &&& m = d := by
  rw [BitVec.and_or_distrib_right, hr, hd, BitVec.zero_or]

/-- A field that is cleared is clear. -/
theorem and_not_and_self : r &&& ~~~m &&& m = 0#w := by
  rw [BitVec.and_assoc, BitVec.not_and_self]
  exact BitVec.and_zero

/-- A flag that is or-ed in is set. -/
theorem or_and_self : (r ||| m) &&& m = m := by
  rw [BitVec.and_or_distrib_right, BitVec.and_self]
  apply BitVec.eq_of_getLsbD_eq
  intro i _
  rw [BitVec.getLsbD_or, BitVec.getLsbD_and]
  cases m.getLsbD i <;> simp

/-- A table whose codes differ gives the meaning of each of its codes. -/
theorem lookup_of_mem {γ α : Type*} [DecidableEq γ] {table : List (γ × α)} {code : γ} {a : α}
    (hcodes : (table.map Prod.fst).Nodup) (hmem : (code, a) ∈ table) :
    table.lookup code = some a := by
  induction table with
  | nil => simp at hmem
  | cons entry table ih =>
      obtain ⟨c, b⟩ := entry
      rw [List.map_cons, List.nodup_cons] at hcodes
      rw [List.lookup_cons]
      rcases List.mem_cons.mp hmem with hhead | htail
      · obtain ⟨rfl, rfl⟩ := Prod.mk.inj hhead
        simp
      · have hne : code ≠ c := by
          intro h
          rw [← h] at hcodes
          exact hcodes.1 (List.mem_map.mpr ⟨(code, a), htail, rfl⟩)
        rw [beq_false_of_ne hne]
        exact ih hcodes.2 htail

end BmcCodes.Lib.Flags
