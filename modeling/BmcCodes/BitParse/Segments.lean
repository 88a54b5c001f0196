import BmcCodes.BitParse.Alignment
import BmcCodes.Lib.Numeral

/-!
# Parsing again

`parse` appends the segments of the value to a vector that it never clears, lowest
segment first, and prints the first ones, highest first.  The vector grows with every
call, but it consists of copies of one block, so all calls print the same, as far as they
are defined (`parse_repeatable_iff`).
-/

namespace BmcCodes.BitParse

open BmcCodes.Lib BmcCodes.Lib.Columns

/-! ## One segment -/

/-- A segment is a digit of the value in base 16. -/
theorem toNat_segOfVal (val : BitVec 64) (i : Nat) :
    ((segOfVal val i).setWidth 8).toNat = val.toNat / 16 ^ i % 16 := by
  have hmask : (0xf : BitVec 64).toNat = 2 ^ 4 - 1 := rfl
  have hshift : 2 ^ (i * segBitLen) = 16 ^ i := by
    rw [Nat.mul_comm, Nat.pow_mul]
    rfl
  rw [BitVec.toNat_setWidth, segOfVal, BitVec.toNat_and, BitVec.toNat_ushiftRight, hmask,
    Nat.and_two_pow_sub_one_eq_mod, Nat.shiftRight_eq_div_pow, hshift]
  omega

/-! ## Any number of calls -/

/-- `k` calls of `parse` on one object: what they leave, and what each has printed. -/
def parseTimes (flowOff : FlowOff) (p : Parser) : Nat → Option (Parser × List (List Char))
  | 0 => some (p, [])
  | k + 1 =>
      (parseTimes flowOff p k).bind fun (p, texts) =>
        (parse flowOff p).map fun (p, text) => (p, texts ++ [text])

theorem parseTimes_succ (flowOff : FlowOff) (p : Parser) (k : Nat) :
    parseTimes flowOff p (k + 1) =
      (parseTimes flowOff p k).bind fun (p, texts) =>
        (parse flowOff p).map fun (p, text) => (p, texts ++ [text]) := rfl

/-- If the first call is not defined, there is nothing after it. -/
theorem parseTimes_of_not_defined {flowOff : FlowOff} {p : Parser}
    (hundefined : ¬ (flowOff = .returns ∧ p.valBitLen ≤ 67)) (k : Nat) :
    parseTimes flowOff p (k + 1) = none := by
  induction k with
  | zero =>
      rw [parseTimes_succ, parseTimes, Option.bind_some]
      dsimp only
      rw [parse_eq, if_neg hundefined]
      rfl
  | succ k ih => rw [parseTimes_succ, ih, Option.bind_none]

section Calls

variable (val : BitVec 64) (valBitLen : Byte)

/-- The object after `k` calls: the vector holds `k` copies of the segments. -/
def pushed (k : Nat) : Parser where
  val := val
  segment := (List.range (k * (valBitLen.toNat / segBitLen))).map fun i =>
    (segOfVal val (i % (valBitLen.toNat / segBitLen))).setWidth 8
  valBitLen := valBitLen.toNat

theorem pushed_zero : pushed val valBitLen 0 = bitParse val valBitLen := by
  simp [pushed, bitParse]

/-- One more copy. -/
theorem pushSegments_pushed (k : Nat) :
    pushSegments (pushed val valBitLen k) = pushed val valBitLen (k + 1) := by
  rw [pushSegments, pushed, pushed, Nat.succ_mul, List.range_add, List.map_append, List.map_map]
  have hblock : ∀ i ∈ List.range (valBitLen.toNat / segBitLen),
      (k * (valBitLen.toNat / segBitLen) + i) % (valBitLen.toNat / segBitLen) = i := by
    intro i hi
    rw [Nat.mul_comm, Nat.mul_add_mod, Nat.mod_eq_of_lt (List.mem_range.mp hi)]
  congr 2
  apply List.map_congr_left
  intro i hi
  simp only [Function.comp_apply, hblock i hi]

/-- What a call prints depends on the first copy only. -/
theorem printLines_pushed (k : Nat) :
    printLines (pushed val valBitLen (k + 1)) = table val valBitLen := by
  rw [table_eq_segments, ← pushSegments_pushed, printLines_pushSegments]
  · rfl
  · intro i hi
    have hi' : i < valBitLen.toNat / segBitLen := hi
    have hlt : i < (k + 1) * (valBitLen.toNat / segBitLen) := by
      rw [Nat.succ_mul]
      exact Nat.lt_add_left _ hi'
    rw [pushSegments_pushed, pushed, List.getD_eq_getElem?_getD, List.getElem?_map,
      List.getElem?_range hlt, Option.map_some, Option.getD_some, Nat.mod_eq_of_lt hi']
    rfl

/-- **Any number of defined calls.** -/
theorem parseTimes_eq (hshort : valBitLen.toNat ≤ 67) (k : Nat) :
    parseTimes .returns (bitParse val valBitLen) k =
      some (pushed val valBitLen k, List.replicate k (table val valBitLen)) := by
  induction k with
  | zero => rw [parseTimes, pushed_zero, List.replicate_zero]
  | succ k ih =>
      have hdefined : (pushed val valBitLen k).valBitLen ≤ 67 := hshort
      rw [parseTimes_succ, ih, Option.bind_some]
      dsimp only
      rw [parse_eq, if_pos ⟨rfl, hdefined⟩, pushSegments_pushed, printLines_pushed,
        List.replicate_succ']
      rfl

/-- The digits of the value line are the bits of the remainder. -/
theorem valueLine_digits :
    (columns (valueLine (table val valBitLen))).map (fun c => number c.2) =
      (countdown (4 * (valBitLen.toNat / 4))).map fun i =>
        ((val.toNat % 16 ^ (valBitLen.toNat / 4)).testBit i).toNat := by
  rw [valueLine_table, columns_line rfl]
  refine (map_number_words_row 4 1 2 (fun i => (val.getLsbD i).toNat) (by decide) _).trans ?_
  apply List.map_congr_left
  intro i hi
  have hi' := mem_countdown.mp hi
  have hpow : 16 ^ (valBitLen.toNat / 4) = 2 ^ (segBitLen * (valBitLen.toNat / segBitLen)) :=
    (Nat.pow_mul 2 4 _).symm
  rw [hpow, Nat.testBit_mod_two_pow, decide_eq_true hi', Bool.true_and, BitVec.testBit_toNat]

end Calls

/-- What `k` calls leave and print, where `n` is the number of whole segments: the vector
holds `k` copies of the base-16 digits of the value, lowest first, which recompose to the
value modulo `16 ^ n`, and every call has printed the binary digits of that number, and
the same text as any other call. -/
structure Repeats (val : BitVec 64) (n k : Nat) (p : Parser) (texts : List (List Char)) :
    Prop where
  length : p.segment.length = k * n
  small : ∀ s ∈ p.segment, s.toNat < 16
  nibbles : ∀ i < k * n, (p.segment.getD i 0).toNat = val.toNat / 16 ^ (i % n) % 16
  recompose : ((List.range n).map fun i => (p.segment.getD i 0).toNat * 16 ^ i).sum =
    val.toNat % 16 ^ n
  calls : texts.length = k
  digits : ∀ text ∈ texts, (columns (valueLine text)).map (fun c => number c.2) =
    (countdown (4 * n)).map fun i => ((val.toNat % 16 ^ n).testBit i).toNat
  same : ∀ text ∈ texts, ∀ text' ∈ texts, text = text'

theorem pushed_repeats (val : BitVec 64) (valBitLen : Byte) (k : Nat) :
    Repeats val (valBitLen.toNat / 4) (k + 1) (pushed val valBitLen (k + 1))
      (List.replicate (k + 1) (table val valBitLen)) := by
  have hnibble : ∀ i < (k + 1) * (valBitLen.toNat / 4),
      ((pushed val valBitLen (k + 1)).segment.getD i 0).toNat =
        val.toNat / 16 ^ (i % (valBitLen.toNat / 4)) % 16 := by
    intro i hi
    rw [pushed, segBitLen, List.getD_eq_getElem?_getD, List.getElem?_map,
      List.getElem?_range hi, Option.map_some, Option.getD_some, toNat_segOfVal]
  have htext : ∀ text ∈ List.replicate (k + 1) (table val valBitLen),
      text = table val valBitLen := fun _ => List.eq_of_mem_replicate
  constructor
  case length => rw [pushed, List.length_map, List.length_range, segBitLen]
  case small =>
    intro s hs
    obtain ⟨i, _, rfl⟩ := List.mem_map.mp hs
    rw [toNat_segOfVal]
    exact Nat.mod_lt _ (by decide)
  case nibbles => exact hnibble
  case recompose =>
    rw [← Numeral.sum_digits]
    refine congrArg List.sum (List.map_congr_left fun i hi => ?_)
    have hi' := List.mem_range.mp hi
    have hlt : i < (k + 1) * (valBitLen.toNat / 4) := by
      rw [Nat.succ_mul]
      omega
    rw [hnibble i hlt, Nat.mod_eq_of_lt hi']
  case calls => exact List.length_replicate
  case digits =>
    intro text htext'
    rw [htext text htext']
    exact valueLine_digits val valBitLen
  case same =>
    intro text h text' h'
    rw [htext text h, htext text' h']

/-- **When calls repeat each other.**  One or more calls of `parse` on one object leave and
print what they should if and only if they are defined: the function that cuts the value
up returns, and the length keeps the shift counts below 64. -/
theorem parse_repeatable_iff (flowOff : FlowOff) (val : BitVec 64) (valBitLen : Byte)
    (k : Nat) :
    (∃ result ∈ parseTimes flowOff (bitParse val valBitLen) (k + 1),
        Repeats val (valBitLen.toNat / 4) (k + 1) result.1 result.2) ↔
      flowOff = .returns ∧ valBitLen.toNat ≤ 67 := by
  by_cases hdefined : flowOff = .returns ∧ valBitLen.toNat ≤ 67
  · refine iff_of_true ?_ hdefined
    obtain ⟨rfl, hshort⟩ := hdefined
    exact ⟨_, parseTimes_eq val valBitLen hshort (k + 1), pushed_repeats val valBitLen k⟩
  · refine iff_of_false ?_ hdefined
    have hnone : parseTimes flowOff (bitParse val valBitLen) (k + 1) = none :=
      parseTimes_of_not_defined hdefined k
    simp [hnone]

/-- Where the function does not return, not even one call prints. -/
theorem parse_not_repeatable_undefined :
    ¬ ∃ result ∈ parseTimes .undefined (bitParse 0xA5 8) 1, Repeats 0xA5 2 1 result.1 result.2 := by
  intro h
  obtain ⟨result, hresult, _⟩ := h
  exact Option.not_mem_none result hresult

end BmcCodes.BitParse
