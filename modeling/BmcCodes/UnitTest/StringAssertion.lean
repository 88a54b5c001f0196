import BmcCodes.Lib.CString
import BmcCodes.UnitTest.Template
import Mathlib.Algebra.Group.Int.Defs

/-!
# The string assertion

`__ASSERT_EQUAL_STRING` of `test_template.h` compares two buffers with `strncmp`,
over the smaller of their sizes.  A text that fills the smaller buffer without a
terminator is thus compared with a part of the other text only: it passes for any
longer text that begins with it.
-/

namespace BmcCodes.UnitTest

open BmcCodes.Lib

/-! ## The code -/

/-- The `int` value `n` as a `size_t`. -/
def sizeT (n : Int) : Nat := if 0 ≤ n then n.toNat else (2 ^ 32 + n).toNat

/-- The macro `MIN`. -/
def cMin (x y : Int) : Int := if x > y then y else x

/-- What the helper prints. -/
inductive StringMessage where
  | nullPointer
  | equalStringFailed (site : Site) (left right : List Byte)
  deriving DecidableEq, Repr

/-- `__ASSERT_EQUAL_STRING`; a pointer is `none` if it is null.  The message of a failure
prints both texts with `%s`, which reads on to a terminator wherever that is; the bytes
beyond the buffers are left out. -/
def assertEqualString (site : Site) (left : Option (List Byte)) (lBufsize : Int)
    (right : Option (List Byte)) (rBufsize : Int) : Int × List StringMessage :=
  match left, right with
  | some left, some right =>
      let realsize := cMin lBufsize rBufsize
      if 0 ≠ CString.strncmp (sizeT realsize) left right then
        (cFalse, [.equalStringFailed site left right])
      else (cTrue, [])
  | _, _ => (cFalse, [.nullPointer])

/-! ## What is compared -/

/-- The text of a buffer of size `n`. -/
def bufferText (buffer : List Byte) (n : Nat) : List Byte :=
  CString.text 0 (buffer.take n)

/-- A smaller size cuts the text off. -/
theorem bufferText_of_le (buffer : List Byte) {m n : Nat} (hmn : m ≤ n) :
    bufferText buffer m = (bufferText buffer n).take m := by
  rw [bufferText, bufferText, ← CString.text_take, List.take_take, Nat.min_eq_left hmn]

/-- The first `m` bytes of the buffers agree, and in the second one, which has the
greater size `n`, the text goes on. -/
def GoesOn (short long : List Byte) (m n : Nat) : Prop :=
  m < n ∧ short.take m = long.take m ∧ 0 ∉ long.take (m + 1)

/-- The same, said of the texts. -/
theorem goesOn_iff {short long : List Byte} {m n : Nat} (hmn : m ≤ n)
    (hlong : n ≤ long.length) :
    GoesOn short long m n ↔
      bufferText short m = bufferText long m ∧ m < (bufferText long n).length := by
  have hlength : m < (bufferText long n).length ↔ m < n ∧ 0 ∉ long.take (m + 1) := by
    rw [bufferText, CString.lt_length_text_iff, List.length_take, Nat.min_eq_left hlong,
      List.take_take]
    refine and_congr_right fun hlt => ?_
    rw [Nat.min_eq_left hlt]
  rw [GoesOn, hlength, and_comm (a := bufferText short m = _), and_assoc]
  refine and_congr_right fun _ => ?_
  rw [and_comm]
  refine and_congr_right fun hnul => ?_
  have hfull : bufferText long m = long.take m := by
    refine (CString.text_eq_self_iff 0 _).mpr fun hmem => hnul ?_
    exact (List.take_prefix_take_left (Nat.le_succ m)).subset hmem
  rw [hfull]
  constructor
  · intro hsame
    rw [← hsame, bufferText, hsame]
    exact hfull
  · intro htext
    -- a text of `m` bytes fills the smaller buffer
    rw [← htext]
    refine (CString.text_eq_self_of_length 0 ?_).symm
    have hlen := congrArg List.length htext
    rw [List.length_take, Nat.min_eq_left (hmn.trans hlong)] at hlen
    rw [List.length_take, ← bufferText, hlen]
    exact Nat.min_le_left _ _

/-- Comparing over the smaller size decides equality unless the text of the larger
buffer goes on. -/
theorem bufferText_eq_iff_not_goesOn {short long : List Byte} {m n : Nat} (hmn : m ≤ n)
    (hlong : n ≤ long.length) :
    ((bufferText short m = bufferText long m ↔ bufferText short m = bufferText long n) ↔
      ¬ GoesOn short long m n) := by
  have hshort : (bufferText short m).length ≤ m :=
    (CString.length_text_le 0 _).trans (List.length_take_le _ _)
  rw [goesOn_iff hmn hlong]
  constructor
  · intro h hgoesOn
    obtain ⟨hsame, hlength⟩ := hgoesOn
    rw [← h.mp hsame] at hlength
    omega
  · intro hends
    rw [bufferText_of_le long hmn] at hends ⊢
    by_cases hlength : (bufferText long n).length ≤ m
    · rw [List.take_of_length_le hlength]
    · refine iff_of_false (fun hsame => hends ⟨hsame, Nat.lt_of_not_le hlength⟩) ?_
      intro hequal
      exact hlength (hequal ▸ hshort)

/-- **When the string assertion decides equality**: for buffers of at least the
sizes given, unless the first bytes of both, as many as the smaller size, agree
and the text of the other buffer goes on after them. -/
theorem assertEqualString_decides_iff (site : Site) (left right : List Byte) (l r : Int)
    (hl : 0 ≤ l) (hleft : l ≤ left.length) (hr : 0 ≤ r) (hright : r ≤ right.length) :
    (((assertEqualString site (some left) l (some right) r).1 = cTrue ↔
        bufferText left l.toNat = bufferText right r.toNat) ↔
      ¬ (GoesOn left right l.toNat r.toNat ∨ GoesOn right left r.toNat l.toNat)) := by
  obtain ⟨m, rfl⟩ := Int.eq_ofNat_of_zero_le hl
  obtain ⟨n, rfl⟩ := Int.eq_ofNat_of_zero_le hr
  rw [Int.ofNat_le] at hleft hright
  rw [Int.toNat_natCast, Int.toNat_natCast]
  have hpasses : (assertEqualString site (some left) m (some right) n).1 = cTrue ↔
      CString.strncmp (min m n) left right = 0 := by
    have hsize : sizeT (cMin m n) = min m n := by
      have hcMin : cMin m n = (min m n : Nat) := by
        rw [cMin]
        split <;> omega
      rw [hcMin, sizeT, if_pos (Int.natCast_nonneg _), Int.toNat_natCast]
    simp only [assertEqualString, hsize]
    by_cases hzero : CString.strncmp (min m n) left right = 0
    · simp [hzero]
    · simp [Ne.symm hzero, cTrue, cFalse, hzero]
  rw [hpasses, CString.strncmp_eq_zero_iff _ _ _ (by omega) (by omega), ← bufferText,
    ← bufferText]
  rcases Nat.le_total m n with hmn | hnm
  · have hother : ¬ GoesOn right left n m := fun h => by
      have hlt := h.1
      omega
    rw [or_iff_left hother, Nat.min_eq_left hmn]
    exact bufferText_eq_iff_not_goesOn hmn hright
  · have hother : ¬ GoesOn left right m n := fun h => by
      have hlt := h.1
      omega
    rw [or_iff_right hother, Nat.min_eq_right hnm, eq_comm,
      eq_comm (a := bufferText left m)]
    exact bufferText_eq_iff_not_goesOn hnm hleft

/-- Two terminated texts in buffers of different sizes. -/
theorem assertEqualString_decides_terminated :
    (assertEqualString ⟨"test.c", "test", 1⟩ (some [0x61, 0x00]) 2
        (some [0x61, 0x62, 0x00]) 3).1 = cTrue ↔
      bufferText [0x61, 0x00] 2 = bufferText [0x61, 0x62, 0x00] 3 :=
  (assertEqualString_decides_iff ⟨"test.c", "test", 1⟩ [0x61, 0x00] [0x61, 0x62, 0x00] 2 3
    (by decide) (by decide) (by decide) (by decide)).mpr (by unfold GoesOn; decide)

/-- The two bytes `ab` pass for the text `abc`. -/
theorem assertEqualString_passes_prefix :
    ¬ ((assertEqualString ⟨"test.c", "test", 1⟩ (some [0x61, 0x62]) 2
        (some [0x61, 0x62, 0x63, 0x00]) 4).1 = cTrue ↔
      bufferText [0x61, 0x62] 2 = bufferText [0x61, 0x62, 0x63, 0x00] 4) := by
  decide

end BmcCodes.UnitTest
