import BmcCodes.BitParse.Alignment
import Mathlib.Tactic.IntervalCases

/-!
# Lengths on the command line

`main` of `bitParse.cpp` keeps the requested length in a `u8` before it looks at it.
What it rejects, it rejects by the low eight bits; and of the lengths it accepts, those
from 65 on exceed the value.  The segments beyond bit 63 need shift counts that are not
defined, and where there are none yet, up to 67 bits, the digits of the value already
stand under the wrong numbers.  A run that is not defined honours no length.
-/

namespace BmcCodes.BitParse

open BmcCodes.Lib.Columns

/-! ## The code -/

/-- `strtoul`, for an argument in which the number `written` is written. -/
def strtoul (written : Nat) : BitVec 64 := BitVec.ofNat 64 (min written (2 ^ 64 - 1))

/-- `is_parameter_invalid`. -/
def isParameterInvalid (val : BitVec 64) (argc : Int) (valBitLen : Byte) : Bool :=
  0 = val ∨ (3 = argc ∧ 0 = valBitLen)

/-- How a run ends: in `usage`, which exits, or after one call of `parse` on the parser
that was constructed. -/
inductive Outcome where
  | usage
  | parsed (parser : Parser) (text : List Char)
  /-- C++ does not define the call. -/
  | undefined
  deriving DecidableEq, Repr

def Outcome.ofParse (flowOff : FlowOff) (parser : Parser) : Outcome :=
  match parse flowOff parser with
  | some (_, text) => .parsed parser text
  | none => .undefined

/-- `main`; `argv1` and `argv2` are the numbers written in the arguments, which are read
if there are that many. -/
def main (flowOff : FlowOff) (argc : Int) (argv1 argv2 : Nat) : Outcome :=
  let (val, valBitLen) : BitVec 64 × Byte :=
    if argc = 3 then (strtoul argv1, (strtoul argv2).setWidth 8)
    else if argc = 2 then (strtoul argv1, 0)
    else (0, 0)
  if isParameterInvalid val argc valBitLen then .usage
  else
    .ofParse flowOff (if 0 = valBitLen then bitParse val 32 else bitParse val valBitLen)

/-! ## What is requested -/

/-- The parser has the requested length, no shift count of `SEG_OF_VAL` reaches 64, and
a digit that stands under the number of a bit from 64 on is 0. -/
structure Honours (length : Nat) (parser : Parser) (text : List Char) : Prop where
  length : parser.valBitLen = length
  counts : ∀ i < parser.valBitLen / segBitLen, i * segBitLen < 64
  beyond : ∀ tag ∈ columns (tagLine text), 64 ≤ number tag.2 →
    ∀ digit ∈ columns (valueLine text), digit.1 = tag.1 → number digit.2 = 0

/-- A run that does not end in `usage` honours the requested length. -/
def Outcome.Honours (length : Nat) : Outcome → Prop
  | .usage => True
  | .parsed parser text => BitParse.Honours length parser text
  | .undefined => False

/-! ## Where the digits stand -/

/-- The shapes of the cells of `n` bits whose numbers are below 100. -/
def bitShapes (n : Nat) : List (Nat × Bool) :=
  (countdown n).map fun i => (3, decide (i % segBitLen = 0))

theorem map_shape_tagCell {n : Nat} (hn : n ≤ 100) :
    ((countdown n).map tagCell).map Cell.shape = bitShapes n := by
  rw [List.map_map, bitShapes]
  apply List.map_congr_left
  intro i hi
  have hi' := mem_countdown.mp hi
  exact shape_tagCell (by omega)

theorem map_shape_valueCell (val : BitVec 64) (n : Nat) :
    ((countdown n).map (valueCell val)).map Cell.shape = bitShapes n := by
  rw [List.map_map, bitShapes]
  exact List.map_congr_left fun i _ => shape_valueCell val i

/-- The columns of a line of cells: cell `k` from the left belongs to bit `n - 1 - k`. -/
theorem mem_columns_iff {margin : List Char} (hmargin : margin.length = 4) (n : Nat)
    (cellOf : Nat → Cell) (c : Nat × List Char) :
    c ∈ columns (margin ++ row ((countdown n).map cellOf)) ↔
      ∃ k < n, (starts 4 (((countdown n).map cellOf).map Cell.shape))[k]? = some c.1 ∧
        (cellOf (n - 1 - k)).text = c.2 := by
  rw [columns_line hmargin, words_row, List.mem_iff_getElem?]
  have hcount : ∀ k < n, (countdown n)[k]? = some (n - 1 - k) := by
    intro k hk
    rw [countdown, List.getElem?_reverse (by simpa using hk), List.length_range,
      List.getElem?_range (by omega)]
  constructor
  · intro h
    obtain ⟨k, hk⟩ := h
    obtain ⟨hstart, htext⟩ := List.getElem?_zip_eq_some.mp hk
    have hlt : k < n := by
      have hlength := (List.getElem?_eq_some_iff.mp htext).1
      rwa [List.length_map, List.length_map, length_countdown] at hlength
    rw [List.map_map, List.getElem?_map, hcount k hlt] at htext
    exact ⟨k, hlt, hstart, Option.some_inj.mp htext⟩
  · intro h
    obtain ⟨k, hlt, hstart, htext⟩ := h
    refine ⟨k, List.getElem?_zip_eq_some.mpr ⟨hstart, ?_⟩⟩
    rw [List.map_map, List.getElem?_map, hcount k hlt]
    exact congrArg some htext

/-- Of up to three numbers above 63, each stands over the digit of the same column. -/
theorem starts_bitShapes_eq_iff {n : Nat} (hlow : 64 ≤ n) (hhigh : n ≤ 67) :
    ∀ j < n - 64, ∀ k < 64,
      (starts 4 (bitShapes 64))[k]? = (starts 4 (bitShapes n))[j]? ↔ k = j := by
  interval_cases n <;> decide

/-- The numbers in the first line are those of the bits. -/
theorem number_tag_lt (val : BitVec 64) (valBitLen : Byte) :
    ∀ tag ∈ columns (tagLine (table val valBitLen)),
      number tag.2 < valBitLen.toNat := by
  intro tag htag
  rw [tagLine_table, mem_columns_iff rfl] at htag
  obtain ⟨k, hk, _, htext⟩ := htag
  rw [← htext, tagCell, cell, number_zeroPadded]
  omega

/-- The upper bits of a value are those that its size does not reach. -/
theorem toNat_lt_two_pow_iff (val : BitVec 64) {m : Nat} (hm : m ≤ 64) :
    val.toNat < 2 ^ (64 - m) ↔ ∀ j < m, val.getLsbD (63 - j) = false := by
  constructor
  · intro h j hj
    rw [← BitVec.testBit_toNat]
    refine Nat.testBit_lt_two_pow (Nat.lt_of_lt_of_le h ?_)
    exact Nat.pow_le_pow_right (by decide) (by omega)
  · intro h
    refine Nat.lt_pow_two_of_testBit _ fun i hi => ?_
    rw [BitVec.testBit_toNat]
    rcases Nat.lt_or_ge i 64 with hlt | hge
    · have hbit := h (63 - i) (by omega)
      rwa [show 63 - (63 - i) = i by omega] at hbit
    · exact BitVec.getLsbD_of_ge val i hge

/-- With 64 to 67 bits, the digits under the numbers from 64 on are the upper bits of
the value. -/
theorem beyond_iff (val : BitVec 64) (valBitLen : Byte) (hlow : 64 ≤ valBitLen.toNat)
    (hhigh : valBitLen.toNat ≤ 67) :
    (∀ tag ∈ columns (tagLine (table val valBitLen)), 64 ≤ number tag.2 →
      ∀ digit ∈ columns (valueLine (table val valBitLen)),
        digit.1 = tag.1 → number digit.2 = 0) ↔
      val.toNat < 2 ^ (128 - valBitLen.toNat) := by
  have hsegments : segBitLen * (valBitLen.toNat / segBitLen) = 64 := by
    unfold segBitLen
    omega
  have hpow : 128 - valBitLen.toNat = 64 - (valBitLen.toNat - 64) := by omega
  have hplace := starts_bitShapes_eq_iff hlow hhigh
  have htag : ∀ i, number (tagCell i).text = i := number_zeroPadded 2
  have hdigit : ∀ i, number (valueCell val i).text = (val.getLsbD i).toNat :=
    fun i => number_zeroPadded 1 _
  rw [hpow, toNat_lt_two_pow_iff val (by omega), tagLine_table, valueLine_table, hsegments]
  simp only [mem_columns_iff (rfl : ['b', 'i', 't', ' '].length = 4),
    mem_columns_iff (rfl : [' ', ' ', ' ', ' '].length = 4), map_shape_valueCell,
    map_shape_tagCell (show valBitLen.toNat ≤ 100 by omega)]
  constructor
  · intro h j hj
    obtain ⟨x, hx⟩ : ∃ x, (starts 4 (bitShapes valBitLen.toNat))[j]? = some x := by
      have hlength : j < (starts 4 (bitShapes valBitLen.toNat)).length := by
        rw [length_starts, bitShapes, List.length_map, length_countdown]
        omega
      exact ⟨_, List.getElem?_eq_getElem hlength⟩
    have hzero := h (x, (tagCell (valBitLen.toNat - 1 - j)).text)
      ⟨j, by omega, hx, rfl⟩ (by rw [htag]; omega) (x, (valueCell val (64 - 1 - j)).text)
      ⟨j, by omega, ((hplace j hj j (by omega)).mpr rfl).trans hx, rfl⟩ rfl
    rw [hdigit] at hzero
    simpa using hzero
  · intro h tag htagMem hbeyond digit hdigitMem hsame
    obtain ⟨j, hj, hstart, htext⟩ := htagMem
    obtain ⟨k, hk, hstart', htext'⟩ := hdigitMem
    rw [← htext, htag] at hbeyond
    rw [hsame] at hstart'
    have hkj := (hplace j (by omega) k hk).mp (hstart'.trans hstart.symm)
    subst hkj
    rw [← htext', hdigit, show 64 - 1 - k = 63 - k by omega, h k (by omega)]
    rfl

/-- A parser honours a length that is its own, unless it is too long to be shown. -/
theorem honours_iff (val : BitVec 64) (valBitLen : Byte) (length : Nat) :
    Honours length (bitParse val valBitLen) (table val valBitLen) ↔
      valBitLen.toNat = length ∧
        (length ≤ 64 ∨ length ≤ 67 ∧ val.toNat < 2 ^ (128 - length)) := by
  have hsize : (bitParse val valBitLen).valBitLen = valBitLen.toNat := rfl
  constructor
  · intro h
    have hlength := h.length
    rw [hsize] at hlength
    refine ⟨hlength, ?_⟩
    have hcounts : length ≤ 67 := by
      by_contra hlong
      have hcount := h.counts 16 (by rw [hsize, segBitLen]; omega)
      exact absurd hcount (by decide)
    by_cases hshort : length ≤ 64
    · exact .inl hshort
    · have hbeyond := (beyond_iff val valBitLen (by omega) (by omega)).mp h.beyond
      rw [hlength] at hbeyond
      exact .inr ⟨hcounts, hbeyond⟩
  · intro h
    obtain ⟨hlength, hshown⟩ := h
    refine ⟨hlength, ?_, ?_⟩
    · intro i hi
      rw [hsize, segBitLen] at hi
      rw [segBitLen]
      omega
    · by_cases hshort : length ≤ 64
      · intro tag htag hbit
        have hlt := number_tag_lt val valBitLen tag htag
        omega
      · obtain ⟨hlong, hempty⟩ := hshown.resolve_left hshort
        refine (beyond_iff val valBitLen (by omega) (by omega)).mpr ?_
        rwa [hlength]

/-! ## The run -/

theorem strtoul_toNat (written : Nat) : (strtoul written).toNat = min written (2 ^ 64 - 1) := by
  rw [strtoul, BitVec.toNat_ofNat]
  exact Nat.mod_eq_of_lt (by omega)

theorem strtoul_setWidth_toNat (written : Nat) :
    ((strtoul written).setWidth 8).toNat = min written (2 ^ 64 - 1) % 256 := by
  rw [BitVec.toNat_setWidth, strtoul_toNat]

/-- Two arguments are rejected for a value of 0, or for the low byte of the length. -/
theorem isParameterInvalid_iff (argv1 argv2 : Nat) :
    isParameterInvalid (strtoul argv1) 3 ((strtoul argv2).setWidth 8) = true ↔
      argv1 = 0 ∨ min argv2 (2 ^ 64 - 1) % 256 = 0 := by
  have hval : (0 : BitVec 64) = strtoul argv1 ↔ argv1 = 0 := by
    rw [← BitVec.toNat_inj, strtoul_toNat, show (0 : BitVec 64).toNat = 0 from rfl]
    omega
  have hlen : (0 : Byte) = (strtoul argv2).setWidth 8 ↔
      min argv2 (2 ^ 64 - 1) % 256 = 0 := by
    rw [← BitVec.toNat_inj, strtoul_setWidth_toNat, show (0 : Byte).toNat = 0 from rfl,
      eq_comm]
  rw [isParameterInvalid, decide_eq_true_eq, hval, hlen]
  exact or_congr_right (and_iff_right rfl)

/-- Otherwise a parser with the low byte of the length is constructed. -/
theorem main_three (flowOff : FlowOff) (argv1 argv2 : Nat) :
    main flowOff 3 argv1 argv2 =
      if isParameterInvalid (strtoul argv1) 3 ((strtoul argv2).setWidth 8) then .usage
      else .ofParse flowOff (bitParse (strtoul argv1) ((strtoul argv2).setWidth 8)) := by
  by_cases hinvalid :
      isParameterInvalid (strtoul argv1) 3 ((strtoul argv2).setWidth 8) = true
  · rw [if_pos hinvalid]
    simp only [main, if_true, hinvalid]
  · have hlen : ¬ (0 : Byte) = (strtoul argv2).setWidth 8 := by
      intro hzero
      rw [isParameterInvalid, decide_eq_true_eq] at hinvalid
      exact hinvalid (.inr ⟨rfl, hzero⟩)
    rw [if_neg hinvalid]
    simp only [main, if_true, hinvalid, hlen, if_false]
    rfl

/-- The parser prints its table, where the call is defined. -/
theorem ofParse_bitParse (flowOff : FlowOff) (val : BitVec 64) (valBitLen : Byte) :
    Outcome.ofParse flowOff (bitParse val valBitLen) =
      if flowOff = .returns ∧ valBitLen.toNat ≤ 67 then
        .parsed (bitParse val valBitLen) (table val valBitLen)
      else .undefined := by
  have hsize : (bitParse val valBitLen).valBitLen = valBitLen.toNat := rfl
  rw [Outcome.ofParse, parse_eq, hsize]
  by_cases hdefined : flowOff = .returns ∧ valBitLen.toNat ≤ 67
  · rw [if_pos hdefined, if_pos hdefined]
    rfl
  · rw [if_neg hdefined, if_neg hdefined]

/-- A defined call honours the lengths that its parser does. -/
theorem ofParse_honours_iff (flowOff : FlowOff) (val : BitVec 64) (valBitLen : Byte)
    (length : Nat) :
    (Outcome.ofParse flowOff (bitParse val valBitLen)).Honours length ↔
      flowOff = .returns ∧ valBitLen.toNat = length ∧
        (length ≤ 64 ∨ length ≤ 67 ∧ val.toNat < 2 ^ (128 - length)) := by
  rw [ofParse_bitParse, ← honours_iff]
  split
  · next hdefined => exact (and_iff_right hdefined.1).symm
  · next hundefined =>
      refine iff_of_false not_false fun h => ?_
      have hlength := (honours_iff val valBitLen length).mp h.2
      exact hundefined ⟨h.1, by omega⟩

/-- **Which lengths are honoured.**  A run with two arguments ends in `usage` or honours
the length requested if and only if the value is 0, or the low eight bits of the length
are, or the call of `parse` is defined to go on, and the length is at most 64, or it is at
most 67 and the value leaves the bits empty that are shown under the numbers from 64 on. -/
theorem main_honours_iff (flowOff : FlowOff) (argv1 argv2 : Nat) :
    (main flowOff 3 argv1 argv2).Honours argv2 ↔
      argv1 = 0 ∨ min argv2 (2 ^ 64 - 1) % 256 = 0 ∨
        flowOff = .returns ∧ (argv2 ≤ 64 ∨
          argv2 ≤ 67 ∧ min argv1 (2 ^ 64 - 1) < 2 ^ (128 - argv2)) := by
  rw [main_three, ← or_assoc, ← isParameterInvalid_iff]
  split
  · next hinvalid => exact iff_of_true trivial (.inl hinvalid)
  · next hvalid =>
      rw [ofParse_honours_iff, strtoul_setWidth_toNat, strtoul_toNat, or_iff_right hvalid]
      refine and_congr_right fun _ => and_iff_right_of_imp fun h => ?_
      have hshort : argv2 ≤ 67 := by omega
      rw [Nat.min_eq_left (by omega)]
      omega

/-- 257 bits are requested, and one is shown. -/
theorem main_257_shows_one_bit : ¬ (main .returns 3 0xFF 257).Honours 257 := by
  intro h
  have hlength : (bitParse 0xFF 1).valBitLen = 257 := h.length
  exact absurd hlength (by decide)

end BmcCodes.BitParse
