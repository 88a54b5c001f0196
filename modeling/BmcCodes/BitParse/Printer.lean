import BmcCodes.Lib.CInt
import BmcCodes.Lib.Columns

/-!
# The bit printer

`class bitParse` of `bitParse.cpp` prints the bits of a value under a line of bit
numbers.  The value is cut into segments of four bits, which are printed one after the
other.

Two things in it are undefined in C++.  The function that cuts the value up ends without
the `return` that its type asks for, so a call goes on only if the compiled function
returns all the same; and it shifts the value by 64 bits or more if the length is above
67.
-/

namespace BmcCodes.BitParse

open BmcCodes.Lib.Columns

/-- `_seg_bit_len`, which the constructor sets to 4 for good. -/
def segBitLen : Nat := 4

/-- The other members of the class. -/
structure Parser where
  val : BitVec 64
  segment : List Byte
  valBitLen : Nat
  deriving DecidableEq, Repr

/-- The constructor. -/
def bitParse (val : BitVec 64) (valBitLen : Byte) : Parser := ⟨val, [], valBitLen.toNat⟩

/-- `SEG_OF_VAL`. -/
def segOfVal (val : BitVec 64) (segIndex : Nat) : BitVec 64 :=
  (val >>> (segIndex * segBitLen)) &&& 0xf

/-- `BIT_OF_SEG`. -/
def bitOfSeg (seg : Byte) (bit : Nat) : Byte := (seg >>> bit) &&& 0x1

/-- The values of `i` in a loop `for (int i = n - 1; i >= 0; i--)`. -/
def countdown (n : Nat) : List Nat := (List.range n).reverse

/-- What the compiled `_val_to_segval` does at its end.  It is declared with a result and
has no `return`; reaching the end of such a function is undefined in C++ (not only, as in
C, using its result). -/
inductive FlowOff where
  /-- It returns to `parse`. -/
  | returns
  /-- Anything else.  Nothing is known of the program from there on. -/
  | undefined
  deriving DecidableEq, Repr

/-- No shift count of `SEG_OF_VAL` reaches the width of the value. -/
def Parser.ShiftsFit (p : Parser) : Prop :=
  ∀ i < p.valBitLen / segBitLen, i * segBitLen < 64

instance (p : Parser) : Decidable p.ShiftsFit :=
  inferInstanceAs (Decidable (∀ i < _, _))

/-- The loop of `_val_to_segval`. -/
def pushSegments (p : Parser) : Parser :=
  { p with
    segment := p.segment ++ (List.range (p.valBitLen / segBitLen)).map fun i =>
      (segOfVal p.val i).setWidth 8 }

/-- `_val_to_segval`.  There is no result where C++ defines none: a shift count may be too
large, and the end of the function is reached without a `return`. -/
def valToSegval (flowOff : FlowOff) (p : Parser) : Option Parser :=
  if p.ShiftsFit then
    match flowOff with
    | .returns => some (pushSegments p)
    | .undefined => none
  else none

/-- `_print_segval_with_bit`, without the index that it does not use. -/
def printSegvalWithBit (segment : Byte) : List Char :=
  ((countdown segBitLen).flatMap fun i =>
    zeroPadded 1 (bitOfSeg segment i).toNat ++ [' ', ' ']) ++ ['|']

/-- `_print_bit_tag`. -/
def printBitTag (p : Parser) : List Char :=
  ['b', 'i', 't', ' '] ++
    ((countdown p.valBitLen).flatMap fun i =>
      zeroPadded 2 i ++ [' '] ++ if i % segBitLen = 0 then ['|'] else []) ++ ['\n']

/-- What `parse` prints, once `_val_to_segval` has returned. -/
def printLines (p : Parser) : List Char :=
  printBitTag p ++ [' ', ' ', ' ', ' '] ++
    ((countdown (p.valBitLen / segBitLen)).flatMap fun i =>
      printSegvalWithBit (p.segment.getD i 0)) ++ ['\n']

/-- `parse`, with what it prints. -/
def parse (flowOff : FlowOff) (p : Parser) : Option (Parser × List Char) :=
  (valToSegval flowOff p).map fun p => (p, printLines p)

/-! ## When a call is defined -/

theorem Parser.shiftsFit_iff (p : Parser) : p.ShiftsFit ↔ p.valBitLen ≤ 67 := by
  constructor
  · intro h
    by_contra hlong
    have hcount := h 16 (by rw [segBitLen]; omega)
    exact absurd hcount (by decide)
  · intro hshort i hi
    rw [segBitLen] at hi ⊢
    omega

/-- **What a call gives**, if it is defined and the function returns. -/
theorem parse_eq (flowOff : FlowOff) (p : Parser) :
    parse flowOff p =
      if flowOff = .returns ∧ p.valBitLen ≤ 67 then
        some (pushSegments p, printLines (pushSegments p))
      else none := by
  have hfit := p.shiftsFit_iff
  unfold parse valToSegval
  by_cases hshort : p.valBitLen ≤ 67
  · rw [if_pos (hfit.mpr hshort)]
    cases flowOff with
    | returns => simp [hshort]
    | undefined => simp
  · rw [if_neg (mt hfit.mp hshort), if_neg fun hdefined => hshort hdefined.2]
    rfl

/-- So what holds of its result depends on both. -/
theorem exists_mem_parse_iff {flowOff : FlowOff} {p : Parser}
    {P : Parser × List Char → Prop} :
    (∃ result ∈ parse flowOff p, P result) ↔ (flowOff = .returns ∧ p.valBitLen ≤ 67) ∧
      P (pushSegments p, printLines (pushSegments p)) := by
  rw [parse_eq]
  split
  · next hdefined => simp [hdefined]
  · next hundefined => simp [hundefined]

end BmcCodes.BitParse
