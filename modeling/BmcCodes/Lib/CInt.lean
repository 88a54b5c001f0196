import Mathlib.Data.Int.Notation

/-!
# Machine words of a 32-bit C target

`unsigned long`, `unsigned int` and register contents are `Word`, `unsigned
char` is `Byte`.  An `int` is an `Int`, converted with `BitVec.ofInt 32` and
`BitVec.toInt` where the code stores it in a word or reads it from one.
-/

namespace BmcCodes

abbrev Word := BitVec 32
abbrev Byte := BitVec 8

/-- `a << n` for an `int` count.  A count outside `0..31` is undefined in C;
no bit survives it here. -/
def shl (a : Word) (n : Int) : Word := if 0 ≤ n then a <<< n.toNat else 0

/-- `a >> n` for an unsigned `a`, likewise. -/
def shr (a : Word) (n : Int) : Word := if 0 ≤ n then a >>> n.toNat else 0

theorem shl_natCast (a : Word) (n : Nat) : shl a (n : Int) = a <<< n := by
  rw [shl, if_pos (by omega), Int.toNat_natCast]

theorem shr_natCast (a : Word) (n : Nat) : shr a (n : Int) = a >>> n := by
  rw [shr, if_pos (by omega), Int.toNat_natCast]

theorem shl_one_natCast (n : Nat) : shl 1 (n : Int) = BitVec.twoPow 32 n :=
  (shl_natCast 1 n).trans (BitVec.twoPow_eq 32 n).symm

end BmcCodes
