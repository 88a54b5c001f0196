import BmcCodes.Lib.Numeral

/-!
# Big-endian byte strings

`bytes n x` writes the `n` low-order bytes of `x`, the most significant one
first, and `value` reads such a string back as a numeral in base 256.  Reading
undoes writing up to the bytes that were dropped (`value_bytes`).
-/

namespace BmcCodes.Lib.BigEndian

/-- The `n` low-order bytes of `x`, most significant first. -/
def bytes : Nat → Nat → List (BitVec 8)
  | 0, _ => []
  | n + 1, x => BitVec.ofNat 8 (x / 256 ^ n) :: bytes n x

/-- The number a byte string denotes, its first byte being the most
significant. -/
def value (bs : List (BitVec 8)) : Nat := Numeral.value 256 (bs.map BitVec.toNat)

@[simp] theorem bytes_zero (x : Nat) : bytes 0 x = [] := rfl

theorem bytes_succ (n x : Nat) :
    bytes (n + 1) x = BitVec.ofNat 8 (x / 256 ^ n) :: bytes n x := rfl

@[simp] theorem length_bytes (n x : Nat) : (bytes n x).length = n := by
  induction n with
  | zero => rfl
  | succ n ih => rw [bytes_succ, List.length_cons, ih]

@[simp] theorem value_nil : value [] = 0 := rfl

theorem value_cons (b : BitVec 8) (bs : List (BitVec 8)) :
    value (b :: bs) = b.toNat * 256 ^ bs.length + value bs := by
  rw [value, List.map_cons, Numeral.value_cons, List.length_map, Nat.mul_comm]
  rfl

theorem value_lt (bs : List (BitVec 8)) : value bs < 256 ^ bs.length := by
  rw [← List.length_map BitVec.toNat]
  refine Numeral.value_lt fun d hd => ?_
  obtain ⟨b, _, rfl⟩ := List.mem_map.mp hd
  exact b.isLt

/-- The bytes of `x` are its digits. -/
theorem map_toNat_bytes (n x : Nat) :
    (bytes n x).map BitVec.toNat = (List.range n).reverse.map fun i => x / 256 ^ i % 256 := by
  induction n with
  | zero => rfl
  | succ n ih =>
      rw [bytes_succ, List.map_cons, ih, List.range_succ, List.reverse_append]
      rfl

/-- **Round trip**: the bytes kept of `x` denote `x` modulo `256 ^ n`. -/
theorem value_bytes (n x : Nat) : value (bytes n x) = x % 256 ^ n := by
  rw [value, map_toNat_bytes, Numeral.value_digits]

end BmcCodes.Lib.BigEndian
