import Mathlib.Data.List.Basic
import Mathlib.Data.List.TakeWhile
import Mathlib.Tactic.Ring

/-!
# Numbers written in a base

A number is a list of digits, the most significant one first, and its text is a list of
characters, in which the digits from ten on are letters of either case.  A text is read
up to the first character that is no digit of the base.

* `value_digits`, `sum_digits` — the lower digits of a number denote a remainder.
* `number_toDigits` — a number is read back from its text.
-/

namespace BmcCodes.Lib.Numeral

/-! ## Digits -/

/-- The number that the digits denote in base `b`. -/
def value (b : Nat) (digits : List Nat) : Nat := digits.foldl (fun acc d => b * acc + d) 0

theorem foldl_value (b acc : Nat) (digits : List Nat) :
    digits.foldl (fun acc d => b * acc + d) acc =
      b ^ digits.length * acc + value b digits := by
  induction digits generalizing acc with
  | nil => simp [value]
  | cons d digits ih =>
      unfold value
      rw [List.foldl_cons, List.foldl_cons, ih, ih, List.length_cons, Nat.pow_succ]
      ring

theorem value_append (b : Nat) (high low : List Nat) :
    value b (high ++ low) = b ^ low.length * value b high + value b low := by
  rw [value, List.foldl_append, foldl_value]
  rfl

theorem value_singleton (b d : Nat) : value b [d] = d := by
  simp [value]

theorem value_cons (b d : Nat) (digits : List Nat) :
    value b (d :: digits) = b ^ digits.length * d + value b digits := by
  rw [← List.singleton_append, value_append, value_singleton]

theorem value_lt {b : Nat} {digits : List Nat} (hdigits : ∀ d ∈ digits, d < b) :
    value b digits < b ^ digits.length := by
  induction digits with
  | nil => exact Nat.one_pos
  | cons d digits ih =>
      rw [List.forall_mem_cons] at hdigits
      rw [value_cons, List.length_cons]
      calc b ^ digits.length * d + value b digits
          < b ^ digits.length * d + b ^ digits.length := Nat.add_lt_add_left (ih hdigits.2) _
        _ = b ^ digits.length * (d + 1) := by ring
        _ ≤ b ^ digits.length * b := Nat.mul_le_mul_left _ hdigits.1

/-- The `n` lower digits of `x`. -/
theorem value_digits (b x n : Nat) :
    value b ((List.range n).reverse.map fun i => x / b ^ i % b) = x % b ^ n := by
  induction n with
  | zero => rw [Nat.pow_zero, Nat.mod_one]; rfl
  | succ n ih =>
      have hsplit : (List.range (n + 1)).reverse = [n] ++ (List.range n).reverse := by
        rw [List.range_succ, List.reverse_append]
        rfl
      rw [hsplit, List.map_append, value_append, ih, List.length_map, List.length_reverse,
        List.length_range, List.map_singleton, value_singleton, Nat.mod_pow_succ, Nat.add_comm]

/-- The same, with the lowest digit first. -/
theorem sum_digits (b x n : Nat) :
    ((List.range n).map fun i => x / b ^ i % b * b ^ i).sum = x % b ^ n := by
  induction n with
  | zero => rw [Nat.pow_zero, Nat.mod_one, List.range_zero, List.map_nil, List.sum_nil]
  | succ n ih =>
      rw [List.range_succ, List.map_append, List.sum_append, ih, Nat.mod_pow_succ,
        List.map_singleton, List.sum_singleton, Nat.mul_comm]

/-! ## Texts -/

/-- The digit that a character is, in any base up to 36. -/
def digitValue (c : Char) : Option Nat :=
  if '0' ≤ c ∧ c ≤ '9' then some (c.toNat - '0'.toNat)
  else if 'a' ≤ c ∧ c ≤ 'z' then some (c.toNat - 'a'.toNat + 10)
  else if 'A' ≤ c ∧ c ≤ 'Z' then some (c.toNat - 'A'.toNat + 10)
  else none

def isDigit (b : Nat) (c : Char) : Bool := (digitValue c).any (· < b)

/-- The number with which a text begins. -/
def number (b : Nat) (text : List Char) : Nat :=
  value b ((text.takeWhile (isDigit b)).filterMap digitValue)

theorem digitValue_digitChar {d : Nat} (hd : d < 16) :
    digitValue (Nat.digitChar d) = some d := by
  have hall : ∀ d < 16, digitValue (Nat.digitChar d) = some d := by decide
  exact hall d hd

theorem isDigit_digitChar {b d : Nat} (hd : d < b) (hb : b ≤ 16) :
    isDigit b (Nat.digitChar d) := by
  rw [isDigit, digitValue_digitChar (by omega), Option.any_some, decide_eq_true_eq]
  exact hd

/-- The text of a number is a list of digits that denote it. -/
theorem toDigits_eq {b : Nat} (hb : 1 < b) (n : Nat) :
    ∃ digits, Nat.toDigits b n = digits.map Nat.digitChar ∧ (∀ d ∈ digits, d < b) ∧
      value b digits = n := by
  induction n using Nat.strongRecOn with
  | ind n ih =>
      rcases Nat.lt_or_ge n b with hlt | hge
      · refine ⟨[n], Nat.toDigits_of_lt_base hlt, ?_, value_singleton b n⟩
        simpa using hlt
      · obtain ⟨digits, htext, hdigits, hvalue⟩ := ih (n / b) (Nat.div_lt_self (by omega) hb)
        have hlast : n % b < b := Nat.mod_lt n (by omega)
        refine ⟨digits ++ [n % b], ?_, ?_, ?_⟩
        · rw [Nat.toDigits_of_base_le hb hge, htext, List.map_append, List.map_singleton]
        · intro d hd
          rcases List.mem_append.mp hd with hhigh | hlow
          · exact hdigits d hhigh
          · exact List.mem_singleton.mp hlow ▸ hlast
        · rw [value_append, hvalue, value_singleton, List.length_singleton, Nat.pow_one]
          exact Nat.div_add_mod n b

/-- The text of a number consists of digits. -/
theorem isDigit_of_mem_toDigits {b : Nat} (hb : 1 < b) (hb' : b ≤ 16) (n : Nat) :
    ∀ c ∈ Nat.toDigits b n, isDigit b c := by
  obtain ⟨digits, htext, hdigits, _⟩ := toDigits_eq hb n
  intro c hc
  rw [htext] at hc
  obtain ⟨d, hd, rfl⟩ := List.mem_map.mp hc
  exact isDigit_digitChar (hdigits d hd) hb'

/-- **Round trip**: a number is read back from its text. -/
theorem number_toDigits {b : Nat} (hb : 1 < b) (hb' : b ≤ 16) (n : Nat) :
    number b (Nat.toDigits b n) = n := by
  obtain ⟨digits, htext, hdigits, hvalue⟩ := toDigits_eq hb n
  have hall := isDigit_of_mem_toDigits hb hb' n
  have hread : (digits.map Nat.digitChar).filterMap digitValue = digits := by
    have hdigit : ∀ d ∈ digits, (digitValue ∘ Nat.digitChar) d = some d := fun d hd =>
      digitValue_digitChar (Nat.lt_of_lt_of_le (hdigits d hd) hb')
    rw [List.filterMap_map, List.filterMap_congr hdigit, List.filterMap_some]
  rw [number, List.takeWhile_eq_self_iff.mpr hall, htext, hread, hvalue]

end BmcCodes.Lib.Numeral
