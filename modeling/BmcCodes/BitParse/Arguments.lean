import BmcCodes.BitParse.CommandLine
import BmcCodes.BitParse.Segments

/-!
# From the arguments to the table

`main` of `bitParse.cpp` gets texts: `strtoul` reads the value in base 16 and the length in
base 10, and the table prints the value in base 2.  Numerals without a sign are read as the
numbers they denote, so on them `main` is the one of `CommandLine.lean`.  The digits of a
table, read in base 2, are what the table tells of the number, if the run is defined and
prints one.
-/

namespace BmcCodes.BitParse.Text

open BmcCodes.Lib BmcCodes.Lib.Columns

/-! ## The code -/

/-- `isspace`. -/
def isspace (c : Char) : Bool := [' ', '\t', '\n', '\x0b', '\x0c', '\r'].contains c

/-- The sign of a number, and what follows it. -/
def sign : List Char → Bool × List Char
  | '-' :: text => (true, text)
  | '+' :: text => (false, text)
  | text => (false, text)

/-- What follows a prefix of base 16.  If that is no digit, the number is 0 with or without
the prefix. -/
def dropPrefix : List Char → List Char
  | '0' :: 'x' :: text => text
  | '0' :: 'X' :: text => text
  | text => text

/-- `strtoul`, in base 10 or 16.  A number that does not fit gives `ULONG_MAX`, also with a
minus sign; one that fits is negated in 64 bits. -/
def strtoul (base : Nat) (text : List Char) : BitVec 64 :=
  let (minus, text) := sign (text.dropWhile isspace)
  let written := Numeral.number base (if base = 16 then dropPrefix text else text)
  if 2 ^ 64 ≤ written then BitVec.allOnes 64
  else if minus then -BitVec.ofNat 64 written
  else BitVec.ofNat 64 written

/-- `main`. -/
def main (flowOff : FlowOff) (argv : List (List Char)) : Outcome :=
  let (val, valBitLen) : BitVec 64 × Byte :=
    match argv with
    | [_, argv1, argv2] => (strtoul 16 argv1, (strtoul 10 argv2).setWidth 8)
    | [_, argv1] => (strtoul 16 argv1, 0)
    | _ => (0, 0)
  if isParameterInvalid val argv.length valBitLen then .usage
  else
    .ofParse flowOff (if 0 = valBitLen then bitParse val 32 else bitParse val valBitLen)

/-- The number that the digits of a table denote. -/
def shown (text : List Char) : Nat :=
  Numeral.value 2 ((columns (valueLine text)).map fun c => number c.2)

/-! ## Numerals -/

theorem isspace_of_isDigit {base : Nat} {c : Char} (hc : Numeral.isDigit base c) :
    isspace c = false := by
  have hspace : ∀ c ∈ [' ', '\t', '\n', '\x0b', '\x0c', '\r'], Numeral.digitValue c = none := by
    simp only [List.forall_mem_cons]
    exact ⟨rfl, rfl, rfl, rfl, rfl, rfl, List.forall_mem_nil _⟩
  rw [isspace, ← Bool.not_eq_true, List.contains_iff_mem]
  intro hmem
  rw [Numeral.isDigit, hspace c hmem, Option.any_none] at hc
  exact absurd hc Bool.false_ne_true

/-- A digit is no sign. -/
theorem sign_of_isDigit {base : Nat} {text : List Char}
    (htext : ∀ c ∈ text, Numeral.isDigit base c) : sign text = (false, text) := by
  have hminus : Numeral.isDigit base '-' = false := rfl
  have hplus : Numeral.isDigit base '+' = false := rfl
  unfold sign
  split
  · next =>
      have hdigit := htext '-' List.mem_cons_self
      rw [hminus] at hdigit
      exact absurd hdigit Bool.false_ne_true
  · next =>
      have hdigit := htext '+' List.mem_cons_self
      rw [hplus] at hdigit
      exact absurd hdigit Bool.false_ne_true
  · rfl

/-- The letter of the prefix is no digit of base 16. -/
theorem dropPrefix_of_isDigit {text : List Char}
    (htext : ∀ c ∈ text, Numeral.isDigit 16 c) : dropPrefix text = text := by
  unfold dropPrefix
  split
  · next => exact absurd (htext 'x' (by simp)) (by decide)
  · next => exact absurd (htext 'X' (by simp)) (by decide)
  · rfl

/-- The text of a number is read as that number. -/
theorem strtoul_toDigits {base : Nat} (hbase : 1 < base) (hbase' : base ≤ 16) (n : Nat) :
    strtoul base (Nat.toDigits base n) = BitParse.strtoul n := by
  have hdigits := Numeral.isDigit_of_mem_toDigits hbase hbase' n
  have hblanks : (Nat.toDigits base n).dropWhile isspace = Nat.toDigits base n := by
    rw [List.dropWhile_eq_self_iff]
    intro hlength
    rw [Bool.not_eq_true]
    exact isspace_of_isDigit (hdigits _ (List.getElem_mem hlength))
  have hprefix : (if base = 16 then dropPrefix (Nat.toDigits base n) else Nat.toDigits base n) =
      Nat.toDigits base n := by
    split
    · next h =>
        rw [h] at hdigits ⊢
        exact dropPrefix_of_isDigit hdigits
    · rfl
  simp only [strtoul, hblanks, sign_of_isDigit hdigits, hprefix,
    Numeral.number_toDigits hbase hbase', Bool.false_eq_true, if_false]
  rw [BitParse.strtoul]
  split
  · next h =>
      rw [Nat.min_eq_right (by omega)]
      rfl
  · next h => rw [Nat.min_eq_left (by omega)]

/-- On numerals, `main` does what it does on the numbers written in them. -/
theorem main_toDigits (flowOff : FlowOff) (name : List Char) (argv1 argv2 : Nat) :
    main flowOff [name, Nat.toDigits 16 argv1] = BitParse.main flowOff 2 argv1 argv2 ∧
      main flowOff [name, Nat.toDigits 16 argv1, Nat.toDigits 10 argv2] =
        BitParse.main flowOff 3 argv1 argv2 := by
  have hval : strtoul 16 (Nat.toDigits 16 argv1) = BitParse.strtoul argv1 :=
    strtoul_toDigits (by decide) (by decide) argv1
  have hlen : strtoul 10 (Nat.toDigits 10 argv2) = BitParse.strtoul argv2 :=
    strtoul_toDigits (by decide) (by decide) argv2
  constructor
  · simp only [main, hval]
    rfl
  · simp only [main, hval, hlen]
    rfl

/-! ## What a table tells -/

section Tables

variable (val : BitVec 64) (valBitLen : Byte)

/-- The digits of a table are those of a remainder. -/
theorem shown_table :
    shown (table val valBitLen) = val.toNat % 16 ^ (valBitLen.toNat / 4) := by
  have hpow : 16 ^ (valBitLen.toNat / 4) = 2 ^ (4 * (valBitLen.toNat / 4)) :=
    (Nat.pow_mul 2 4 _).symm
  have hlt : val.toNat % 16 ^ (valBitLen.toNat / 4) < 2 ^ (4 * (valBitLen.toNat / 4)) :=
    hpow ▸ Nat.mod_lt _ (Nat.pow_pos (by decide))
  rw [shown, valueLine_digits]
  simp only [Nat.toNat_testBit]
  rw [countdown, Numeral.value_digits, Nat.mod_eq_of_lt hlt]

/-- Two tables of one length are the same if and only if they tell the same. -/
theorem table_eq_iff (val' : BitVec 64) :
    table val' valBitLen = table val valBitLen ↔
      val'.toNat % 16 ^ (valBitLen.toNat / 4) = val.toNat % 16 ^ (valBitLen.toNat / 4) := by
  constructor
  · intro h
    rw [← shown_table, ← shown_table, h]
  · intro h
    have hpow : 16 ^ (valBitLen.toNat / 4) = 2 ^ (segBitLen * (valBitLen.toNat / segBitLen)) :=
      (Nat.pow_mul 2 4 _).symm
    have hcells : ∀ i ∈ countdown (segBitLen * (valBitLen.toNat / segBitLen)),
        valueCell val' i = valueCell val i := by
      intro i hi
      have hbits := congrArg (Nat.testBit · i) h
      simp only [hpow, Nat.testBit_mod_two_pow, mem_countdown.mp hi, decide_true,
        Bool.true_and, BitVec.testBit_toNat] at hbits
      simp only [valueCell, hbits]
    rw [table_eq_rows, table_eq_rows, List.map_congr_left hcells]

end Tables

/-- The arguments after the value leave no run without `usage`, or fix the length. -/
theorem main_cases (flowOff : FlowOff) (options : List (List Char)) :
    (∀ name argv1, main flowOff (name :: argv1 :: options) = .usage) ∨
      ∃ valBitLen : Byte, ∀ name argv1, main flowOff (name :: argv1 :: options) =
        if 0 = strtoul 16 argv1 then .usage
        else .ofParse flowOff (bitParse (strtoul 16 argv1) valBitLen) := by
  match options with
  | [] =>
      refine .inr ⟨32, fun name argv1 => ?_⟩
      simp [main, isParameterInvalid]
  | [argv2] =>
      by_cases hlen : 0#8 = (strtoul 10 argv2).setWidth 8
      · refine .inl fun name argv1 => ?_
        simp [main, isParameterInvalid, ← hlen]
      · refine .inr ⟨(strtoul 10 argv2).setWidth 8, fun name argv1 => ?_⟩
        simp [main, isParameterInvalid, hlen]
  | argv2 :: argv3 :: others =>
      refine .inl fun name argv1 => ?_
      simp [main, isParameterInvalid]

/-- A run that prints a table has a length that the other values get as well. -/
theorem main_parsed {flowOff : FlowOff} {name argv1 : List Char}
    {options : List (List Char)} {parser : Parser} {text : List Char}
    (hrun : main flowOff (name :: argv1 :: options) = .parsed parser text) :
    ∃ valBitLen : Byte, parser = bitParse (strtoul 16 argv1) valBitLen ∧
      text = table (strtoul 16 argv1) valBitLen ∧
      ∀ argv1', main flowOff (name :: argv1' :: options) =
        if 0 = strtoul 16 argv1' then .usage
        else .parsed (bitParse (strtoul 16 argv1') valBitLen)
          (table (strtoul 16 argv1') valBitLen) := by
  rcases main_cases flowOff options with hnone | hlength
  · rw [hnone] at hrun
    exact absurd hrun (by simp)
  · obtain ⟨valBitLen, hmain⟩ := hlength
    simp only [ofParse_bitParse] at hmain
    by_cases hdefined : flowOff = .returns ∧ valBitLen.toNat ≤ 67
    · simp only [if_pos hdefined] at hmain
      rw [hmain] at hrun
      split at hrun
      · exact absurd hrun (by simp)
      · next =>
          obtain ⟨hparser, htext⟩ := Outcome.parsed.inj hrun
          exact ⟨valBitLen, hparser.symm, htext.symm, hmain name⟩
    · rw [hmain, if_neg hdefined] at hrun
      split at hrun <;> exact absurd hrun (by simp)

/-- A number of 64 bits is read back from its numeral; it is rejected if it is 0. -/
theorem strtoul_toDigits_of_lt {number : Nat} (hlt : number < 2 ^ 64) :
    strtoul 16 (Nat.toDigits 16 number) = BitVec.ofNat 64 number ∧
      ((0 : BitVec 64) = BitVec.ofNat 64 number ↔ number = 0) := by
  constructor
  · rw [strtoul_toDigits (by decide) (by decide), BitParse.strtoul, Nat.min_eq_left (by omega)]
  · rw [← BitVec.toNat_inj, BitVec.toNat_ofNat, Nat.mod_eq_of_lt hlt, eq_comm]
    rfl

/-- **What a table tells of its number.**  A run that prints a table shows its number up to
a multiple of `16 ^ n`, where `n` is the number of whole segments; the number shown, given
in base 16 with the same options, prints the same table, unless it is 0 and is rejected;
and other numbers print the same table if and only if they agree up to a multiple of
`16 ^ n`. -/
theorem tables_agree_iff (flowOff : FlowOff) (name argv1 : List Char)
    (options : List (List Char)) (parser : Parser) (text : List Char)
    (hrun : main flowOff (name :: argv1 :: options) = .parsed parser text) :
    let n := parser.valBitLen / segBitLen
    shown text = (strtoul 16 argv1).toNat % 16 ^ n ∧
      main flowOff (name :: Nat.toDigits 16 (shown text) :: options) =
        (if shown text = 0 then .usage
         else .parsed { parser with val := BitVec.ofNat 64 (shown text) } text) ∧
      ∀ argv1' parser' text',
        main flowOff (name :: argv1' :: options) = .parsed parser' text' →
          (text' = text ↔
            (strtoul 16 argv1').toNat % 16 ^ n = (strtoul 16 argv1).toNat % 16 ^ n) := by
  obtain ⟨valBitLen, rfl, rfl, hmain⟩ := main_parsed hrun
  have hshown := shown_table (strtoul 16 argv1) valBitLen
  refine ⟨hshown, ?_, ?_⟩
  · generalize shown (table (strtoul 16 argv1) valBitLen) = number at hshown ⊢
    have hlt : number < 2 ^ 64 := by
      rw [hshown]
      exact Nat.lt_of_le_of_lt (Nat.mod_le _ _) (strtoul 16 argv1).isLt
    obtain ⟨hread, hzero⟩ := strtoul_toDigits_of_lt hlt
    have htable : table (BitVec.ofNat 64 number) valBitLen =
        table (strtoul 16 argv1) valBitLen := by
      rw [table_eq_iff, BitVec.toNat_ofNat, Nat.mod_eq_of_lt hlt, hshown, Nat.mod_mod]
    rw [hmain, hread, htable]
    simp only [hzero]
    rfl
  · intro argv1' parser' text' hrun'
    rw [hmain] at hrun'
    split at hrun'
    · exact absurd hrun' (by simp)
    · next =>
        obtain ⟨_, rfl⟩ := Outcome.parsed.inj hrun'
        exact table_eq_iff (strtoul 16 argv1) valBitLen (strtoul 16 argv1')

/-- The number `-1` fills 64 bits, of which the table shows eight, as it does for `ff`. -/
theorem tables_agree_iff_minus_one :
    shown (table (BitVec.allOnes 64) 8) = 255 ∧
      main .returns [['p'], ['f', 'f'], ['8']] =
        .parsed (bitParse 255 8) (table (BitVec.allOnes 64) 8) := by
  obtain ⟨hshown, hagain, _⟩ := tables_agree_iff .returns ['p'] [' ', '-', '1'] [['8']]
    (bitParse (BitVec.allOnes 64) 8) (table (BitVec.allOnes 64) 8) (by decide +kernel)
  have hnumber : shown (table (BitVec.allOnes 64) 8) = 255 :=
    hshown.trans (by decide +kernel)
  rw [hnumber] at hagain
  exact ⟨hnumber, hagain⟩

end BmcCodes.BitParse.Text
