import BmcCodes.BitParse.Printer

/-!
# Bits under their numbers

`parse` prints two lines: the numbers of the bits, one loop over the bits, and the
digits, a loop over the segments.  Both are rows of cells of the same shapes, but the
second has whole segments only.  So the lines agree exactly when the length is a
multiple of the segment's, provided that a call prints them at all.
-/

namespace BmcCodes.BitParse

open BmcCodes.Lib.Columns

/-- The first four characters of a line are its margin. -/
def columns (line : List Char) : List (Nat × List Char) := words 4 (line.drop 4)

def tagLine (text : List Char) : List Char := firstLine text

def valueLine (text : List Char) : List Char := firstLine (otherLines text)

/-- The two lines of `text` show the bits `n - 1` to `0` of a value: the columns and the
bars are in the same places, and under the number of a bit stands the bit. -/
structure ShowsBits (val : BitVec 64) (n : Nat) (text : List Char) : Prop where
  sameColumns : (columns (tagLine text)).map Prod.fst = (columns (valueLine text)).map Prod.fst
  sameBars : bars 0 (tagLine text) = bars 0 (valueLine text)
  tags : (columns (tagLine text)).map (fun c => number c.2) = countdown n
  digits : (columns (valueLine text)).map (fun c => number c.2) =
    (countdown n).map fun i => (val.getLsbD i).toNat

/-! ## The lines as rows -/

theorem countdown_succ (n : Nat) : countdown (n + 1) = n :: countdown n := by
  rw [countdown, List.range_succ, List.reverse_append, List.reverse_singleton,
    List.singleton_append]
  rfl

theorem length_countdown (n : Nat) : (countdown n).length = n := by
  rw [countdown, List.length_reverse, List.length_range]

theorem mem_countdown {i n : Nat} : i ∈ countdown n ↔ i < n := by
  rw [countdown, List.mem_reverse, List.mem_range]

/-- A number of one of the two lines, with the blanks after it.  The last bit of a
segment is followed by a bar. -/
def cell (width blanks i n : Nat) (hblanks : 0 < blanks) : Cell where
  text := zeroPadded width n
  blanks := blanks
  bar := i % segBitLen = 0
  text_ne_nil := zeroPadded_ne_nil width n
  isGap_text := isGap_zeroPadded width n
  blanks_pos := hblanks

/-- The cell of bit `i` in the line of the numbers. -/
def tagCell (i : Nat) : Cell := cell 2 1 i i (by decide)

/-- The cell of bit `i` in the line of the digits. -/
def valueCell (val : BitVec 64) (i : Nat) : Cell :=
  cell 1 2 i (val.getLsbD i).toNat (by decide)

/-- A row of numbers is one line. -/
theorem newline_notMem_row (width blanks : Nat) (number : Nat → Nat) (hblanks : 0 < blanks)
    (is : List Nat) :
    '\n' ∉ row (is.map fun i => cell width blanks i (number i) hblanks) := by
  intro h
  obtain ⟨c, hc, hprint⟩ := List.mem_flatMap.mp h
  obtain ⟨i, _, rfl⟩ := List.mem_map.mp hc
  rcases List.mem_append.mp hprint with htext | hgap
  · exact absurd (isDigit_zeroPadded width (number i) _ htext) (by decide)
  · exact absurd (Cell.isGap_gap _ _ hgap) (by decide)

/-- The segment holds the bits of the value. -/
theorem bitOfSeg_segOfVal (val : BitVec 64) (s : Nat) {i : Nat} (hi : i < segBitLen) :
    (bitOfSeg ((segOfVal val s).setWidth 8) i).toNat =
      (val.getLsbD (segBitLen * s + i)).toNat := by
  have hmask : ∀ i < segBitLen, (0xf : BitVec 64).getLsbD i = true := by decide
  have hi8 : i < 8 := Nat.lt_trans hi (by decide)
  have hbit : ((segOfVal val s).setWidth 8 >>> i).getLsbD 0 =
      val.getLsbD (segBitLen * s + i) := by
    rw [BitVec.getLsbD_ushiftRight, Nat.add_zero, BitVec.getLsbD_setWidth, segOfVal,
      BitVec.getLsbD_and, BitVec.getLsbD_ushiftRight, hmask i hi, decide_eq_true hi8,
      Bool.true_and, Bool.and_true, Nat.mul_comm]
  have hone : ∀ b, ((BitVec.ofBool b).setWidth 8).toNat = b.toNat := by decide
  rw [← hbit, ← hone]
  exact congrArg _ BitVec.and_one_eq_setWidth_ofBool_getLsbD

theorem print_cell (width blanks i n : Nat) (hblanks : 0 < blanks) :
    (cell width blanks i n hblanks).print = zeroPadded width n ++
      (List.replicate blanks ' ' ++ if i % segBitLen = 0 then ['|'] else []) := by
  simp only [Cell.print, Cell.gap, cell, decide_eq_true_eq]

/-- A segment prints its bits. -/
theorem printSegvalWithBit_row (val : BitVec 64) (s : Nat) :
    printSegvalWithBit ((segOfVal val s).setWidth 8) =
      row ((countdown segBitLen).map fun i => valueCell val (segBitLen * s + i)) := by
  have hbits : countdown segBitLen = [3, 2, 1, 0] := rfl
  have hlast : ∀ i < segBitLen, (segBitLen * s + i) % segBitLen = i := by
    intro i hi
    rw [Nat.mul_add_mod, Nat.mod_eq_of_lt hi]
  rw [printSegvalWithBit, row, hbits]
  simp only [List.flatMap_cons, List.flatMap_nil, List.map_cons, List.map_nil, valueCell,
    print_cell]
  rw [hlast 3 (by decide), hlast 2 (by decide), hlast 1 (by decide), hlast 0 (by decide),
    bitOfSeg_segOfVal val s (by decide), bitOfSeg_segOfVal val s (by decide),
    bitOfSeg_segOfVal val s (by decide), bitOfSeg_segOfVal val s (by decide)]
  simp [List.replicate]

theorem countdown_add (m n : Nat) :
    countdown (m + n) = (countdown n).map (m + ·) ++ countdown m := by
  rw [countdown, List.range_add, List.reverse_append, ← List.map_reverse]
  rfl

/-- The segments print the bits of the value. -/
theorem segments_row (val : BitVec 64) (n : Nat) :
    ((countdown n).flatMap fun s => printSegvalWithBit ((segOfVal val s).setWidth 8)) =
      row ((countdown (segBitLen * n)).map (valueCell val)) := by
  induction n with
  | zero => rfl
  | succ n ih =>
      rw [countdown_succ, List.flatMap_cons, ih, printSegvalWithBit_row, Nat.mul_succ,
        countdown_add, List.map_append, List.map_map, row, row, row, List.flatMap_append]
      rfl

/-! ## The two lines -/

/-- What a call prints, if the segments of the value come first in the vector. -/
theorem printLines_pushSegments {p : Parser} (hfirst : ∀ i < p.valBitLen / segBitLen,
    (pushSegments p).segment.getD i 0 = (segOfVal p.val i).setWidth 8) :
    printLines (pushSegments p) = printBitTag p ++ [' ', ' ', ' ', ' '] ++
      ((countdown (p.valBitLen / segBitLen)).flatMap fun i =>
        printSegvalWithBit ((segOfVal p.val i).setWidth 8)) ++ ['\n'] := by
  have hsegments : ∀ i ∈ countdown (p.valBitLen / segBitLen),
      printSegvalWithBit ((pushSegments p).segment.getD i 0) =
        printSegvalWithBit ((segOfVal p.val i).setWidth 8) := by
    intro i hi
    rw [hfirst i (mem_countdown.mp hi)]
  rw [← List.flatMap_congr hsegments]
  rfl

/-- What the first call prints, where it is defined. -/
def table (val : BitVec 64) (valBitLen : Byte) : List Char :=
  printLines (pushSegments (bitParse val valBitLen))

section Lines

variable (val : BitVec 64) (valBitLen : Byte)

/-- The first call finds the vector empty. -/
theorem table_eq_segments :
    table val valBitLen =
      printBitTag (bitParse val valBitLen) ++ [' ', ' ', ' ', ' '] ++
        ((countdown (valBitLen.toNat / segBitLen)).flatMap fun i =>
          printSegvalWithBit ((segOfVal val i).setWidth 8)) ++ ['\n'] := by
  refine printLines_pushSegments fun i hi => ?_
  have hi' : i < valBitLen.toNat / segBitLen := hi
  simp [pushSegments, bitParse, List.getD_eq_getElem?_getD, hi']

/-- What is printed: a row for all the bits, and a row for those of the whole segments. -/
theorem table_eq_rows :
    table val valBitLen =
      (['b', 'i', 't', ' '] ++ row ((countdown valBitLen.toNat).map tagCell)) ++ '\n' ::
        (([' ', ' ', ' ', ' '] ++ row ((countdown
          (segBitLen * (valBitLen.toNat / segBitLen))).map (valueCell val))) ++ '\n' :: []) := by
  have htags : ((countdown valBitLen.toNat).flatMap fun i =>
      zeroPadded 2 i ++ [' '] ++ if i % segBitLen = 0 then ['|'] else []) =
      row ((countdown valBitLen.toNat).map tagCell) := by
    rw [row, List.flatMap_map]
    simp only [tagCell, print_cell, List.append_assoc]
    rfl
  have hline : printBitTag (bitParse val valBitLen) =
      ['b', 'i', 't', ' '] ++ ((countdown valBitLen.toNat).flatMap fun i =>
        zeroPadded 2 i ++ [' '] ++ if i % segBitLen = 0 then ['|'] else []) ++ ['\n'] := rfl
  rw [table_eq_segments, hline, htags, segments_row]
  simp

theorem newline_notMem_tags : '\n' ∉
    ['b', 'i', 't', ' '] ++ row ((countdown valBitLen.toNat).map tagCell) :=
  List.not_mem_append (by decide) (newline_notMem_row 2 1 id (by decide) _)

theorem tagLine_table : tagLine (table val valBitLen) =
    ['b', 'i', 't', ' '] ++ row ((countdown valBitLen.toNat).map tagCell) := by
  rw [table_eq_rows, tagLine, firstLine_append _ (newline_notMem_tags valBitLen)]

theorem valueLine_table : valueLine (table val valBitLen) =
    [' ', ' ', ' ', ' '] ++ row ((countdown
      (segBitLen * (valBitLen.toNat / segBitLen))).map (valueCell val)) := by
  rw [table_eq_rows, valueLine, otherLines_append _ (newline_notMem_tags valBitLen)]
  exact firstLine_append _ (List.not_mem_append (by decide)
    (newline_notMem_row 1 2 (fun i => (val.getLsbD i).toNat) (by decide) _))

end Lines

/-! ## What is seen of them -/

theorem columns_line {margin : List Char} (hmargin : margin.length = 4) (cells : List Cell) :
    columns (margin ++ row cells) = words 4 (row cells) := by
  rw [columns, List.drop_left' hmargin]

theorem bars_line {margin : List Char} (hmargin : margin.length = 4) (hbar : '|' ∉ margin)
    (cells : List Cell) :
    bars 0 (margin ++ row cells) = barPositions 4 (cells.map Cell.shape) := by
  have hnone : margin.findIdxs (· = '|') = [] := by
    rw [List.findIdxs_eq_nil_iff]
    intro c hc
    exact decide_eq_false (ne_of_mem_of_not_mem hc hbar)
  rw [bars, List.findIdxs_append, hnone, hmargin, ← bars_row]
  rfl

/-- The numbers that a row of cells shows. -/
theorem map_number_words_row (p width blanks : Nat) (f : Nat → Nat) (hblanks : 0 < blanks)
    (is : List Nat) :
    (words p (row (is.map fun i => cell width blanks i (f i) hblanks))).map
      (fun c => number c.2) = is.map f := by
  have hsnd := congrArg (List.map number) (map_snd_words_row p
    (is.map fun i => cell width blanks i (f i) hblanks))
  rw [List.map_map, List.map_map, List.map_map] at hsnd
  exact hsnd.trans (List.map_congr_left fun i _ => number_zeroPadded width (f i))

theorem shape_cell {width n : Nat} (blanks i : Nat) (hblanks : 0 < blanks)
    (hwidth : 0 < width) (hn : n < 10 ^ width) :
    (cell width blanks i n hblanks).shape = (width + blanks, decide (i % segBitLen = 0)) := by
  rw [Cell.shape, cell, length_zeroPadded hwidth hn]

/-- A number below 100 and a digit take up the same room. -/
theorem shape_tagCell {i : Nat} (hi : i < 100) :
    (tagCell i).shape = (3, decide (i % segBitLen = 0)) :=
  shape_cell 1 i _ (by decide) hi

theorem shape_valueCell (val : BitVec 64) (i : Nat) :
    (valueCell val i).shape = (3, decide (i % segBitLen = 0)) := by
  have hbit : (val.getLsbD i).toNat < 10 ^ 1 := by
    cases val.getLsbD i <;> decide
  exact shape_cell 2 i _ (by decide) hbit

/-- The rows agree if they have whole segments only. -/
theorem showsBits_table_iff (val : BitVec 64) (valBitLen : Byte)
    (hlen : valBitLen.toNat ≤ 64) :
    ShowsBits val valBitLen.toNat (table val valBitLen) ↔ segBitLen ∣ valBitLen.toNat := by
  have htag := tagLine_table val valBitLen
  have hvalue := valueLine_table val valBitLen
  constructor
  · intro h
    have hcolumns := congrArg List.length h.sameColumns
    rw [htag, hvalue, columns_line rfl, columns_line rfl, List.length_map, List.length_map,
      length_words_row, length_words_row, List.length_map, List.length_map, length_countdown,
      length_countdown] at hcolumns
    exact ⟨valBitLen.toNat / segBitLen, hcolumns⟩
  · intro hdvd
    rw [Nat.mul_div_cancel' hdvd] at hvalue
    have hshapes : ((countdown valBitLen.toNat).map tagCell).map Cell.shape =
        ((countdown valBitLen.toNat).map (valueCell val)).map Cell.shape := by
      rw [List.map_map, List.map_map]
      apply List.map_congr_left
      intro i hi
      have hi' := mem_countdown.mp hi
      exact (shape_tagCell (by omega)).trans (shape_valueCell val i).symm
    constructor
    · rw [htag, hvalue, columns_line rfl, columns_line rfl, map_fst_words_row,
        map_fst_words_row, hshapes]
    · rw [htag, hvalue, bars_line rfl (by decide), bars_line rfl (by decide), hshapes]
    · rw [htag, columns_line rfl]
      exact (map_number_words_row 4 2 1 id (by decide) _).trans (List.map_id _)
    · rw [hvalue, columns_line rfl]
      exact map_number_words_row 4 1 2 (fun i => (val.getLsbD i).toNat) (by decide) _

/-- **When the bits stand under their numbers**: if and only if the call is defined to go
on, and their number is a multiple of the length of a segment. -/
theorem showsBits_iff_dvd (flowOff : FlowOff) (val : BitVec 64) (valBitLen : Byte)
    (hlen : valBitLen.toNat ≤ 64) :
    (∃ result ∈ parse flowOff (bitParse val valBitLen),
        ShowsBits val valBitLen.toNat result.2) ↔
      flowOff = .returns ∧ segBitLen ∣ valBitLen.toNat := by
  have hshort : (bitParse val valBitLen).valBitLen ≤ 67 := Nat.le_trans hlen (by decide)
  rw [exists_mem_parse_iff, and_iff_left hshort]
  exact and_congr_right fun _ => showsBits_table_iff val valBitLen hlen

/-- Eight bits stand under their numbers. -/
theorem showsBits_iff_dvd_eight :
    ∃ result ∈ parse .returns (bitParse 0xA5 8), ShowsBits 0xA5 8 result.2 :=
  (showsBits_iff_dvd .returns 0xA5 8 (by decide)).mpr ⟨rfl, by decide⟩

/-- Of six bits, the upper two have a number and no digit: bit 5 is set, and below the
number 05 stands bit 3. -/
theorem six_bits_misaligned :
    ¬ ∃ result ∈ parse .returns (bitParse 0x21 6), ShowsBits 0x21 6 result.2 := by
  rw [exists_mem_parse_iff]
  intro h
  exact absurd h.2.digits (by decide)

end BmcCodes.BitParse
