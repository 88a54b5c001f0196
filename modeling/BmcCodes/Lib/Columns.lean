import Mathlib.Algebra.Group.Nat.Defs
import Mathlib.Data.List.Basic

/-!
# Tables printed as text

A row of a table is a line of cells, and the reader of a table sees the words of a line,
each at the position where it starts, and the bars.  Two rows whose cells have the same
widths and bars have their columns in the same places, whatever their texts.

* `words`, `bars` — what is seen of a line.
* `words_row`, `bars_row` — what is seen of a row.
* `zeroPadded` — the decimal numbers that `printf` pads with zeros.
-/

namespace BmcCodes.Lib.Columns

/-- What separates the words of a line. -/
def isGap (c : Char) : Bool := c = ' ' ∨ c = '|'

/-- The words of what follows `word`, the beginning of a word that starts at position
`start`, or the empty word. -/
def scan (start : Nat) (word : List Char) : List Char → List (Nat × List Char)
  | [] => if word = [] then [] else [(start, word)]
  | c :: cs =>
      if isGap c then
        if word = [] then scan (start + 1) [] cs
        else (start, word) :: scan (start + word.length + 1) [] cs
      else scan start (word ++ [c]) cs

/-- The words of a line that starts at position `p`, each with its own position. -/
def words (p : Nat) (line : List Char) : List (Nat × List Char) := scan p [] line

/-- The positions of the bars. -/
def bars (p : Nat) (line : List Char) : List Nat := line.findIdxs (· = '|') p

theorem words_gaps (p : Nat) {gap : List Char} (cs : List Char) (hgap : ∀ c ∈ gap, isGap c) :
    words p (gap ++ cs) = words (p + gap.length) cs := by
  unfold words
  induction gap generalizing p with
  | nil => rfl
  | cons c gap ih =>
      have hrest := ih (p + 1) fun d hd => hgap d (List.mem_cons_of_mem c hd)
      rw [List.cons_append, scan, if_pos (hgap c List.mem_cons_self), if_pos rfl, hrest,
        List.length_cons, Nat.add_assoc, Nat.add_comm 1]

/-- A word ends at a gap. -/
theorem scan_word (start : Nat) {seen word : List Char} (g : Char) (cs : List Char)
    (hne : seen ++ word ≠ []) (hword : ∀ c ∈ word, isGap c = false) (hg : isGap g) :
    scan start seen (word ++ g :: cs) =
      (start, seen ++ word) :: words (start + (seen ++ word).length + 1) cs := by
  induction word generalizing seen with
  | nil =>
      rw [List.append_nil] at hne ⊢
      rw [List.nil_append, scan, if_pos hg, if_neg hne, words]
  | cons c word ih =>
      have hc := hword c List.mem_cons_self
      rw [List.append_cons] at hne
      rw [List.cons_append, scan, hc, if_neg Bool.false_ne_true,
        ih hne fun d hd => hword d (List.mem_cons_of_mem c hd), ← List.append_cons]

/-! ## Lines -/

def firstLine (text : List Char) : List Char := text.takeWhile (· ≠ '\n')

def otherLines (text : List Char) : List Char := (text.dropWhile (· ≠ '\n')).tail

theorem firstLine_append {line : List Char} (rest : List Char) (hline : '\n' ∉ line) :
    firstLine (line ++ '\n' :: rest) = line := by
  have hall : ∀ c ∈ line, decide (c ≠ '\n') := fun c hc =>
    decide_eq_true (ne_of_mem_of_not_mem hc hline)
  rw [firstLine, List.takeWhile_append_of_pos hall, List.takeWhile_cons_of_neg (by simp),
    List.append_nil]

theorem otherLines_append {line : List Char} (rest : List Char) (hline : '\n' ∉ line) :
    otherLines (line ++ '\n' :: rest) = rest := by
  have hall : ∀ c ∈ line, decide (c ≠ '\n') := fun c hc =>
    decide_eq_true (ne_of_mem_of_not_mem hc hline)
  rw [otherLines, List.dropWhile_append_of_pos hall, List.dropWhile_cons_of_neg (by simp),
    List.tail_cons]

/-! ## Rows -/

/-- A cell: a word, the blanks after it, and perhaps a bar. -/
structure Cell where
  text : List Char
  blanks : Nat
  bar : Bool
  text_ne_nil : text ≠ []
  isGap_text : ∀ c ∈ text, isGap c = false
  blanks_pos : 0 < blanks

namespace Cell

/-- What follows the word. -/
def gap (c : Cell) : List Char :=
  List.replicate c.blanks ' ' ++ if c.bar then ['|'] else []

def print (c : Cell) : List Char := c.text ++ c.gap

/-- The width of a cell, and whether it ends with a bar. -/
def shape (c : Cell) : Nat × Bool := (c.text.length + c.blanks, c.bar)

theorem isGap_gap (c : Cell) : ∀ d ∈ c.gap, isGap d := by
  intro d hd
  rcases List.mem_append.mp hd with hblank | hbar
  · rw [List.eq_of_mem_replicate hblank]
    rfl
  · split at hbar
    · rw [List.mem_singleton.mp hbar]
      rfl
    · simp at hbar

theorem gap_ne_nil (c : Cell) : c.gap ≠ [] := by
  intro h
  have hblanks := (List.append_eq_nil_iff.mp h).1
  rw [List.replicate_eq_nil_iff] at hblanks
  exact absurd c.blanks_pos (by omega)

end Cell

/-- The line of a row. -/
def row (cells : List Cell) : List Char := cells.flatMap Cell.print

/-- The position after a cell of this shape. -/
def after (p : Nat) (shape : Nat × Bool) : Nat := p + shape.1 + if shape.2 then 1 else 0

/-- The positions at which cells of these shapes start. -/
def starts (p : Nat) : List (Nat × Bool) → List Nat
  | [] => []
  | shape :: shapes => p :: starts (after p shape) shapes

/-- The positions of their bars. -/
def barPositions (p : Nat) : List (Nat × Bool) → List Nat
  | [] => []
  | shape :: shapes =>
      (if shape.2 then [p + shape.1] else []) ++ barPositions (after p shape) shapes

theorem length_print (p : Nat) (c : Cell) : p + c.print.length = after p c.shape := by
  unfold Cell.print Cell.gap after Cell.shape
  cases c.bar
  · simp
  · simp
    omega

/-- **What is seen of a row**: the texts of its cells, at positions that depend on the
shapes of the cells only. -/
theorem words_row (p : Nat) (cells : List Cell) :
    words p (row cells) = (starts p (cells.map Cell.shape)).zip (cells.map Cell.text) := by
  induction cells generalizing p with
  | nil => rfl
  | cons c cells ih =>
      obtain ⟨g, gap, hgap⟩ := List.exists_cons_of_ne_nil c.gap_ne_nil
      have hgaps : ∀ d ∈ g :: gap, isGap d := hgap ▸ c.isGap_gap
      have hrow : row (c :: cells) = c.text ++ g :: (gap ++ row cells) := by
        rw [row, List.flatMap_cons, Cell.print, hgap, List.append_assoc, List.cons_append]
        rfl
      have hprint : p + c.text.length + 1 + gap.length = after p c.shape := by
        rw [← length_print, Cell.print, hgap, List.length_append, List.length_cons]
        omega
      have hne : [] ++ c.text ≠ [] := c.text_ne_nil
      rw [hrow, words, scan_word p g _ hne c.isGap_text (hgaps g List.mem_cons_self),
        words_gaps _ _ fun d hd => hgaps d (List.mem_cons_of_mem g hd), List.nil_append,
        hprint, ih]
      rfl

theorem length_starts (p : Nat) (shapes : List (Nat × Bool)) :
    (starts p shapes).length = shapes.length := by
  induction shapes generalizing p with
  | nil => rfl
  | cons shape shapes ih => rw [starts, List.length_cons, List.length_cons, ih]

theorem length_words_row (p : Nat) (cells : List Cell) :
    (words p (row cells)).length = cells.length := by
  rw [words_row, List.length_zip, length_starts, List.length_map, List.length_map,
    Nat.min_self]

theorem map_fst_words_row (p : Nat) (cells : List Cell) :
    (words p (row cells)).map Prod.fst = starts p (cells.map Cell.shape) := by
  rw [words_row]
  exact List.map_fst_zip (by simp [length_starts])

theorem map_snd_words_row (p : Nat) (cells : List Cell) :
    (words p (row cells)).map Prod.snd = cells.map Cell.text := by
  rw [words_row]
  exact List.map_snd_zip (by simp [length_starts])

theorem bars_print (p : Nat) (c : Cell) :
    bars p c.print = if c.bar then [p + c.shape.1] else [] := by
  have htext : bars p c.text = [] := by
    rw [bars, List.findIdxs_eq_nil_iff]
    intro d hd
    have hgap := c.isGap_text d hd
    simp only [isGap, decide_eq_false_iff_not, not_or] at hgap
    exact decide_eq_false hgap.2
  have hblanks : ∀ q, (List.replicate c.blanks ' ').findIdxs (· = '|') q = [] := by
    intro q
    rw [List.findIdxs_eq_nil_iff]
    intro d hd
    rw [List.eq_of_mem_replicate hd]
    rfl
  rw [bars] at htext
  rw [bars, Cell.print, Cell.gap, List.findIdxs_append, List.findIdxs_append, htext, hblanks]
  cases c.bar <;> simp [Cell.shape, Nat.add_assoc]

theorem bars_row (p : Nat) (cells : List Cell) :
    bars p (row cells) = barPositions p (cells.map Cell.shape) := by
  induction cells generalizing p with
  | nil => rfl
  | cons c cells ih =>
      have hsplit : bars p (row (c :: cells)) =
          bars p c.print ++ bars (p + c.print.length) (row cells) :=
        List.findIdxs_append
      rw [hsplit, bars_print, length_print, ih]
      rfl

/-! ## Numbers -/

/-- The decimal digits of a number, padded with zeros to the width `w`. -/
def zeroPadded (w n : Nat) : List Char := (Nat.toDigits 10 n).leftpad w '0'

/-- The number that a word shows. -/
def number (word : List Char) : Nat := Nat.ofDigitChars 10 word 0

theorem number_zeroPadded (w n : Nat) : number (zeroPadded w n) = n := by
  unfold number zeroPadded List.leftpad
  rw [Nat.ofDigitChars_append, Nat.ofDigitChars_replicate_zero, Nat.mul_zero,
    Nat.ofDigitChars_ten_toDigits]

theorem zeroPadded_ne_nil (w n : Nat) : zeroPadded w n ≠ [] := by
  simp [zeroPadded, List.leftpad]

theorem length_zeroPadded {w n : Nat} (hw : 0 < w) (hn : n < 10 ^ w) :
    (zeroPadded w n).length = w := by
  have hlength := (Nat.length_toDigits_le_iff (by decide : 1 < 10) hw).mpr hn
  rw [zeroPadded, List.length_leftpad, Nat.max_eq_left hlength]

theorem isDigit_zeroPadded (w n : Nat) : ∀ c ∈ zeroPadded w n, c.isDigit := by
  intro c hc
  rcases List.mem_append.mp hc with hzero | hdigits
  · rw [List.eq_of_mem_replicate hzero]
    rfl
  · exact Nat.isDigit_of_mem_toDigits (by decide) (by decide) hdigits

theorem isGap_zeroPadded (w n : Nat) : ∀ c ∈ zeroPadded w n, isGap c = false := by
  intro c hc
  have hdigit := isDigit_zeroPadded w n c hc
  rw [isGap, decide_eq_false_iff_not, not_or]
  constructor <;> intro h <;> rw [h] at hdigit <;> exact absurd hdigit (by decide)

end BmcCodes.Lib.Columns
