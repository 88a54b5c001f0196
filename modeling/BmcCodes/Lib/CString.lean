import BmcCodes.Lib.CInt
import Mathlib.Data.List.TakeWhile

/-!
# Texts that end at a terminator

A buffer holds a text up to its first terminator, or up to its end if there is
none.  Functions that take such a text look at a prefix of the buffer; this file
says what the prefixes of a buffer tell about its text.

* `strncmp_eq_zero_iff`, `strncmp_word_eq_zero_iff` — what `strncmp` compares.
-/

namespace BmcCodes.Lib.CString

variable {α : Type*} [DecidableEq α] (nul : α)

/-- The elements before the first terminator, or all of them. -/
def text (l : List α) : List α := l.takeWhile (· ≠ nul)

theorem text_cons (a : α) (l : List α) :
    text nul (a :: l) = if a = nul then [] else a :: text nul l := by
  rw [text, List.takeWhile_cons]
  by_cases ha : a = nul <;> simp [ha, text]

theorem length_text_le (l : List α) : (text nul l).length ≤ l.length :=
  (List.takeWhile_sublist _).length_le

/-- A buffer without a terminator is its own text. -/
theorem text_eq_self_iff (l : List α) : text nul l = l ↔ nul ∉ l := by
  simp only [text, List.takeWhile_eq_self_iff, decide_eq_true_eq]
  exact ⟨fun h hmem => h nul hmem rfl, fun h a ha hnul => h (hnul ▸ ha)⟩

/-- A text that has the length of its buffer is the whole of it. -/
theorem text_eq_self_of_length {l : List α} (h : l.length ≤ (text nul l).length) :
    text nul l = l :=
  (List.takeWhile_prefix _).eq_of_length_le h

theorem text_append_nul {l : List α} (h : nul ∉ l) (l' : List α) :
    text nul (l ++ nul :: l') = l := by
  induction l with
  | nil => simp [text_cons]
  | cons a l ih =>
      rw [List.mem_cons, not_or] at h
      rw [List.cons_append, text_cons, if_neg (Ne.symm h.1), ih h.2]

/-- The text of a prefix is a prefix of the text. -/
theorem text_take (l : List α) (n : Nat) : text nul (l.take n) = (text nul l).take n :=
  List.take_takeWhile.symm

/-- The text goes beyond `k` elements if no terminator ends it there. -/
theorem lt_length_text_iff (l : List α) (k : Nat) :
    k < (text nul l).length ↔ k < l.length ∧ nul ∉ l.take (k + 1) := by
  induction l generalizing k with
  | nil => simp [text]
  | cons a l ih =>
      rw [text_cons, List.take_succ_cons, List.mem_cons, List.length_cons]
      by_cases ha : a = nul
      · simp [ha]
      · rw [if_neg ha, List.length_cons]
        cases k with
        | zero => simp [Ne.symm ha]
        | succ k =>
            rw [Nat.add_lt_add_iff_right, Nat.add_lt_add_iff_right, ih k]
            simp [Ne.symm ha]

/-! ## Comparison -/

/-- `strncmp`.  The buffers are read up to `n` bytes, which they must have. -/
def strncmp : (n : Nat) → (left right : List Byte) → Int
  | n + 1, a :: left, b :: right =>
      if a ≠ b then a.toNat - b.toNat
      else if a = 0 then 0
      else strncmp n left right
  | _, _, _ => 0

/-- `strncmp` finds no difference exactly when the texts are equal as far as it
looks. -/
theorem strncmp_eq_zero_iff (n : Nat) (left right : List Byte) (hleft : n ≤ left.length)
    (hright : n ≤ right.length) :
    strncmp n left right = 0 ↔ text 0 (left.take n) = text 0 (right.take n) := by
  induction n generalizing left right with
  | zero => simp [strncmp]
  | succ n ih =>
      obtain ⟨a, left, rfl⟩ := List.exists_cons_of_length_pos (Nat.zero_lt_of_lt hleft)
      obtain ⟨b, right, rfl⟩ := List.exists_cons_of_length_pos (Nat.zero_lt_of_lt hright)
      rw [strncmp, List.take_succ_cons, List.take_succ_cons, text_cons, text_cons]
      by_cases hab : a = b
      · subst hab
        rw [if_neg (not_not.mpr rfl)]
        by_cases ha : a = 0
        · rw [if_pos ha, if_pos ha, if_pos ha]
          exact iff_of_true rfl rfl
        · rw [if_neg ha, if_neg ha, if_neg ha, List.cons_inj_right]
          exact ih left right (Nat.le_of_succ_le_succ hleft) (Nat.le_of_succ_le_succ hright)
      · rw [if_pos hab]
        refine iff_of_false ?_ ?_
        · intro h
          exact hab (BitVec.eq_of_toNat_eq (by omega))
        · split <;> split <;> simp_all

theorem strncmp_eq_zero_comm (n : Nat) (left right : List Byte) :
    strncmp n left right = 0 ↔ strncmp n right left = 0 := by
  induction n generalizing left right with
  | zero => exact Iff.rfl
  | succ n ih =>
      cases left with
      | nil => cases right <;> exact Iff.rfl
      | cons a left =>
          cases right with
          | nil => exact Iff.rfl
          | cons b right =>
              rw [strncmp, strncmp]
              by_cases hab : a = b
              · subst hab
                simp only [ne_eq, not_true_eq_false, if_false]
                split
                · exact Iff.rfl
                · exact ih left right
              · rw [if_pos hab, if_pos (Ne.symm hab)]
                omega

/-- Over the length of a word, the word is equal to the texts that begin with it. -/
theorem strncmp_word_eq_zero_iff {word text : List Byte} (hword : 0 ∉ word) :
    strncmp word.length word (text ++ [0]) = 0 ↔ word <+: text := by
  induction word generalizing text with
  | nil => exact iff_of_true rfl List.nil_prefix
  | cons a word ih =>
      rw [List.mem_cons, not_or] at hword
      obtain ⟨ha, hrest⟩ := hword
      cases text with
      | nil =>
          rw [List.length_cons, List.nil_append, strncmp, if_pos (Ne.symm ha)]
          exact iff_of_false (fun h => ha (BitVec.eq_of_toNat_eq (by omega))) (by simp)
      | cons b text =>
          rw [List.length_cons, List.cons_append, strncmp, List.cons_prefix_cons]
          by_cases hab : a = b
          · subst hab
            rw [if_neg (not_not.mpr rfl), if_neg (Ne.symm ha), ih hrest]
            exact (and_iff_right rfl).symm
          · rw [if_pos hab]
            exact iff_of_false (fun h => hab (BitVec.eq_of_toNat_eq (by omega))) fun h => hab h.1

end BmcCodes.Lib.CString
