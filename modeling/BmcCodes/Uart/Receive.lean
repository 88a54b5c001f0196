import BmcCodes.Lib.CInt
import BmcCodes.Lib.CString

/-!
# Printing what the display sends

Under the option `recv`, `main` of `uart_raw.c` clears a buffer, reads into it and prints
it as a string, again and again.  Clearing the buffer puts a NUL after every chunk that
does not fill it; a read that fills the buffer leaves none, and the string runs on behind
it.
-/

namespace BmcCodes.Uart.UartRaw

open BmcCodes.Lib

/-! ## The loop -/

/-- `sizeof(rev)`. -/
def revSize : Nat := 128

/-- What one `read` does: it fails, or it stores some bytes, or none, in the buffer. -/
inductive Reading where
  | failure
  | bytes (data : List Byte)
  deriving DecidableEq, Repr

/-- What `read` returns. -/
def Reading.size : Reading → Int
  | .failure => -1
  | .bytes data => data.length

def Reading.data : Reading → List Byte
  | .failure => []
  | .bytes data => data

/-- What `%s` prints of the buffer, if the scan meets a NUL in it. -/
def scanString (rev : List Byte) : Option (List Byte) :=
  if rev.contains 0 then some (CString.text 0 rev) else none

/-- One iteration: the buffer after it, and the scan that it makes, if it prints.  The
old content of the buffer is cleared before the read. -/
def recvIter (rev : List Byte) (r : Reading) : List Byte × Option (Option (List Byte)) :=
  let rev := List.replicate rev.length 0
  let rev := r.data ++ rev.drop r.data.length
  (rev, if r.size > 0 then some (scanString rev) else none)

/-- The scans of the `while` loop, as long as there are readings. -/
def recvLoop : List Byte → List Reading → List (Option (List Byte))
  | _, [] => []
  | rev, r :: readings =>
      let (rev, scan) := recvIter rev r
      scan.toList ++ recvLoop rev readings

theorem recvLoop_cons (rev : List Byte) (r : Reading) (readings : List Reading) :
    recvLoop rev (r :: readings) =
      (recvIter rev r).2.toList ++ recvLoop (recvIter rev r).1 readings := rfl

/-! ## One iteration -/

/-- What `read` can do with a buffer of this size, while no NUL arrives. -/
structure Reading.Fits (r : Reading) : Prop where
  length_le : r.data.length ≤ revSize
  noNul : 0 ∉ r.data

theorem length_recvIter {rev : List Byte} (hrev : rev.length = revSize) {r : Reading}
    (hr : r.Fits) : (recvIter rev r).1.length = revSize := by
  have hlength := hr.length_le
  rw [recvIter, List.length_append, List.length_drop, List.length_replicate]
  omega

/-- The scan finds what was read, unless that fills the buffer. -/
theorem recvIter_scan {rev : List Byte} (hrev : rev.length = revSize) {r : Reading}
    (hr : r.Fits) :
    (recvIter rev r).2 =
      if r.size > 0 then
        some (if r.data.length < revSize then some r.data else none)
      else none := by
  have hscan : scanString (r.data ++ (List.replicate rev.length 0).drop r.data.length) =
      if r.data.length < revSize then some r.data else none := by
    rw [List.drop_replicate, hrev]
    by_cases hroom : r.data.length < revSize
    · obtain ⟨n, hn⟩ : ∃ n, revSize - r.data.length = n + 1 :=
        ⟨revSize - r.data.length - 1, by omega⟩
      rw [hn, List.replicate_succ, scanString, if_pos (by simp), if_pos hroom,
        CString.text_append_nul 0 hr.noNul]
    · rw [Nat.sub_eq_zero_of_le (Nat.le_of_not_lt hroom), List.replicate_zero,
        List.append_nil, scanString, if_neg (by simpa using hr.noNul), if_neg hroom]
  rw [recvIter, hscan]

/-! ## Runs -/

/-- Every scan ends in the buffer, and what is printed is what arrived. -/
structure Printed (readings : List Reading) (scans : List (Option (List Byte))) : Prop where
  ends : ∀ scan ∈ scans, scan ≠ none
  stream : (scans.flatMap fun scan => scan.getD []) = readings.flatMap Reading.data

section Printed

variable (r : Reading) (readings : List Reading) (scans : List (Option (List Byte)))

theorem printed_cons_some :
    Printed (r :: readings) (some r.data :: scans) ↔ Printed readings scans := by
  constructor
  · intro h
    refine ⟨fun scan hscan => h.ends scan (List.mem_cons_of_mem _ hscan), ?_⟩
    have hstream := h.stream
    rw [List.flatMap_cons, List.flatMap_cons] at hstream
    exact List.append_cancel_left hstream
  · intro h
    refine ⟨List.forall_mem_cons.mpr ⟨Option.some_ne_none _, h.ends⟩, ?_⟩
    rw [List.flatMap_cons, List.flatMap_cons, h.stream]
    rfl

theorem printed_cons_of_nil (hdata : r.data = []) :
    Printed (r :: readings) scans ↔ Printed readings scans := by
  have hstream : (r :: readings).flatMap Reading.data = readings.flatMap Reading.data := by
    rw [List.flatMap_cons, hdata, List.nil_append]
  exact ⟨fun h => ⟨h.ends, h.stream.trans hstream⟩,
    fun h => ⟨h.ends, h.stream.trans hstream.symm⟩⟩

theorem not_printed_none : ¬ Printed readings (none :: scans) :=
  fun h => h.ends none List.mem_cons_self rfl

/-- One iteration more. -/
theorem printed_cons_iff {rev : List Byte} (hrev : rev.length = revSize) {r : Reading}
    (hr : r.Fits) :
    Printed (r :: readings) ((recvIter rev r).2.toList ++ scans) ↔
      r.data.length < revSize ∧ Printed readings scans := by
  rw [recvIter_scan hrev hr]
  by_cases hprints : r.size > 0
  · rw [if_pos hprints, Option.toList_some, List.singleton_append]
    by_cases hroom : r.data.length < revSize
    · rw [if_pos hroom, printed_cons_some]
      exact (and_iff_right hroom).symm
    · rw [if_neg hroom]
      exact iff_of_false (not_printed_none _ _) fun h => hroom h.1
  · -- nothing was read, so nothing is printed
    have hdata : r.data = [] := by
      cases r with
      | failure => rfl
      | bytes data =>
          simp only [Reading.size, gt_iff_lt, Int.natCast_pos, List.length_pos_iff,
            not_not] at hprints
          exact hprints
    have hroom : r.data.length < revSize := by
      rw [hdata]
      decide
    rw [if_neg hprints, Option.toList_none, List.nil_append,
      printed_cons_of_nil r readings scans hdata]
    exact (and_iff_right hroom).symm

end Printed

/-- **When everything is printed**: in a run on a stream without NUL bytes, however it is
split, if and only if no read fills the buffer. -/
theorem recvLoop_printed_iff (rev : List Byte) (readings : List Reading)
    (hrev : rev.length = revSize) (hfits : ∀ r ∈ readings, r.Fits) :
    Printed readings (recvLoop rev readings) ↔
      ∀ r ∈ readings, r.data.length ≤ 127 := by
  induction readings generalizing rev with
  | nil => exact iff_of_true ⟨by simp [recvLoop], rfl⟩ (by simp)
  | cons r readings ih =>
      have hr := hfits r (by simp)
      have hrest : ∀ q ∈ readings, q.Fits := fun q hq => hfits q (by simp [hq])
      rw [recvLoop_cons, printed_cons_iff _ _ hrev hr, ih _ (length_recvIter hrev hr) hrest,
        List.forall_mem_cons]
      exact and_congr_left fun _ => Nat.lt_succ_iff

/-- Two chunks with an empty and a failing read between them. -/
theorem recvLoop_printed_two_chunks :
    Printed [.bytes [0x70, 0x61], .bytes [], .failure, .bytes [0x67]]
      (recvLoop (List.replicate 128 0)
        [.bytes [0x70, 0x61], .bytes [], .failure, .bytes [0x67]]) :=
  (recvLoop_printed_iff (List.replicate 128 0)
    [.bytes [0x70, 0x61], .bytes [], .failure, .bytes [0x67]] (by simp [revSize]) (by
      intro r hr
      simp only [List.mem_cons, List.not_mem_nil, or_false] at hr
      rcases hr with rfl | rfl | rfl | rfl <;> exact ⟨by decide, by decide⟩)).mpr (by decide)

/-- A chunk that fills the buffer. -/
theorem recvLoop_full_chunk :
    ¬ Printed [.bytes (List.replicate 128 0x61)]
      (recvLoop (List.replicate 128 0) [.bytes (List.replicate 128 0x61)]) := by
  intro h
  rw [recvLoop_cons] at h
  have hrev : (List.replicate 128 (0 : Byte)).length = revSize := List.length_replicate
  have hfits : (Reading.bytes (List.replicate 128 0x61)).Fits := by
    refine ⟨Nat.le_of_eq List.length_replicate, fun hmem => ?_⟩
    exact absurd (List.eq_of_mem_replicate hmem) (by decide)
  have hroom := ((printed_cons_iff [] _ hrev hfits).mp h).1
  rw [Reading.data, List.length_replicate] at hroom
  exact absurd hroom (by decide)

end BmcCodes.Uart.UartRaw
