import Mathlib.Algebra.GroupWithZero.Nat
import Mathlib.Algebra.Order.BigOperators.Group.List
import Mathlib.Algebra.Order.Monoid.Canonical.Basic
import Mathlib.Data.List.Basic

/-!
# Frames that end in marks

A stream of words, each followed by `k` marks.  The receiver collects what arrives until
`k` marks in a row are there; what stood before them is a frame.

Words without a mark are received as they were sent (`receive_encode`).  Over a line that
can lose symbols but not invent any, they are received so if and only if nothing is lost
(`receive_lossy_iff`): every symbol ends up in some frame, so the symbols can be counted.
-/

namespace BmcCodes.Lib.Framing

variable {α β : Type*} (mark : α) (k : Nat)

/-- The words, with their marks. -/
def encode (words : List (List α)) : List α :=
  words.flatMap fun word => word ++ List.replicate k mark

/-- The frames so far, and what has arrived since the last one. -/
structure Receiver (α : Type*) where
  frames : List (List α)
  pending : List α
  deriving DecidableEq, Repr

section Receive

variable [DecidableEq α]

/-- One symbol arrives. -/
def feed (s : Receiver α) (x : α) : Receiver α :=
  let pending := s.pending ++ [x]
  if List.replicate k mark <:+ pending then
    ⟨s.frames ++ [pending.take (pending.length - k)], []⟩
  else ⟨s.frames, pending⟩

def receive (s : Receiver α) (stream : List α) : Receiver α := stream.foldl (feed mark k) s

end Receive

variable {mark k}

/-! ## Words without a mark -/

/-- Fewer than `k` marks behind a word do not end it. -/
theorem not_replicate_suffix {word : List α} (hword : mark ∉ word) {j : Nat} (hj : j < k) :
    ¬List.replicate k mark <:+ word ++ List.replicate j mark := by
  intro h
  obtain ⟨i, rfl⟩ : ∃ i, k = i + 1 + j := ⟨k - j - 1, by omega⟩
  rw [← List.replicate_append_replicate, List.suffix_append_self_iff] at h
  exact hword (h.subset (List.mem_replicate.mpr ⟨by omega, rfl⟩))

variable [DecidableEq α]

theorem receive_append (s : Receiver α) (stream stream' : List α) :
    receive mark k s (stream ++ stream') = receive mark k (receive mark k s stream) stream' :=
  List.foldl_append

theorem receive_concat (s : Receiver α) (stream : List α) (x : α) :
    receive mark k s (stream ++ [x]) = feed mark k (receive mark k s stream) x :=
  receive_append s stream [x]

theorem receive_word (frames : List (List α)) {word : List α} (hk : 0 < k)
    (hword : mark ∉ word) : receive mark k ⟨frames, []⟩ word = ⟨frames, word⟩ := by
  induction word using List.reverseRecOn with
  | nil => rfl
  | append_singleton word x ih =>
      have hbefore : mark ∉ word := fun h => hword (List.mem_append_left [x] h)
      rw [receive_concat, ih hbefore, feed, if_neg]
      simpa using not_replicate_suffix hword hk

theorem receive_marks (frames : List (List α)) {word : List α} (hword : mark ∉ word)
    {j : Nat} (hj : j < k) :
    receive mark k ⟨frames, []⟩ (word ++ List.replicate j mark) =
      ⟨frames, word ++ List.replicate j mark⟩ := by
  induction j with
  | zero =>
      rw [List.replicate_zero, List.append_nil]
      exact receive_word frames hj hword
  | succ j ih =>
      rw [List.replicate_succ', ← List.append_assoc, receive_concat, ih (by omega), feed,
        if_neg]
      rw [List.append_assoc, ← List.replicate_succ']
      exact not_replicate_suffix hword hj

/-- A word is received with its last mark. -/
theorem receive_frame (frames : List (List α)) {word : List α} (hk : 0 < k)
    (hword : mark ∉ word) :
    receive mark k ⟨frames, []⟩ (word ++ List.replicate k mark) =
      ⟨frames ++ [word], []⟩ := by
  obtain ⟨j, rfl⟩ : ∃ j, k = j + 1 := ⟨k - 1, by omega⟩
  rw [List.replicate_succ', ← List.append_assoc, receive_concat,
    receive_marks frames hword (Nat.lt_succ_self j), feed, if_pos]
  · simp
  · rw [List.append_assoc, ← List.replicate_succ']
    exact List.suffix_append _ _

/-- **Words without a mark are received as they were sent.** -/
theorem receive_encode (frames : List (List α)) {words : List (List α)} (hk : 0 < k)
    (hwords : ∀ word ∈ words, mark ∉ word) :
    receive mark k ⟨frames, []⟩ (encode mark k words) = ⟨frames ++ words, []⟩ := by
  induction words generalizing frames with
  | nil => rw [List.append_nil]; rfl
  | cons word words ih =>
      rw [List.forall_mem_cons] at hwords
      rw [encode, List.flatMap_cons, receive_append, receive_frame frames hk hwords.1]
      have hrest := ih (frames ++ [word]) hwords.2
      rw [List.append_assoc] at hrest
      exact hrest

/-! ## Lossy lines -/

/-- The symbols that have arrived: those of the frames, with their marks, and those that
are pending. -/
def Receiver.size (k : Nat) (s : Receiver α) : Nat :=
  (s.frames.map fun frame => frame.length + k).sum + s.pending.length

theorem size_feed (s : Receiver α) (x : α) : (feed mark k s x).size k = s.size k + 1 := by
  unfold feed
  dsimp only
  split
  · next h =>
      have hk := h.length_le
      rw [List.length_replicate] at hk
      simp only [Receiver.size, List.map_append, List.map_singleton, List.sum_append,
        List.sum_singleton, List.length_take, List.length_append, List.length_singleton,
        List.length_nil] at hk ⊢
      omega
  · simp only [Receiver.size, List.length_append, List.length_singleton]
    omega

/-- Every symbol that arrives is in a frame or pending. -/
theorem size_receive (s : Receiver α) (stream : List α) :
    (receive mark k s stream).size k = s.size k + stream.length := by
  induction stream generalizing s with
  | nil => rfl
  | cons x stream ih =>
      have hrest := ih (feed mark k s x)
      rw [size_feed] at hrest
      rw [List.length_cons, receive, List.foldl_cons]
      exact hrest.trans (by omega)

omit [DecidableEq α] in
theorem length_encode (words : List (List α)) :
    (encode mark k words).length = (words.map fun word => word.length + k).sum := by
  simp [encode, List.length_flatMap]

omit [DecidableEq α] in
/-- Lists that lose elements keep them all if the number of them stays the same. -/
theorem eq_of_length_flatMap {f g : β → List α} (hlossy : ∀ b, (f b).Sublist (g b))
    {bs : List β} (hlength : (bs.flatMap f).length = (bs.flatMap g).length) :
    ∀ b ∈ bs, f b = g b := by
  induction bs with
  | nil => simp
  | cons b bs ih =>
      have hrest : ∀ bs : List β, (bs.flatMap f).length ≤ (bs.flatMap g).length := by
        intro bs
        induction bs with
        | nil => exact Nat.le_refl 0
        | cons b bs ih =>
            have hb := (hlossy b).length_le
            simp only [List.flatMap_cons, List.length_append]
            omega
      have hb := (hlossy b).length_le
      have hbs := hrest bs
      simp only [List.flatMap_cons, List.length_append] at hlength
      exact List.forall_mem_cons.mpr
        ⟨(hlossy b).eq_of_length (by omega), ih (by omega)⟩

/-- **A line that only loses symbols** delivers the words as they were sent if and only if
it loses nothing. -/
theorem receive_lossy_iff {sent : β → List (List α)} {arrived : β → List α} (hk : 0 < k)
    (hwords : ∀ b, ∀ word ∈ sent b, mark ∉ word)
    (hlossy : ∀ b, (arrived b).Sublist (encode mark k (sent b))) (bs : List β) :
    receive mark k ⟨[], []⟩ (bs.flatMap arrived) = ⟨bs.flatMap sent, []⟩ ↔
      ∀ b ∈ bs, arrived b = encode mark k (sent b) := by
  have hencode : (bs.flatMap fun b => encode mark k (sent b)) =
      encode mark k (bs.flatMap sent) := List.flatMap_assoc.symm
  constructor
  · intro h
    have hsize : (receive mark k ⟨[], []⟩ (bs.flatMap arrived)).size k =
        Receiver.size k ⟨[], []⟩ + (bs.flatMap arrived).length := size_receive _ _
    apply eq_of_length_flatMap hlossy
    rw [h] at hsize
    rw [hencode, length_encode]
    simp only [Receiver.size, List.map_nil, List.sum_nil, List.length_nil] at hsize
    omega
  · intro h
    have harrived : bs.flatMap arrived = encode mark k (bs.flatMap sent) := by
      rw [← hencode]
      exact List.flatMap_congr h
    have hall : ∀ word ∈ bs.flatMap sent, mark ∉ word := by
      intro word hword
      obtain ⟨b, -, hb⟩ := List.mem_flatMap.mp hword
      exact hwords b word hb
    rw [harrived, receive_encode [] hk hall, List.nil_append]

end BmcCodes.Lib.Framing
