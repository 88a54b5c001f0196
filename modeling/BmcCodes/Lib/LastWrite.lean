import Mathlib.Data.List.Basic
import Mathlib.Data.List.Induction

/-!
# Last-write folds

A cell that a sequence of operations overwrites holds, at the end, the value
stored by the last operation that stored anything, and its initial content if
none did.  `lastWrite` is that value; `storesTo` tells of each operation what
it stores in the cell.

The main result compares two such readings of one sequence.  When `actual`
stores wherever `intended` does and its remaining stores, the *stray* ones,
all leave one value `c`, the two agree exactly when every stray store that no
intended one repairs finds the intended content already equal to `c`.
-/

namespace BmcCodes.Lib.LastWrite

variable {ι α : Type*}

/-- The content of a cell holding `a` after the operations `ops`. -/
def lastWrite (storesTo : ι → Option α) (a : α) (ops : List ι) : α :=
  (ops.filterMap storesTo).getLastD a

/-- The last operation decides, unless it stores nothing. -/
@[simp] theorem lastWrite_concat (storesTo : ι → Option α) (a : α)
    (ops : List ι) (op : ι) :
    lastWrite storesTo a (ops ++ [op]) =
      (storesTo op).getD (lastWrite storesTo a ops) := by
  cases h : storesTo op <;> simp [lastWrite, List.filterMap_append, h]

/-- A part of a state that every operation overwrites with what it stores, or
else leaves alone, holds its last write at the end of a run. -/
theorem foldl_eq_lastWrite {σ : Type*} (part : σ → α) (step : σ → ι → σ)
    (storesTo : ι → Option α)
    (hstep : ∀ s op, part (step s op) = (storesTo op).getD (part s)) (s : σ)
    (ops : List ι) :
    part (ops.foldl step s) = lastWrite storesTo (part s) ops := by
  induction ops using List.reverseRecOn with
  | nil => rfl
  | append_singleton ops op ih =>
      rw [List.foldl_concat, hstep, ih, lastWrite_concat]

/-- Operations that store nothing leave the cell as the others left it. -/
theorem lastWrite_append_of_silent (storesTo : ι → Option α) (a : α)
    (ops quiet : List ι) (hquiet : ∀ op ∈ quiet, storesTo op = none) :
    lastWrite storesTo a (ops ++ quiet) = lastWrite storesTo a ops := by
  have hnone : quiet.filterMap storesTo = [] := by
    rw [List.filterMap_eq_nil_iff]
    exact hquiet
  simp [lastWrite, List.filterMap_append, hnone]

/-- A cell that no operation stores to keeps its content. -/
theorem lastWrite_of_silent (storesTo : ι → Option α) (a : α) (ops : List ι)
    (hquiet : ∀ op ∈ ops, storesTo op = none) : lastWrite storesTo a ops = a :=
  lastWrite_append_of_silent storesTo a [] ops hquiet

/-! ## Stray stores -/

/-- Every stray store of `actual` that no later operation of `post` repairs
leaves the value the cell was meant to hold already. -/
def StrayHarmless (intended actual : ι → Option α) (a c : α)
    (ops : List ι) : Prop :=
  ∀ pre op post, ops = pre ++ op :: post →
    intended op = none → actual op = some c →
    (∀ q ∈ post, intended q = none) → lastWrite intended a pre = c

/-- A split of `ops ++ [op]` is at the last operation or inside `ops`. -/
private theorem concat_eq_append_cons {ops pre post : List ι} {op q : ι}
    (h : ops ++ [op] = pre ++ q :: post) :
    (ops = pre ∧ op = q ∧ post = []) ∨
      ∃ post', post = post' ++ [op] ∧ ops = pre ++ q :: post' := by
  induction post using List.reverseRecOn with
  | nil =>
      obtain ⟨hops, hop⟩ := List.append_inj' h rfl
      exact .inl ⟨hops, List.singleton_inj.mp hop, rfl⟩
  | append_singleton post' last _ =>
      rw [← List.cons_append, ← List.append_assoc] at h
      obtain ⟨hops, hop⟩ := List.append_inj' h rfl
      exact .inr ⟨post', by rw [List.singleton_inj.mp hop], hops⟩

/-- An intended store at the end repairs every stray one before it. -/
private theorem strayHarmless_concat_of_stored {intended actual : ι → Option α}
    {a c : α} (ops : List ι) {op : ι} (hop : intended op ≠ none) :
    StrayHarmless intended actual a c (ops ++ [op]) := by
  intro pre q post hsplit hq _ hpost
  rcases concat_eq_append_cons hsplit with ⟨_, rfl, _⟩ | ⟨post', rfl, _⟩
  · exact absurd hq hop
  · exact absurd (hpost op (by simp)) hop

private theorem strayHarmless_concat_of_silent {intended actual : ι → Option α}
    {a c : α} (ops : List ι) {op : ι} (hop : intended op = none) :
    StrayHarmless intended actual a c (ops ++ [op]) ↔
      StrayHarmless intended actual a c ops ∧
        (actual op = some c → lastWrite intended a ops = c) := by
  constructor
  · intro h
    refine ⟨?_, fun hact => h ops op [] rfl hop hact (by simp)⟩
    intro pre q post hsplit hq hact hpost
    refine h pre q (post ++ [op]) (by simp [hsplit]) hq hact ?_
    intro r hr
    rcases List.mem_append.mp hr with hr | hr
    · exact hpost r hr
    · rw [List.mem_singleton.mp hr, hop]
  · intro h pre q post hsplit hq hact hpost
    obtain ⟨hops, hlast⟩ := h
    rcases concat_eq_append_cons hsplit with ⟨rfl, rfl, _⟩ | ⟨post', rfl, hinit⟩
    · exact hlast hact
    · exact hops pre q post' hinit hq hact (fun r hr => hpost r (by simp [hr]))

/-- Where the intended content is `c`, an unrepaired stray store of `c` was
harmless: nothing intended was stored after it. -/
private theorem strayHarmless_of_lastWrite_eq {intended actual : ι → Option α}
    {a c : α} {ops : List ι} (hc : lastWrite intended a ops = c) :
    StrayHarmless intended actual a c ops := by
  rintro pre op post rfl hop _ hpost
  rw [← hc]
  refine (lastWrite_append_of_silent intended a pre (op :: post) ?_).symm
  intro q hq
  rcases List.mem_cons.mp hq with rfl | hq
  · exact hop
  · exact hpost q hq

/-- **Stray stores.**  A reading that stores wherever the intended one does,
and otherwise only ever stores `c`, leaves the intended content exactly when
its stray stores are harmless.  The induction takes operations off the end,
where the last write is decided. -/
theorem lastWrite_eq_iff_strayHarmless {intended actual : ι → Option α}
    (a c : α)
    (hstored : ∀ op v, intended op = some v → actual op = some v)
    (hstray : ∀ op, intended op = none → actual op = none ∨ actual op = some c)
    (ops : List ι) :
    lastWrite actual a ops = lastWrite intended a ops ↔
      StrayHarmless intended actual a c ops := by
  induction ops using List.reverseRecOn with
  | nil =>
      refine iff_of_true rfl ?_
      intro pre op post hsplit
      simp at hsplit
  | append_singleton ops op ih =>
      cases hop : intended op with
      | some v =>
          refine iff_of_true ?_
            (strayHarmless_concat_of_stored ops (by simp [hop]))
          simp [hop, hstored op v hop]
      | none =>
          rw [strayHarmless_concat_of_silent ops hop]
          rcases hstray op hop with hact | hact
          · simpa [hop, hact] using ih
          · simp only [lastWrite_concat, hop, hact, Option.getD_none,
              Option.getD_some, forall_const]
            constructor
            · intro hc
              exact ⟨strayHarmless_of_lastWrite_eq hc.symm, hc.symm⟩
            · intro h
              obtain ⟨_, hc⟩ := h
              exact hc.symm

end BmcCodes.Lib.LastWrite
