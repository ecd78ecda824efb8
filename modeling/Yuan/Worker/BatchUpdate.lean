import Yuan.Lib.Py
import Mathlib.Data.List.Sort

/-!
# The record of one step's batch changes

`BatchUpdateBuilder` collects the removed, added and moved indices of a step. Removed indices are
handed out again, lowest first; after the first of these reads no more removals may be registered.
-/

namespace Yuan.Worker

inductive MoveDirectionality where
  | unidirectional
  | swap
  deriving DecidableEq, Repr

structure SamplingParams where
  /-- `sampling_type == SamplingType.GREEDY`. -/
  greedy : Bool := false
  temperature : Rat := 1
  topP : Rat := 1
  topK : Int := 0
  minP : Rat := 0
  frequencyPenalty : Rat := 0
  presencePenalty : Rat := 0
  repetitionPenalty : Rat := 1
  /-- `None` and the empty list are not told apart by the code. -/
  allowedTokenIds : List Nat := []
  badWordsTokenIds : List (List Nat) := []

structure AddedRequest where
  index : Nat
  params : SamplingParams
  promptTokIds : Option (List Int)
  outputTokIds : List Int

structure MovedRequest where
  fromIndex : Nat
  toIndex : Nat
  direction : MoveDirectionality
  deriving DecidableEq, Repr

structure BatchUpdate where
  batchSize : Nat
  removed : List Nat
  added : List AddedRequest
  moved : List MovedRequest

structure BatchUpdateBuilder where
  removed : List Nat := []
  isRemovedSorted : Bool := false
  added : List AddedRequest := []
  moved : List MovedRequest := []
  batchChanged : Bool := false

namespace BatchUpdateBuilder

/-- `_ensure_removed_sorted`: descending. -/
def ensureRemovedSorted (u : BatchUpdateBuilder) : BatchUpdateBuilder :=
  if u.isRemovedSorted then u
  else { u with removed := u.removed.insertionSort (· ≥ ·), isRemovedSorted := true }

def removedAppend (u : BatchUpdateBuilder) (index : Nat) : Except PyError BatchUpdateBuilder :=
  if u.isRemovedSorted then
    .error (.runtimeError "Cannot register new removed request after self.removed has been read.")
  else .ok { u with removed := u.removed ++ [index], batchChanged := true }

def peekRemoved (u : BatchUpdateBuilder) : Option Nat × BatchUpdateBuilder :=
  if u.removed = [] then (none, u)
  else
    let u := u.ensureRemovedSorted
    (u.removed.getLast?, u)

def popRemoved (u : BatchUpdateBuilder) : Option Nat × BatchUpdateBuilder :=
  if u.removed = [] then (none, u)
  else
    let u := u.ensureRemovedSorted
    (u.removed.getLast?, { u with removed := u.removed.dropLast })

/-- Whether the batch changed, and the builder of the next step. -/
def reset (u : BatchUpdateBuilder) : Bool × BatchUpdateBuilder := (u.batchChanged, {})

def getAndReset (u : BatchUpdateBuilder) (batchSize : Nat) :
    Option BatchUpdate × BatchUpdateBuilder :=
  let u := { u with isRemovedSorted := false, batchChanged := false }
  if u.removed = [] ∧ u.moved = [] ∧ u.added = [] then (none, u)
  else
    (some { batchSize, removed := u.removed, moved := u.moved, added := u.added },
      { u with removed := [], moved := [], added := [] })

theorem getAndReset_snd (u : BatchUpdateBuilder) (batchSize : Nat) : (u.getAndReset batchSize).2 = {} := by
  unfold getAndReset
  dsimp only
  split
  · next h =>
      obtain ⟨hremoved, hmoved, hadded⟩ := h
      rw [hremoved, hmoved, hadded]
  · rfl

/-! ## Reading the removed indices -/

/-- No index is registered twice, and a list that is marked as sorted is sorted. -/
structure Wellformed (u : BatchUpdateBuilder) : Prop where
  nodup : u.removed.Nodup
  sorted : u.isRemovedSorted = true → u.removed.Pairwise (· ≥ ·)

theorem wellformed_empty : Wellformed {} := ⟨List.nodup_nil, fun _ => List.Pairwise.nil⟩

section

variable {u u' : BatchUpdateBuilder}

theorem perm_ensureRemovedSorted (u : BatchUpdateBuilder) : u.ensureRemovedSorted.removed.Perm u.removed := by
  unfold ensureRemovedSorted
  split
  · exact List.Perm.refl _
  · exact List.perm_insertionSort _ _

theorem Wellformed.pairwise (h : Wellformed u) : u.ensureRemovedSorted.removed.Pairwise (· > ·) := by
  have hnodup := (perm_ensureRemovedSorted u).nodup_iff.mpr h.nodup
  have hsorted : u.ensureRemovedSorted.removed.Pairwise (· ≥ ·) := by
    unfold ensureRemovedSorted
    split
    · next hflag => exact h.sorted hflag
    · exact List.pairwise_insertionSort _ _
  exact (hsorted.and hnodup).imp fun hpair => lt_of_le_of_ne hpair.1 hpair.2.symm

theorem isRemovedSorted_ensureRemovedSorted (u : BatchUpdateBuilder) :
    u.ensureRemovedSorted.isRemovedSorted = true := by
  unfold ensureRemovedSorted
  split
  · assumption
  · rfl

@[simp] theorem added_ensureRemovedSorted (u : BatchUpdateBuilder) : u.ensureRemovedSorted.added = u.added := by
  unfold ensureRemovedSorted
  split <;> rfl

@[simp] theorem moved_ensureRemovedSorted (u : BatchUpdateBuilder) : u.ensureRemovedSorted.moved = u.moved := by
  unfold ensureRemovedSorted
  split <;> rfl

theorem Wellformed.ensureRemovedSorted (h : Wellformed u) : Wellformed u.ensureRemovedSorted :=
  ⟨(perm_ensureRemovedSorted u).nodup_iff.mpr h.nodup, fun _ => h.pairwise.imp le_of_lt⟩

theorem Wellformed.removedAppend (h : Wellformed u) {index : Nat} (hnew : index ∉ u.removed)
    (hok : u.removedAppend index = .ok u') :
    Wellformed u' ∧ u'.removed = u.removed ++ [index] ∧ u'.isRemovedSorted = false ∧
      u'.added = u.added ∧ u'.moved = u.moved := by
  unfold BatchUpdateBuilder.removedAppend at hok
  split at hok
  · cases hok
  · next hflag =>
      cases hok
      refine ⟨⟨?_, ?_⟩, rfl, Bool.eq_false_iff.mpr hflag, rfl, rfl⟩
      · rw [List.nodup_append]
        refine ⟨h.nodup, List.nodup_singleton _, ?_⟩
        intro a ha b hb heq
        rw [List.mem_singleton] at hb
        exact hnew (hb ▸ heq ▸ ha)
      · intro hsorted
        exact absurd hsorted hflag

/-- What a read of the lowest removed index gives. -/
structure Lowest (u u' : BatchUpdateBuilder) (index : Nat) : Prop where
  wellformed : Wellformed u'
  mem : index ∈ u.removed
  le : ∀ r ∈ u.removed, index ≤ r
  rest : ∀ r, r ∈ u'.removed ↔ r ∈ u.removed ∧ r ≠ index
  length : u'.removed.length + 1 = u.removed.length
  sorted : u'.isRemovedSorted = true
  added : u'.added = u.added
  moved : u'.moved = u.moved

theorem popRemoved_nil (h : u.removed = []) : u.popRemoved = (none, u) := if_pos h

theorem Wellformed.popRemoved (h : Wellformed u) (hne : u.removed ≠ []) :
    ∃ index u', u.popRemoved = (some index, u') ∧ Lowest u u' index := by
  have hperm := perm_ensureRemovedSorted u
  have hpair := h.pairwise
  have hsorted := isRemovedSorted_ensureRemovedSorted u
  have hne' : u.ensureRemovedSorted.removed ≠ [] := by
    intro hnil
    rw [hnil] at hperm
    exact hne hperm.symm.eq_nil
  set s := u.ensureRemovedSorted with hs
  obtain ⟨front, index, hsplit⟩ : ∃ front index, s.removed = front ++ [index] :=
    ⟨_, _, (List.dropLast_append_getLast hne').symm⟩
  refine ⟨index, { s with removed := front }, ?_, ?_⟩
  · unfold BatchUpdateBuilder.popRemoved
    rw [if_neg hne]
    simp only [← hs, hsplit, List.getLast?_concat, List.dropLast_concat]
  · rw [hsplit, List.pairwise_append] at hpair
    have hlow : ∀ r ∈ front, index < r := fun r hr => hpair.2.2 r hr index List.mem_cons_self
    have hmem : ∀ r, r ∈ u.removed ↔ r ∈ front ∨ r = index := by
      intro r
      rw [← hperm.mem_iff, hsplit, List.mem_append, List.mem_singleton]
    refine ⟨⟨?_, fun _ => hpair.1.imp le_of_lt⟩, ?_, ?_, ?_, ?_, hsorted, ?_, ?_⟩
    · exact hpair.1.imp fun hgt => ne_of_gt hgt
    · exact (hmem index).mpr (Or.inr rfl)
    · intro r hr
      rcases (hmem r).mp hr with hr | rfl
      · exact (hlow r hr).le
      · exact le_refl _
    · intro r
      rw [hmem]
      constructor
      · intro hr
        exact ⟨Or.inl hr, (hlow r hr).ne'⟩
      · rintro ⟨hr, hne⟩
        exact hr.resolve_right hne
    · rw [← hperm.length_eq, hsplit]
      simp
    · exact added_ensureRemovedSorted u
    · exact moved_ensureRemovedSorted u

/-- A look at the lowest removed index, before it is taken. -/
theorem peekRemoved_of_popRemoved {index : Nat} (h : u.popRemoved = (some index, u')) :
    u.peekRemoved = (some index, u.ensureRemovedSorted) := by
  unfold popRemoved at h
  unfold peekRemoved
  split at h
  · cases h
  · next hne =>
      rw [if_neg hne]
      exact Prod.ext (Prod.mk.inj h).1 rfl

end

end BatchUpdateBuilder

end Yuan.Worker
