import Yuan.Lib.Heap

/-!
# Combining the items of a heap

The two items that come first are taken from the heap and put back as one, until one item is left. What holds of every
item and survives a combination holds of the last one, and the last one has the parts of all.
-/

namespace Yuan.Heap

variable {α ι : Type} (lt : α → α → Bool)

/-- Push the items one after the other. -/
def pushAll (items : List α) : List α := items.foldl (heappush lt) []

/-- `while len(heap) > 1`: pop two items and push their combination. -/
def reduce (combine : α → α → α) : Nat → List α → List α
  | 0, heap => heap
  | fuel + 1, heap =>
    match heappop lt heap with
    | none => heap
    | some (a, rest) =>
      match heappop lt rest with
      | none => heap
      | some (b, rest) => reduce combine fuel (heappush lt rest (combine a b))

variable {lt}

theorem foldl_heappush_perm (items heap : List α) : (items.foldl (heappush lt) heap).Perm (items ++ heap) := by
  induction items generalizing heap with
  | nil => exact .refl _
  | cons a items ih =>
    exact (ih _).trans (((heappush_perm heap a).append_left items).trans List.perm_middle)

theorem pushAll_perm (items : List α) : (pushAll lt items).Perm items := by
  have h : (items.foldl (heappush lt) []).Perm (items ++ []) := foldl_heappush_perm items []
  rwa [List.append_nil] at h

theorem reduce_spec {combine : α → α → α} {P : α → Prop} (parts : α → List ι)
    (hcombine : ∀ a b, P a → P b → P (combine a b))
    (hparts : ∀ a b, (parts (combine a b)).Perm (parts a ++ parts b)) {fuel : Nat} {heap : List α}
    (hfuel : heap.length ≤ fuel) (hne : heap ≠ []) (hall : ∀ a ∈ heap, P a) :
    ∃ a, reduce lt combine fuel heap = [a] ∧ P a ∧ (parts a).Perm (heap.flatMap parts) := by
  induction fuel generalizing heap with
  | zero => exact absurd (List.length_eq_zero_iff.mp (Nat.le_zero.mp hfuel)) hne
  | succ fuel ih =>
    unfold reduce
    cases hfirst : heappop lt heap with
    | none => exact absurd (heappop_isSome hne) (by rw [hfirst]; exact Bool.false_ne_true)
    | some first =>
      obtain ⟨a, rest⟩ := first
      have hperm := heappop_perm hfirst
      dsimp only
      cases hsecond : heappop lt rest with
      | none =>
        -- the heap has a single item
        have hrest : rest = [] := by
          by_contra hrest
          exact absurd (heappop_isSome hrest) (by rw [hsecond]; exact Bool.false_ne_true)
        rw [hrest] at hperm
        obtain rfl : heap = [a] := List.perm_singleton.mp hperm.symm
        refine ⟨a, rfl, hall a List.mem_cons_self, ?_⟩
        rw [List.flatMap_cons, List.flatMap_nil, List.append_nil]
      | some second =>
        obtain ⟨b, rest'⟩ := second
        have hperm' := heappop_perm hsecond
        have hitems : (a :: b :: rest').Perm heap := (hperm'.cons a).trans hperm
        have hpush : (heappush lt rest' (combine a b)).Perm (combine a b :: rest') :=
          heappush_perm rest' (combine a b)
        have hfuel' : (heappush lt rest' (combine a b)).length ≤ fuel := by
          have hlen := hitems.length_eq
          rw [List.length_cons, List.length_cons] at hlen
          rw [hpush.length_eq, List.length_cons]
          omega
        have hne' : heappush lt rest' (combine a b) ≠ [] := fun h => by
          rw [h] at hpush
          exact List.not_perm_nil_cons _ _ hpush
        have hall' : ∀ c ∈ heappush lt rest' (combine a b), P c := by
          intro c hc
          rcases List.mem_cons.mp (hpush.mem_iff.mp hc) with rfl | hc
          · exact hcombine a b (hall a (hitems.mem_iff.mp List.mem_cons_self))
              (hall b (hitems.mem_iff.mp (List.mem_cons_of_mem _ List.mem_cons_self)))
          · exact hall c (hitems.mem_iff.mp (List.mem_cons_of_mem _ (List.mem_cons_of_mem _ hc)))
        obtain ⟨c, hc, hpc, hcparts⟩ := ih hfuel' hne' hall'
        refine ⟨c, hc, hpc, hcparts.trans ((hpush.flatMap_right parts).trans ?_)⟩
        refine List.Perm.trans ?_ (hitems.flatMap_right parts)
        rw [List.flatMap_cons, List.flatMap_cons, List.flatMap_cons, ← List.append_assoc]
        exact (hparts a b).append_right _

end Yuan.Heap
