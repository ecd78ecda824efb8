import Yuan.Balancing.BalancedPartitions
import Yuan.Balancing.MicroBatches

/-!
# Selecting rows and restoring their order

The rows at a list of indices are `Selected`. Selections put one after the other are selected by the indices put one
after the other, and the reverse index map takes the rows that a permutation selects back to the whole list.
-/

namespace Yuan.Balancing

section

variable {α β : Type} {l : List α} {idx : List Nat}

/-- `out` has the rows of `l` at the indices `idx`. -/
def Selected (l : List α) (idx : List Nat) (out : List α) : Prop := out.map some = idx.map fun i => l[i]?

theorem Selected.length_eq {out : List α} (h : Selected l idx out) : out.length = idx.length := by
  have hlen := congrArg List.length h
  rwa [List.length_map, List.length_map] at hlen

theorem Selected.exists_getElem? {out : List α} (h : Selected l idx out) {j i : Nat} (hj : idx[j]? = some i) :
    ∃ a, l[i]? = some a ∧ out[j]? = some a := by
  have hget : (out.map some)[j]? = (idx.map fun i => l[i]?)[j]? := congrArg (fun l => l[j]?) h
  rw [List.getElem?_map, List.getElem?_map, hj] at hget
  obtain ⟨a, ha, hai⟩ := Option.map_eq_some_iff.mp hget
  exact ⟨a, hai.symm, ha⟩

theorem Selected.map {out : List α} (h : Selected l idx out) (f : α → β) : Selected (l.map f) idx (out.map f) := by
  have hmap := congrArg (List.map (Option.map f)) h
  rw [List.map_map, List.map_map] at hmap
  unfold Selected
  rw [List.map_map]
  refine hmap.trans (List.map_congr_left fun i _ => ?_)
  rw [List.getElem?_map]
  rfl

theorem selected_flatten {idxs : List (List Nat)} {outs : List (List α)} (h : List.Forall₂ (Selected l) idxs outs) :
    Selected l idxs.flatten outs.flatten := by
  induction h with
  | nil => rfl
  | cons hab _ ih =>
    unfold Selected at hab ih ⊢
    rw [List.flatten_cons, List.flatten_cons, List.map_append, List.map_append, hab, ih]

theorem selected_slices (h : ∀ i ∈ idx, i < l.length) : Selected l idx (idx.flatMap fun i => (l.drop i).take 1) := by
  induction idx with
  | nil => rfl
  | cons i idx ih =>
    have hi : i < l.length := h i List.mem_cons_self
    have hrest := ih fun j hj => h j (List.mem_cons_of_mem i hj)
    unfold Selected at hrest ⊢
    rw [List.flatMap_cons, List.map_append, hrest, List.drop_eq_getElem_cons hi, List.map_cons,
      List.getElem?_eq_getElem hi]
    rfl

theorem selected_gather (h : ∀ i ∈ idx, i < l.length) : ∃ out, gather l idx = .ok out ∧ Selected l idx out := by
  obtain ⟨out, hout, hall⟩ := exists_mapM (f := gatherAt l) (R := fun i a => some a = l[i]?) fun i hi => by
    have hget := List.getElem?_eq_getElem (h i hi)
    refine ⟨_, ?_, hget.symm⟩
    rw [gatherAt, hget]
  refine ⟨out, hout, ?_⟩
  clear hout h
  unfold Selected
  induction hall with
  | nil => rfl
  | cons hab _ ih => rw [List.map_cons, List.map_cons, hab, ih]

end

/-! ## The reverse index map -/

/-- Entries that different indices name are written; the others are kept. -/
theorem foldlM_set {pairs : List (Nat × Nat)} {l : List Nat} (hlt : ∀ p ∈ pairs, p.1 < l.length)
    (hnodup : (pairs.map Prod.fst).Nodup) :
    ∃ out, pairs.foldlM (fun l p =>
        if p.1 < l.length then Except.ok (l.set p.1 p.2)
        else .error (PyError.indexError "list assignment index out of range")) l = .ok out ∧
      out.length = l.length ∧ (∀ p ∈ pairs, out[p.1]? = some p.2) ∧
      ∀ i, i ∉ pairs.map Prod.fst → out[i]? = l[i]? := by
  induction pairs generalizing l with
  | nil => exact ⟨l, rfl, rfl, fun p hp => absurd hp List.not_mem_nil, fun _ _ => rfl⟩
  | cons p pairs ih =>
    obtain ⟨hp, hnodup⟩ := List.nodup_cons.mp hnodup
    obtain ⟨out, hout, hlen, hwritten, hkept⟩ := ih (l := l.set p.1 p.2)
      (fun q hq => by
        rw [List.length_set]
        exact hlt q (List.mem_cons_of_mem p hq)) hnodup
    have hpl := hlt p List.mem_cons_self
    refine ⟨out, ?_, hlen.trans List.length_set, fun q hq => ?_, fun i hi => ?_⟩
    · rw [List.foldlM_cons, if_pos hpl]
      exact hout
    · rcases List.mem_cons.mp hq with rfl | hq
      · rw [hkept _ hp, List.getElem?_set_self hpl]
      · exact hwritten q hq
    · rw [List.map_cons, List.mem_cons, not_or] at hi
      rw [hkept i hi.2, List.getElem?_set_ne (Ne.symm hi.1)]

theorem getReverseIdx_spec {idx : List Nat} {n : Nat} (h : idx.Perm (List.range n)) :
    ∃ out, getReverseIdx idx = .ok out ∧ out.length = n ∧ ∀ j i : Nat, idx[j]? = some i → out[i]? = some j := by
  have hlen : idx.length = n := h.length_eq.trans List.length_range
  have hlt : ∀ p ∈ idx.zipIdx, p.1 < idx.length := by
    intro p hp
    rw [hlen]
    exact List.mem_range.mp (h.mem_iff.mp (List.fst_mem_of_mem_zipIdx hp))
  have hnodup : (idx.zipIdx.map Prod.fst).Nodup := by
    rw [List.zipIdx_map_fst]
    exact h.nodup_iff.mpr List.nodup_range
  obtain ⟨out, hout, houtLen, hwritten, -⟩ := foldlM_set hlt hnodup
  exact ⟨out, hout, houtLen.trans hlen, fun j i hj => hwritten (i, j) (List.mem_zipIdx_iff_getElem?.mpr hj)⟩

/-- What a permutation selects is restored. -/
theorem restoreDynamicBatch_of_selected {γ : Type} {l out : List γ} {idxs : List (List Nat)}
    (hperm : idxs.flatten.Perm (List.range l.length)) (h : Selected l idxs.flatten out) :
    restoreDynamicBatch out idxs = .ok l := by
  obtain ⟨reverse, hreverse, hlen, hinv⟩ := getReverseIdx_spec hperm
  unfold restoreDynamicBatch
  rw [hreverse]
  refine mapM_eq_ok.mpr (List.forall₂_iff_get.mpr ⟨hlen, fun i hi hil => ?_⟩)
  obtain ⟨j, hj⟩ := List.mem_iff_getElem?.mp (hperm.mem_iff.mpr (List.mem_range.mpr hil))
  have hget : reverse.get ⟨i, hi⟩ = j := by
    have hsome := hinv j i hj
    rw [List.getElem?_eq_getElem hi] at hsome
    exact Option.some.inj hsome
  obtain ⟨a, ha, hout⟩ := h.exists_getElem? hj
  rw [List.getElem?_eq_getElem hil] at ha
  rw [hget, gatherAt, hout, ← Option.some.inj ha]
  rfl

end Yuan.Balancing
