import Yuan.Balancing.DifferencingStates

/-!
# The partitions are balanced

The states that are pushed at first satisfy the invariant of the merges, so the last state does. It has all sequences.
-/

namespace Yuan.Balancing

variable {equalSize : Bool}

/-! ## The first states -/

theorem sortedSeqlenList_perm (seqlens : List Nat) : (sortedSeqlenList seqlens).Perm seqlens.zipIdx :=
  List.perm_insertionSort _ _

/-- The indices with their lengths. -/
def indexed (seqlens : List Nat) : List (Nat × Nat) := seqlens.zipIdx.map Prod.swap

theorem getD_of_mem_indexed {seqlens : List Nat} {item : Nat × Nat} (h : item ∈ indexed seqlens) :
    seqlens.getD item.1 0 = item.2 := by
  obtain ⟨p, hp, rfl⟩ := List.mem_map.mp h
  rw [List.getD_eq_getElem?_getD, Prod.fst_swap, List.mem_zipIdx_iff_getElem?.mp hp]
  rfl

theorem le_max_of_mem_indexed {seqlens : List Nat} {item : Nat × Nat} (h : item ∈ indexed seqlens) :
    item.2 ≤ seqlens.max?.getD 0 := by
  obtain ⟨p, hp, rfl⟩ := List.mem_map.mp h
  exact List.le_max?_getD_of_mem (List.fst_mem_of_mem_zipIdx hp)

theorem map_fst_indexed (seqlens : List Nat) : (indexed seqlens).map Prod.fst = List.range seqlens.length := by
  unfold indexed
  rw [List.map_map, List.range_eq_range', ← List.zipIdx_map_snd 0 seqlens]
  rfl

theorem initialItems_spec {seqlens : List Nat} {k : Nat} (hk : 1 ≤ k) (hkn : k ≤ seqlens.length)
    (hdvd : equalSize = true → k ∣ seqlens.length) :
    ∃ items, initialItems seqlens k equalSize = .ok items ∧ items ≠ [] ∧ items.flatten.Perm (indexed seqlens) ∧
      ∀ l ∈ items, (l.length = 1 ∨ l.length = k) ∧ (equalSize = true → l.length = k) := by
  have hperm : ((sortedSeqlenList seqlens).map Prod.swap).Perm (indexed seqlens) :=
    (sortedSeqlenList_perm seqlens).map _
  have hlen : ((sortedSeqlenList seqlens).map Prod.swap).length = seqlens.length := by
    rw [hperm.length_eq, indexed, List.length_map, List.length_zipIdx]
  unfold initialItems
  generalize (sortedSeqlenList seqlens).map Prod.swap = sorted at hperm hlen
  cases equalSize with
  | false =>
    refine ⟨_, rfl, fun h => ?_, ?_, fun l hl => ?_⟩
    · rw [List.map_eq_nil_iff.mp h] at hlen
      rw [← hlen] at hkn
      exact absurd (hk.trans hkn) (Nat.not_succ_le_zero 0)
    · rw [← List.flatMap_def, List.flatMap_singleton']
      exact hperm
    · obtain ⟨item, -, rfl⟩ := List.mem_map.mp hl
      exact ⟨Or.inl rfl, fun h => (by cases h)⟩
  | true =>
    obtain ⟨m, hm⟩ := hdvd rfl
    rw [Nat.mul_comm] at hm
    have hpos : 0 < m := Nat.pos_of_ne_zero fun hzero => by
      rw [hm, hzero] at hkn
      omega
    have hdiv : seqlens.length / k = m := by rw [hm, Nat.mul_div_cancel _ hk]
    have hmod : decide (seqlens.length % k = 0) = true := by rw [hm, Nat.mul_mod_left, decide_eq_true rfl]
    rw [if_pos rfl, if_neg (Nat.one_le_iff_ne_zero.mp hk), hmod, pyAssert_true, ok_bind, hdiv]
    refine ⟨_, rfl, fun h => ?_, ?_, fun l hl => ?_⟩
    · rw [List.map_eq_nil_iff, List.range_eq_nil] at h
      exact absurd h hpos.ne'
    · rw [flatten_chunks, ← hm, ← hlen, List.take_length]
      exact hperm
    · obtain ⟨j, hj, rfl⟩ := List.mem_map.mp hl
      have hchunk := length_chunkAt (hlen.trans hm) (List.mem_range.mp hj)
      exact ⟨Or.inr hchunk, fun _ => hchunk⟩

namespace State

variable {k : Nat} {items : List (Nat × Nat)}

theorem initialSets_items (h : items.length ≤ k) : (initialSets items k).flatMap ItemSet.items = items := by
  induction items generalizing k with
  | nil =>
    rw [List.flatMap_eq_nil_iff]
    intro set hset
    obtain ⟨i, -, rfl⟩ := List.mem_map.mp hset
    rfl
  | cons item items ih =>
    cases k with
    | zero => exact absurd h (Nat.not_succ_le_zero _)
    | succ k =>
      have hnext := ih (Nat.le_of_succ_le_succ h)
      unfold initialSets at hnext ⊢
      rw [List.range_succ_eq_map, List.map_cons, List.flatMap_cons, List.map_map]
      exact congrArg (List.cons item) hnext

/-- Each set has at most one item. -/
theorem mem_initialSets {set : ItemSet} (h : set ∈ initialSets items k) :
    set = ItemSet.empty ∨ ∃ item ∈ items, set = ItemSet.empty.add item.1 item.2 := by
  obtain ⟨i, -, rfl⟩ := List.mem_map.mp h
  unfold initialSet
  cases hitem : items[i]? with
  | none => exact Or.inl rfl
  | some item => exact Or.inr ⟨item, List.mem_of_getElem? hitem, rfl⟩

theorem initialSet_of_lt {i : Nat} (hi : i < items.length) :
    initialSet items i = ItemSet.empty.add items[i].1 items[i].2 := by
  rw [initialSet, List.getElem?_eq_getElem hi]

theorem initialSets_filled : min items.length k ≤ (initialSets items k).countP ItemSet.nonempty := by
  have hfront := le_countP_front (p := ItemSet.nonempty) (l := initialSets items k) (a := items.length)
    fun i hi hia => by
      have hik : i < (List.range k).length := by
        rw [length_initialSets] at hi
        rwa [List.length_range]
      have hget : (initialSets items k)[i] = initialSet items (List.range k)[i] := List.getElem_map _
      rw [hget, List.getElem_range, initialSet_of_lt hia]
      rfl
  rwa [length_initialSets] at hfront

theorem init_good {bound : Nat} (hk : 0 < k) (hlen : items.length = 1 ∨ items.length = k)
    (hequal : equalSize = true → items.length = k) (hbound : ∀ item ∈ items, item.2 ≤ bound) :
    ∃ s : State k, init items k = .ok s ∧ s.items.Perm items ∧ s.Good bound equalSize := by
  have hsets := ItemSet.sortedReverse_perm (initialSets items k)
  have hle : items.length ≤ k := by omega
  have hitems : (ofSets (initialSets items k) (length_initialSets items k) hk).items.Perm items := by
    have hperm := hsets.flatMap_right ItemSet.items
    rw [initialSets_items hle] at hperm
    exact hperm
  refine ⟨ofSets (initialSets items k) (length_initialSets items k) hk, ?_, hitems, ?_, ?_, fun heq => ?_⟩
  · unfold init
    rw [decide_eq_true hlen, pyAssert_true, ok_bind, dif_pos hk]
    rfl
  · intro set hset set' hset'
    rcases mem_initialSets (hsets.mem_iff.mp hset) with rfl | ⟨item, hitem, rfl⟩
    · exact Nat.zero_le _
    · calc
        (ItemSet.empty.add item.1 item.2).sum = item.2 := Nat.zero_add _
        _ ≤ bound := hbound item hitem
        _ ≤ set'.sum + bound := Nat.le_add_left _ _
  · rw [hitems.length_eq, Nat.min_comm]
    exact initialSets_filled.trans_eq (hsets.countP_eq _).symm
  · refine ⟨1, fun set hset => ?_⟩
    obtain ⟨i, hi, rfl⟩ := List.mem_map.mp (hsets.mem_iff.mp hset)
    have hlt : i < items.length := by
      rw [hequal heq]
      exact List.mem_range.mp hi
    rw [initialSet_of_lt hlt]
    rfl

theorem length_mul_of_equal {s : State k} (h : ∃ c, ∀ set ∈ s.sets, set.items.length = c) {p : List Nat}
    (hp : p ∈ s.getPartitions) : p.length * k = s.items.length := by
  obtain ⟨c, hc⟩ := h
  obtain ⟨set, hset, rfl⟩ := List.mem_map.mp hp
  have hlengths : s.sets.map (fun set => set.items.length) = List.replicate k c := by
    rw [List.eq_replicate_iff, List.length_map]
    refine ⟨s.length_eq, fun n hn => ?_⟩
    obtain ⟨set, hset, rfl⟩ := List.mem_map.mp hn
    exact hc set hset
  rw [List.length_map, hc set hset, items, List.length_flatMap, hlengths, List.sum_replicate_nat, Nat.mul_comm]

end State

theorem forM_ok {α : Type} {f : α → Except PyError Unit} {l : List α} (h : ∀ a ∈ l, f a = .ok ()) :
    l.forM f = .ok () := by
  induction l with
  | nil => rfl
  | cons a l ih =>
    have hcons : (a :: l).forM f = f a >>= fun _ => l.forM f := rfl
    rw [hcons, h a List.mem_cons_self]
    exact ih fun a' ha' => h a' (List.mem_cons_of_mem _ ha')

/-! ## The last state -/

theorem karmarkarKarp_spec {seqlens : List Nat} {k : Nat} (hk : 1 ≤ k) (hkn : k ≤ seqlens.length)
    (hdvd : equalSize = true → k ∣ seqlens.length) :
    ∃ s : State k, karmarkarKarp seqlens k equalSize = .ok s.getPartitions ∧
      s.Good (seqlens.max?.getD 0) equalSize ∧ s.items.Perm (indexed seqlens) := by
  obtain ⟨items, hitems, hne, hflatten, hlen⟩ := initialItems_spec hk hkn hdvd
  obtain ⟨states, hstates, hall⟩ := exists_mapM (f := fun items => State.init items k)
    (R := fun l s => s.items.Perm l ∧ s.Good (seqlens.max?.getD 0) equalSize) fun l hl =>
      State.init_good (Nat.lt_of_succ_le hk) (hlen l hl).1 (hlen l hl).2 fun item hitem =>
        le_max_of_mem_indexed (hflatten.mem_iff.mp (List.mem_flatten.mpr ⟨l, hl, hitem⟩))
  have hpush : (Heap.pushAll State.lt states).Perm states := Heap.pushAll_perm states
  have hgood : ∀ s ∈ Heap.pushAll State.lt states, s.Good (seqlens.max?.getD 0) equalSize := by
    intro s hs
    obtain ⟨l, -, -, hs⟩ := exists_of_mem_of_forall₂ hall (hpush.mem_iff.mp hs)
    exact hs
  have hnonempty : Heap.pushAll State.lt states ≠ [] := by
    intro h
    rw [h] at hpush
    have hnil : states = [] := List.nil_perm.mp hpush
    have hlength := hall.length_eq
    rw [hnil] at hlength
    exact hne (List.length_eq_zero_iff.mp hlength)
  obtain ⟨final, hreduce, hfinal, hperm⟩ : ∃ final, Heap.reduce State.lt State.merge
      (Heap.pushAll State.lt states).length (Heap.pushAll State.lt states) = [final] ∧
      final.Good (seqlens.max?.getD 0) equalSize ∧
      final.items.Perm ((Heap.pushAll State.lt states).flatMap State.items) :=
    Heap.reduce_spec State.items (fun _ _ => State.Good.merge) State.merge_items (Nat.le_refl _) hnonempty hgood
  have hstateItems : (states.flatMap State.items).Perm items.flatten := by
    clear hstates hpush hgood hnonempty hreduce hperm hitems hne hflatten hlen
    induction hall with
    | nil => exact .refl _
    | cons hab _ ih =>
      exact hab.1.append ih
  have hlast := hperm.trans ((hpush.flatMap_right _).trans (hstateItems.trans hflatten))
  refine ⟨final, ?_, hfinal, hlast⟩
  unfold karmarkarKarp
  rw [hitems, ok_bind, hstates, ok_bind]
  dsimp only
  rw [hreduce]
  cases equalSize with
  | false => rfl
  | true =>
    have hasserts : final.getPartitions.forM (fun p => pyAssert (p.length * k = seqlens.length)
        s!"{p.length} * {k} != {seqlens.length}") = .ok () := by
      refine forM_ok fun p hp => ?_
      rw [final.length_mul_of_equal (hfinal.equal rfl) hp, hlast.length_eq, indexed, List.length_map,
        List.length_zipIdx, decide_eq_true rfl, pyAssert_true]
    dsimp only
    rw [if_pos rfl, hasserts]
    rfl

/-! ## The partitions -/

/-- The sum of the lengths of a partition. -/
def partitionSum (seqlens p : List Nat) : Nat := (p.map fun idx => seqlens.getD idx 0).sum

theorem partitionSum_perm {seqlens p q : List Nat} (h : p.Perm q) : partitionSum seqlens p = partitionSum seqlens q :=
  (h.map _).sum_nat

/-- `k` non-empty, sorted lists with every index once, of sums that differ by at most the largest length, and of one
length where this is asked for. -/
structure Balanced (seqlens : List Nat) (kPartitions : Nat) (equalSize : Bool) (partitions : List (List Nat)) :
    Prop where
  length_eq : partitions.length = kPartitions
  flatten_perm : partitions.flatten.Perm (List.range seqlens.length)
  ne_nil : ∀ p ∈ partitions, p ≠ []
  sorted : ∀ p ∈ partitions, p.Pairwise (· ≤ ·)
  length_equal : equalSize = true → ∀ p ∈ partitions, ∀ q ∈ partitions, p.length = q.length
  sum_le : ∀ p ∈ partitions, ∀ q ∈ partitions,
    partitionSum seqlens p ≤ partitionSum seqlens q + seqlens.max?.getD 0

theorem Balanced.of_perm {seqlens : List Nat} {k : Nat} {partitions partitions' : List (List Nat)}
    (h : Balanced seqlens k equalSize partitions) (hperm : partitions'.Perm partitions) :
    Balanced seqlens k equalSize partitions' where
  length_eq := hperm.length_eq.trans h.length_eq
  flatten_perm := hperm.flatten.trans h.flatten_perm
  ne_nil p hp := h.ne_nil p (hperm.mem_iff.mp hp)
  sorted p hp := h.sorted p (hperm.mem_iff.mp hp)
  length_equal heq p hp q hq := h.length_equal heq p (hperm.mem_iff.mp hp) q (hperm.mem_iff.mp hq)
  sum_le p hp q hq := h.sum_le p (hperm.mem_iff.mp hp) q (hperm.mem_iff.mp hq)

namespace State

variable {k : Nat} {s : State k} {seqlens : List Nat}

theorem flatten_getPartitions (h : s.items.Perm (indexed seqlens)) :
    s.getPartitions.flatten.Perm (List.range seqlens.length) := by
  have hflatten : s.getPartitions.flatten = s.items.map Prod.fst := by
    rw [getPartitions, items, List.map_flatMap, List.flatMap_def]
  rw [hflatten, ← map_fst_indexed]
  exact h.map Prod.fst

theorem getPartitions_ne_nil {bound : Nat} (hgood : s.Good bound equalSize) (h : s.items.Perm (indexed seqlens))
    (hkn : k ≤ seqlens.length) {p : List Nat} (hp : p ∈ s.getPartitions) : p ≠ [] := by
  obtain ⟨set, hset, rfl⟩ := List.mem_map.mp hp
  have hcount : s.sets.countP ItemSet.nonempty = s.sets.length := by
    refine Nat.le_antisymm List.countP_le_length ?_
    have hfilled := hgood.filled
    rw [h.length_eq, indexed, List.length_map, List.length_zipIdx, Nat.min_eq_left hkn] at hfilled
    exact s.length_eq.trans_le hfilled
  have hnonempty := ItemSet.nonempty_iff.mp (List.countP_eq_length.mp hcount set hset)
  exact fun hnil => hnonempty (List.map_eq_nil_iff.mp hnil)

theorem partitionSum_eq (h : s.items.Perm (indexed seqlens)) {set : ItemSet} (hset : set ∈ s.sets) :
    partitionSum seqlens (set.items.map Prod.fst) = set.sum := by
  rw [partitionSum, List.map_map, set.sum_eq]
  refine congrArg List.sum (List.map_congr_left fun item hitem => ?_)
  exact getD_of_mem_indexed (h.mem_iff.mp (List.mem_flatMap.mpr ⟨set, hset, hitem⟩))

/-- The partitions of a state that has all sequences. -/
theorem balanced_getPartitions (hgood : s.Good (seqlens.max?.getD 0) equalSize) (h : s.items.Perm (indexed seqlens))
    (hkn : k ≤ seqlens.length) :
    Balanced seqlens k equalSize (s.getPartitions.map fun p => p.insertionSort (· ≤ ·)) where
  length_eq := by rw [List.length_map, getPartitions, List.length_map, s.length_eq]
  flatten_perm := by
    refine List.Perm.trans ?_ (flatten_getPartitions h)
    rw [← List.flatMap_def, ← List.flatMap_id]
    exact List.Perm.flatMap_left _ fun p _ => List.perm_insertionSort _ p
  ne_nil := by
    intro p hp hnil
    obtain ⟨q, hq, rfl⟩ := List.mem_map.mp hp
    refine getPartitions_ne_nil hgood h hkn hq (List.length_eq_zero_iff.mp ?_)
    rw [← List.length_insertionSort (· ≤ ·), hnil, List.length_nil]
  sorted := by
    intro p hp
    obtain ⟨q, -, rfl⟩ := List.mem_map.mp hp
    exact List.pairwise_insertionSort _ q
  length_equal := by
    intro heq p hp q hq
    obtain ⟨p', hp', rfl⟩ := List.mem_map.mp hp
    obtain ⟨q', hq', rfl⟩ := List.mem_map.mp hq
    rw [List.length_insertionSort, List.length_insertionSort]
    have hmul := (length_mul_of_equal (hgood.equal heq) hp').trans (length_mul_of_equal (hgood.equal heq) hq').symm
    exact Nat.eq_of_mul_eq_mul_right s.pos hmul
  sum_le := by
    intro p hp q hq
    obtain ⟨p', hp', rfl⟩ := List.mem_map.mp hp
    obtain ⟨q', hq', rfl⟩ := List.mem_map.mp hq
    obtain ⟨set, hset, rfl⟩ := List.mem_map.mp hp'
    obtain ⟨set', hset', rfl⟩ := List.mem_map.mp hq'
    rw [partitionSum_perm (List.perm_insertionSort _ _), partitionSum_perm (List.perm_insertionSort _ _),
      partitionSum_eq h hset, partitionSum_eq h hset']
    exact hgood.spread_le set hset set' hset'

end State

theorem checkAndSortPartitions_eq {n k : Nat} {partitions : List (List Nat)} (hlen : partitions.length = k)
    (hne : ∀ p ∈ partitions, p ≠ []) (hperm : partitions.flatten.Perm (List.range n)) :
    checkAndSortPartitions n k partitions = .ok (partitions.map fun p => p.insertionSort (· ≤ ·)) := by
  have hsort : partitions.zipIdx.mapM (fun p => do
      pyAssert (0 < p.1.length) s!"the {p.2}-th partition is empty"
      return p.1.insertionSort (· ≤ ·)) = Except.ok (partitions.zipIdx.map fun p => p.1.insertionSort (· ≤ ·)) := by
    refine mapM_ok fun p hp => ?_
    have hpos := List.length_pos_of_ne_nil (hne p.1 (List.fst_mem_of_mem_zipIdx hp))
    rw [decide_eq_true hpos]
    rfl
  have hmap : partitions.zipIdx.map (fun p => p.1.insertionSort (· ≤ ·))
      = partitions.map fun p => p.insertionSort (· ≤ ·) := by
    conv_rhs => rw [← List.zipIdx_map_fst 0 partitions, List.map_map]
    rfl
  have hseen : partitions.flatten.toFinset = Finset.range n := by
    ext idx
    rw [List.mem_toFinset, hperm.mem_iff, List.mem_range, Finset.mem_range]
  unfold checkAndSortPartitions
  rw [decide_eq_true hlen, pyAssert_true, ok_bind, hsort, ok_bind, decide_eq_true hseen, pyAssert_true, hmap]
  rfl

/-- The partitions of the differencing method are returned sorted. -/
theorem getSeqlenBalancedPartitions_eq {seqlens : List Nat} {k : Nat} (equalSize : Bool) (hk : 1 ≤ k)
    (hkn : k ≤ seqlens.length) (hdvd : equalSize = true → k ∣ seqlens.length) :
    ∃ partitions, karmarkarKarp seqlens k equalSize = .ok partitions ∧ getSeqlenBalancedPartitions seqlens k equalSize
        = .ok (partitions.map fun p => p.insertionSort (· ≤ ·)) ∧
      Balanced seqlens k equalSize (partitions.map fun p => p.insertionSort (· ≤ ·)) := by
  obtain ⟨s, hs, hgood, hitems⟩ := karmarkarKarp_spec hk hkn hdvd
  refine ⟨s.getPartitions, hs, ?_, s.balanced_getPartitions hgood hitems hkn⟩
  unfold getSeqlenBalancedPartitions
  rw [decide_eq_true hkn, pyAssert_true, ok_bind, hs]
  refine checkAndSortPartitions_eq ?_ (fun p hp => State.getPartitions_ne_nil hgood hitems hkn hp)
    (State.flatten_getPartitions hitems)
  rw [State.getPartitions, List.length_map, s.length_eq]

/-- The partitions are valid and balanced. -/
theorem getSeqlenBalancedPartitions_balanced (seqlens : List Nat) (k : Nat) (equalSize : Bool) (hk : 1 ≤ k)
    (hkn : k ≤ seqlens.length) (hdvd : equalSize = true → k ∣ seqlens.length) :
    ∃ partitions, getSeqlenBalancedPartitions seqlens k equalSize = .ok partitions ∧
      Balanced seqlens k equalSize partitions := by
  obtain ⟨partitions, -, heq, hbalanced⟩ := getSeqlenBalancedPartitions_eq equalSize hk hkn hdvd
  exact ⟨_, heq, hbalanced⟩

theorem getSeqlenBalancedPartitions_balanced_five_of_two :
    ∃ partitions, getSeqlenBalancedPartitions [8, 7, 6, 5, 4] 2 false = .ok partitions ∧
      Balanced [8, 7, 6, 5, 4] 2 false partitions :=
  getSeqlenBalancedPartitions_balanced _ _ _ (by decide) (by decide) fun h => (by cases h)

end Yuan.Balancing
