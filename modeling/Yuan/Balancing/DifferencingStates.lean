import Yuan.Balancing.KarmarkarKarp

/-!
# What merging keeps

The largest sets of one state meet the smallest of the other. So no spread grows, empty sets are filled before two sets
with items meet, and sets of one size stay of one size.
-/

namespace Yuan.Balancing

/-! ## Sets -/

namespace ItemSet

theorem merge_fields (s other : ItemSet) :
    (s.merge other).items = s.items ++ other.items ∧ (s.merge other).sum = s.sum + other.sum := by
  have hfold : ∀ (items : List (Nat × Nat)) (s : ItemSet),
      (items.foldl (fun s item => s.add item.1 item.2) s).items = s.items ++ items ∧
        (items.foldl (fun s item => s.add item.1 item.2) s).sum = s.sum + (items.map Prod.snd).sum := by
    intro items
    induction items with
    | nil => exact fun s => ⟨(List.append_nil _).symm, rfl⟩
    | cons item items ih =>
      intro s
      obtain ⟨hitems, hsum⟩ := ih (s.add item.1 item.2)
      rw [List.foldl_cons, hitems, hsum, List.map_cons]
      exact ⟨List.append_cons .. |>.symm, Nat.add_assoc ..⟩
  rw [other.sum_eq]
  exact hfold other.items s

theorem merge_items (s other : ItemSet) : (s.merge other).items = s.items ++ other.items := (merge_fields s other).1

theorem merge_sum (s other : ItemSet) : (s.merge other).sum = s.sum + other.sum := (merge_fields s other).2

theorem sum_le_of_key_le {s other : ItemSet} (h : other.key ≤ s.key) : other.sum ≤ s.sum := by
  rcases Prod.Lex.toLex_le_toLex.mp h with hlt | ⟨heq, -⟩
  · exact Nat.le_of_lt hlt
  · exact Nat.le_of_eq heq

/-- Empty sets are the smallest. -/
theorem items_ne_nil_of_key_le {s other : ItemSet} (h : other.key ≤ s.key) (hother : other.items ≠ []) :
    s.items ≠ [] := by
  intro hs
  have hsum : s.sum = 0 := by rw [s.sum_eq, hs]; rfl
  rcases Prod.Lex.toLex_le_toLex.mp h with hlt | ⟨-, hle⟩
  · exact absurd hlt (by rw [hsum]; exact Nat.not_lt_zero _)
  · rw [hs] at hle
    rcases Prod.Lex.toLex_le_toLex.mp hle with hlt | ⟨heq, -⟩
    · exact absurd hlt (Nat.not_lt_zero _)
    · exact hother (List.length_eq_zero_iff.mp heq)

/-- Whether a set has items. -/
def nonempty (s : ItemSet) : Bool := s.items ≠ []

theorem nonempty_iff {s : ItemSet} : s.nonempty = true ↔ s.items ≠ [] := decide_eq_true_iff

end ItemSet

/-! ## Counting at both ends -/

section

variable {α : Type} {p : α → Bool}

theorem le_countP_front {l : List α} {a : Nat} (h : ∀ i (hi : i < l.length), i < a → p l[i] = true) :
    min a l.length ≤ l.countP p := by
  induction l generalizing a with
  | nil => exact Nat.min_le_right _ _
  | cons x l ih =>
    cases a with
    | zero => exact (Nat.min_le_left _ _).trans (Nat.zero_le _)
    | succ a =>
      have hx : p x = true := h 0 (Nat.zero_lt_succ _) (Nat.zero_lt_succ a)
      have hl := ih (a := a) fun i hi hia => h (i + 1) (Nat.succ_lt_succ hi) (Nat.succ_lt_succ hia)
      rw [List.length_cons, List.countP_cons_of_pos hx]
      omega

/-- The first `a` and the last `b` elements are counted. -/
theorem le_countP_ends {l : List α} {a b : Nat}
    (h : ∀ i (hi : i < l.length), i < a ∨ l.length < b + i + 1 → p l[i] = true) :
    min l.length (a + b) ≤ l.countP p := by
  have hfront := le_countP_front (p := p) (l := l.take (l.length - b)) (a := a) fun i hi hia => by
    rw [List.getElem_take]
    exact h i _ (Or.inl hia)
  have hback := le_countP_front (p := p) (l := l.drop (l.length - b)) (a := b) fun i hi hib => by
    rw [List.getElem_drop]
    exact h _ _ (Or.inr (by omega))
  have hsplit : l.countP p = (l.take (l.length - b)).countP p + (l.drop (l.length - b)).countP p := by
    rw [← List.countP_append, List.take_append_drop]
  rw [List.length_take] at hfront
  rw [List.length_drop] at hback
  omega

/-- Where what is counted comes first, as many elements from the front are counted. -/
theorem counted_of_lt_countP {l : List α} (hl : l.Pairwise fun a b => p b = true → p a = true) {i : Nat}
    (hi : i < l.length) (hlt : i < l.countP p) : p l[i] = true := by
  induction l generalizing i with
  | nil => exact absurd hi (Nat.not_lt_zero i)
  | cons x l ih =>
    obtain ⟨hx, hl⟩ := List.pairwise_cons.mp hl
    by_cases hpx : p x = true
    · cases i with
      | zero => exact hpx
      | succ i =>
        rw [List.countP_cons_of_pos hpx] at hlt
        exact ih hl (Nat.lt_of_succ_lt_succ hi) (Nat.lt_of_succ_lt_succ hlt)
    · have hnone : (x :: l).countP p = 0 := by
        rw [List.countP_cons_of_neg hpx, List.countP_eq_zero]
        exact fun y hy hpy => hpx (hx y hy hpy)
      rw [hnone] at hlt
      exact absurd hlt (Nat.not_lt_zero i)

end

/-! ## States -/

namespace State

variable {k : Nat} {s other : State k}

/-- The items of a state. -/
def items (s : State k) : List (Nat × Nat) := s.sets.flatMap ItemSet.items

theorem nonempty_of_lt (s : State k) {i : Nat} (hi : i < s.sets.length) (hlt : i < s.sets.countP ItemSet.nonempty) :
    s.sets[i].items ≠ [] := by
  refine ItemSet.nonempty_iff.mp (counted_of_lt_countP (s.sorted.imp fun hle hne => ?_) hi hlt)
  rw [ItemSet.nonempty_iff] at hne ⊢
  exact ItemSet.items_ne_nil_of_key_le hle hne

theorem sum_antitone (s : State k) {i j : Nat} (hij : i ≤ j) (hj : j < s.sets.length) :
    s.sets[j].sum ≤ s.sets[i].sum := by
  rcases Nat.lt_or_eq_of_le hij with hlt | rfl
  · exact ItemSet.sum_le_of_key_le (List.pairwise_iff_getElem.mp s.sorted i j _ hj hlt)
  · exact Nat.le_refl _

theorem getElem_mergedSets (s other : State k) {i : Nat} (hi : i < (mergedSets s other).length)
    (hs : i < s.sets.length) (hother : k - 1 - i < other.sets.length) :
    (mergedSets s other)[i] = s.sets[i].merge other.sets[k - 1 - i] := by
  have hreverse : i < other.sets.reverse.length := by
    rw [length_mergedSets] at hi
    rwa [List.length_reverse, other.length_eq]
  calc
    (mergedSets s other)[i] = s.sets[i].merge other.sets.reverse[i] := List.getElem_zipWith
    _ = s.sets[i].merge other.sets[k - 1 - i] := by
      rw [List.getElem_reverse]
      simp only [other.length_eq]

theorem merge_sets_perm (s other : State k) : (s.merge other).sets.Perm (mergedSets s other) :=
  ItemSet.sortedReverse_perm _

theorem merge_items (s other : State k) : (s.merge other).items.Perm (s.items ++ other.items) := by
  have hzip : ∀ (sets sets' : List ItemSet), sets.length = sets'.length →
      ((List.zipWith ItemSet.merge sets sets').flatMap ItemSet.items).Perm
        (sets.flatMap ItemSet.items ++ sets'.flatMap ItemSet.items) := by
    intro sets
    induction sets with
    | nil =>
      intro sets' hlen
      rw [List.length_eq_zero_iff.mp hlen.symm]
      exact .refl _
    | cons set sets ih =>
      intro sets' hlen
      cases sets' with
      | nil => cases hlen
      | cons set' sets' =>
        rw [List.zipWith_cons_cons, List.flatMap_cons, List.flatMap_cons, List.flatMap_cons, ItemSet.merge_items,
          List.append_assoc, List.append_assoc]
        refine List.Perm.append_left _ ?_
        refine ((ih sets' (Nat.succ.inj hlen)).append_left _).trans ?_
        exact List.perm_append_comm_assoc _ _ _
  have hreverse := (List.reverse_perm other.sets).flatMap_right ItemSet.items
  refine ((merge_sets_perm s other).flatMap_right _).trans ((hzip _ _ ?_).trans (hreverse.append_left _))
  rw [List.length_reverse, s.length_eq, other.length_eq]

/-- What holds of a state at every time: `bound` is the largest length. -/
structure Good (bound : Nat) (equalSize : Bool) (s : State k) : Prop where
  spread_le : ∀ set ∈ s.sets, ∀ set' ∈ s.sets, set.sum ≤ set'.sum + bound
  filled : min k s.items.length ≤ s.sets.countP ItemSet.nonempty
  equal : equalSize = true → ∃ c, ∀ set ∈ s.sets, set.items.length = c

theorem merge_spread {bound : Nat} (hs : ∀ set ∈ s.sets, ∀ set' ∈ s.sets, set.sum ≤ set'.sum + bound)
    (hother : ∀ set ∈ other.sets, ∀ set' ∈ other.sets, set.sum ≤ set'.sum + bound) :
    ∀ set ∈ (s.merge other).sets, ∀ set' ∈ (s.merge other).sets, set.sum ≤ set'.sum + bound := by
  intro set hset set' hset'
  obtain ⟨i, hi, rfl⟩ := List.mem_iff_getElem.mp ((merge_sets_perm s other).mem_iff.mp hset)
  obtain ⟨j, hj, rfl⟩ := List.mem_iff_getElem.mp ((merge_sets_perm s other).mem_iff.mp hset')
  have hik : i < k := by rwa [length_mergedSets] at hi
  have hjk : j < k := by rwa [length_mergedSets] at hj
  have hlen := s.length_eq
  have hlen' := other.length_eq
  rw [getElem_mergedSets s other hi (by omega) (by omega), getElem_mergedSets s other hj (by omega) (by omega),
    ItemSet.merge_sum, ItemSet.merge_sum]
  rcases Nat.le_total i j with hij | hji
  · -- the sets of the other state come in increasing order
    have hle := other.sum_antitone (i := k - 1 - j) (j := k - 1 - i) (by omega) (by omega)
    have hbound := hs s.sets[i] (List.getElem_mem _) s.sets[j] (List.getElem_mem _)
    omega
  · have hle := s.sum_antitone hji (by omega)
    have hbound := hother _ (List.getElem_mem (n := k - 1 - i) (by omega)) _
      (List.getElem_mem (n := k - 1 - j) (by omega))
    omega

theorem merge_filled (hs : min k s.items.length ≤ s.sets.countP ItemSet.nonempty)
    (hother : min k other.items.length ≤ other.sets.countP ItemSet.nonempty) :
    min k (s.merge other).items.length ≤ (s.merge other).sets.countP ItemSet.nonempty := by
  have hlen := s.length_eq
  have hlen' := other.length_eq
  have hends := le_countP_ends (p := ItemSet.nonempty) (l := mergedSets s other)
    (a := s.sets.countP ItemSet.nonempty) (b := other.sets.countP ItemSet.nonempty) fun i hi hend => by
      have hik := hi
      rw [length_mergedSets] at hik hend
      rw [getElem_mergedSets s other hi (by omega) (by omega), ItemSet.nonempty_iff, ItemSet.merge_items]
      rcases hend with hfront | hback
      · exact List.append_ne_nil_of_left_ne_nil (s.nonempty_of_lt _ hfront) _
      · exact List.append_ne_nil_of_right_ne_nil _ (other.nonempty_of_lt _ (by omega))
  rw [(merge_sets_perm s other).countP_eq, (merge_items s other).length_eq, List.length_append]
  rw [length_mergedSets] at hends
  omega

theorem merge_equal (hs : ∃ c, ∀ set ∈ s.sets, set.items.length = c)
    (hother : ∃ c, ∀ set ∈ other.sets, set.items.length = c) :
    ∃ c, ∀ set ∈ (s.merge other).sets, set.items.length = c := by
  obtain ⟨c, hc⟩ := hs
  obtain ⟨c', hc'⟩ := hother
  refine ⟨c + c', fun set hset => ?_⟩
  obtain ⟨i, hi, rfl⟩ := List.mem_iff_getElem.mp ((merge_sets_perm s other).mem_iff.mp hset)
  have hik : i < k := by rwa [length_mergedSets] at hi
  have hlen := s.length_eq
  have hlen' := other.length_eq
  rw [getElem_mergedSets s other hi (by omega) (by omega), ItemSet.merge_items, List.length_append,
    hc _ (List.getElem_mem _), hc' _ (List.getElem_mem _)]

theorem Good.merge {bound : Nat} {equalSize : Bool} (hs : s.Good bound equalSize)
    (hother : other.Good bound equalSize) : (s.merge other).Good bound equalSize where
  spread_le := merge_spread hs.spread_le hother.spread_le
  filled := merge_filled hs.filled hother.filled
  equal h := merge_equal (hs.equal h) (hother.equal h)

end State

end Yuan.Balancing
