import Yuan.Multimodal.LRUCache
import Mathlib.Data.List.Perm.Subperm

/-!
# What the cache keeps

As long as its order has the keys of its data, a removal takes a key out of everything, and the loops of `put` and
`clear` remove keys until they are done. `put` removes unpinned keys from the front of the order on.
-/

namespace Yuan.Multimodal

/-! ## The order -/

section Order

variable {K : Type} [DecidableEq K]

theorem keys_erase (order : Dict K Unit) (key : K) : (order.erase key).keys = order.keys.filter (· ≠ key) := by
  rw [Dict.keys, Dict.keys, List.filter_map]
  rfl

/-- A touched key is the last one. -/
theorem keys_touchOrder (order : Dict K Unit) (key : K) :
    (touchOrder order key).keys = order.keys.filter (· ≠ key) ++ [key] := by
  have hnot : key ∉ (order.erase key).keys := fun hmem => (Dict.mem_keys_erase.mp hmem).1 rfl
  unfold touchOrder
  split
  · rename_i hmem
    obtain ⟨value, hvalue⟩ := Option.isSome_iff_exists.mp hmem
    rw [Dict.moveToEnd, hvalue, Dict.keys, Dict.entries_set_of_not_mem hnot, List.map_append, ← keys_erase]
    rfl
  · rename_i hmem
    have hmem : key ∉ order.keys := fun h => hmem (Dict.contains_iff.mpr h)
    rw [Dict.keys, Dict.entries_set_of_not_mem hmem, List.map_append, ← keys_erase, Dict.erase_of_not_mem hmem]
    rfl

theorem mem_keys_touchOrder {order : Dict K Unit} {key k : K} :
    k ∈ (touchOrder order key).keys ↔ k = key ∨ k ∈ order.keys := by
  rw [keys_touchOrder, List.mem_append, List.mem_filter]
  by_cases hk : k = key
  · simp [hk]
  · simp [hk]

theorem erase_touchOrder (order : Dict K Unit) (key : K) : (touchOrder order key).erase key = order.erase key := by
  unfold touchOrder
  split
  · rename_i hmem
    obtain ⟨value, hvalue⟩ := Option.isSome_iff_exists.mp hmem
    rw [Dict.moveToEnd, hvalue]
    rw [Dict.erase_set, Dict.erase_erase]
  · exact Dict.erase_set _ _ _

end Order

namespace LRUCache

variable {K V : Type} [DecidableEq K] {base : CachetoolsLRU K V} {c c' : LRUCache K V} {key : K} {value : V}

/-- The order has the keys of the data, and the sizes add up to at most the capacity. -/
structure Sound (c : LRUCache K V) : Prop where
  same_keys : ∀ k, k ∈ c.order.keys ↔ k ∈ c.data.keys
  sizes : ∀ k, c.sizes.get? k = (c.data.get? k).map c.config.getsizeof
  currsize_eq : c.currsize = c.data.sum fun _ v => c.config.getsizeof v
  bounded : c.currsize ≤ c.config.maxsize
  pinned : ∀ k ∈ c.pinnedItems, k ∈ c.data.keys

/-- The cache without a key. -/
def without (c : LRUCache K V) (key : K) : LRUCache K V :=
  { c.drop key with pinnedItems := c.pinnedItems.erase key }

/-! ## Removals -/

theorem getItem_of_some (updateInfo : Bool) (hget : c.data.get? key = some value) :
    getItem base c key updateInfo = (.ok value,
      if updateInfo then { c.touch key with hits := c.hits + 1, total := c.total + 1 } else c.touch key) := by
  rw [getItem, base.getItem_of_some c key value hget]
  rfl

theorem mem_keys_of_get (hget : c.data.get? key = some value) : key ∈ c.data.keys :=
  Dict.isSome_get?.mp (by rw [hget]; rfl)

theorem drop_touch : (c.touch key).drop key = c.drop key := by
  unfold drop touch
  simp only [erase_touchOrder]

theorem delItem_of_some (hget : c.data.get? key = some value) : delItem base c key = (.ok (), c.without key) := by
  have hdel : base.delItem (c.touch key) key = (.ok (), (c.touch key).drop key) :=
    base.delItem_of_mem _ key (mem_keys_of_get hget) (mem_keys_touchOrder.mpr (.inl rfl))
  rw [drop_touch] at hdel
  rw [delItem, getItem_of_some false hget]
  simp only [Bool.false_eq_true, if_false, hdel]
  by_cases hpinned : key ∈ c.pinnedItems
  · exact congrArg (Prod.mk _) (if_pos hpinned)
  · refine congrArg (Prod.mk _) ((if_neg hpinned).trans ?_)
    rw [without, Finset.erase_eq_of_notMem hpinned]
    rfl

theorem pop_of_some (hget : c.data.get? key = some value) (default : Option V) :
    pop base c key default = (.ok (some value), c.without key) := by
  have hcontains : c.data.contains key = true := Dict.contains_iff.mpr (mem_keys_of_get hget)
  have hdel : delItem base (c.touch key) key = (.ok (), (c.touch key).without key) := delItem_of_some hget
  rw [pop, if_pos hcontains, getItem_of_some false hget]
  simp only [Bool.false_eq_true, if_false, hdel]
  rw [without, drop_touch]
  rfl

theorem pop_of_none (hget : c.data.get? key = none) (default : Option V) :
    pop base c key default = (.ok default, c) := by
  have hcontains : ¬ c.data.contains key = true := by
    rw [Dict.contains, hget]
    exact Bool.false_ne_true
  rw [pop, if_neg hcontains]

theorem popitem_of_some {removePinned : Bool} (hkey : c.lruKey removePinned = .ok key)
    (hget : c.data.get? key = some value) : popitem base c removePinned = (.ok (key, some value), c.without key) := by
  rw [popitem, hkey]
  simp only [pop_of_some hget]

/-- A key that only the order has is not taken out. -/
theorem popitem_of_none {removePinned : Bool} (hkey : c.lruKey removePinned = .ok key)
    (hget : c.data.get? key = none) : popitem base c removePinned = (.ok (key, none), c) := by
  rw [popitem, hkey]
  simp only [pop_of_none hget]

theorem size_eq (h : Sound c) (hget : c.data.get? key = some value) :
    (c.sizes.get? key).getD 0 = c.config.getsizeof value := by
  rw [h.sizes, hget]
  rfl

theorem Sound.without (h : Sound c) (hget : c.data.get? key = some value) : Sound (c.without key) := by
  have hsize := size_eq h hget
  have hsum := Dict.sum_erase_add hget fun _ v => c.config.getsizeof v
  have hnonneg := c.config.getsizeof_nonneg value
  have hbounded := h.bounded
  constructor
  case same_keys =>
    intro k
    show k ∈ (c.order.erase key).keys ↔ k ∈ (c.data.erase key).keys
    rw [Dict.mem_keys_erase, Dict.mem_keys_erase, h.same_keys]
  case sizes =>
    intro k
    show (c.sizes.erase key).get? k = ((c.data.erase key).get? k).map c.config.getsizeof
    rw [Dict.get?_erase, Dict.get?_erase]
    split
    · rfl
    · exact h.sizes k
  case currsize_eq =>
    show c.currsize - (c.sizes.get? key).getD 0 = (c.data.erase key).sum fun _ v => c.config.getsizeof v
    rw [hsize, h.currsize_eq]
    linarith
  case bounded =>
    show c.currsize - (c.sizes.get? key).getD 0 ≤ c.config.maxsize
    linarith
  case pinned =>
    intro k hk
    obtain ⟨hne, hk⟩ := Finset.mem_erase.mp hk
    exact Dict.mem_keys_erase.mpr ⟨hne, h.pinned k hk⟩

/-! ## Stores -/

theorem sum_set (data : Dict K V) (key : K) (value : V) (size : V → Rat) :
    ((data.set key value).sum fun _ v => size v) + ((data.get? key).map size).getD 0 =
      (data.sum fun _ v => size v) + size value := by
  have hnew := Dict.sum_erase_add (Dict.get?_set_self data key value) fun _ v => size v
  rw [Dict.erase_set] at hnew
  cases hget : data.get? key with
  | none =>
    rw [Dict.erase_of_not_mem (Dict.get?_eq_none.mp hget)] at hnew
    show _ + (0 : Rat) = _
    linarith
  | some old =>
    have hold := Dict.sum_erase_add hget fun _ v => size v
    show _ + size old = _
    linarith

theorem Sound.store (h : Sound c)
    (hfits : c.currsize + (c.config.getsizeof value - (c.sizes.get? key).getD 0) ≤ c.config.maxsize) :
    Sound (c.store key value) := by
  constructor
  case same_keys =>
    intro k
    show k ∈ (touchOrder c.order key).keys ↔ k ∈ (c.data.set key value).keys
    rw [mem_keys_touchOrder, Dict.mem_keys_set, h.same_keys]
  case sizes =>
    intro k
    show (c.sizes.set key (c.config.getsizeof value)).get? k =
      ((c.data.set key value).get? k).map c.config.getsizeof
    rw [Dict.get?_set, Dict.get?_set]
    split
    · rfl
    · exact h.sizes k
  case currsize_eq =>
    have hsum := sum_set c.data key value c.config.getsizeof
    rw [← h.sizes] at hsum
    show c.currsize + (c.config.getsizeof value - (c.sizes.get? key).getD 0) = _
    rw [h.currsize_eq]
    show _ = (c.data.set key value).sum fun _ v => c.config.getsizeof v
    linarith
  case bounded => exact hfits
  case pinned => exact fun k hk => Dict.mem_keys_set.mpr (.inr (h.pinned k hk))

theorem Sound.touch (h : Sound c) (hmem : key ∈ c.data.keys) : Sound (c.touch key) := by
  refine ⟨fun k => ?_, h.sizes, h.currsize_eq, h.bounded, h.pinned⟩
  show k ∈ (touchOrder c.order key).keys ↔ k ∈ c.data.keys
  rw [mem_keys_touchOrder, h.same_keys]
  exact or_iff_right_of_imp fun hk => hk ▸ hmem

/-! ## Evictions -/

/-- The keys that may be evicted, oldest first. -/
def unpinned (c : LRUCache K V) : List K := c.order.keys.filter (· ∉ c.pinnedItems)

theorem lruKey_of_cons {rest : List K} (h : c.unpinned = key :: rest) : c.lruKey false = .ok key := by
  have hfind : c.order.keys.find? (· ∉ c.pinnedItems) = some key := by
    rw [← List.head?_filter]
    exact congrArg List.head? h
  rw [lruKey, if_neg Bool.false_ne_true, hfind]

theorem lruKey_of_nil (h : c.unpinned = []) :
    c.lruKey false = .error (.runtimeError "All items are pinned, cannot remove oldest from the cache.") := by
  have hfind : c.order.keys.find? (· ∉ c.pinnedItems) = none := by
    rw [← List.head?_filter]
    exact congrArg List.head? h
  rw [lruKey, if_neg Bool.false_ne_true, hfind]

theorem mem_unpinned {k : K} : k ∈ c.unpinned ↔ k ∈ c.order.keys ∧ k ∉ c.pinnedItems := by
  rw [unpinned, List.mem_filter, decide_eq_true_iff]

theorem nodup_unpinned : c.unpinned.Nodup := c.order.nodup_keys.filter _

theorem length_unpinned_le (h : Sound c) : c.unpinned.length ≤ c.data.keys.length := by
  have hsub : c.unpinned ⊆ c.data.keys := fun k hk => (h.same_keys k).mp (mem_unpinned.mp hk).1
  exact (nodup_unpinned.subperm hsub).length_le

theorem unpinned_without {rest : List K} (h : c.unpinned = key :: rest) : (c.without key).unpinned = rest := by
  have hnodup : (key :: rest).Nodup := h ▸ nodup_unpinned
  have hsplit : (c.without key).unpinned = c.unpinned.filter (· ≠ key) := by
    show (c.order.erase key).keys.filter (· ∉ c.pinnedItems.erase key) = _
    rw [keys_erase, unpinned, List.filter_filter, List.filter_filter]
    refine List.filter_congr fun k _ => ?_
    by_cases hk : k = key
    · simp [hk]
    · simp [hk]
  have hrest : rest.filter (· ≠ key) = rest := by
    refine List.filter_eq_self.mpr fun k hk => decide_eq_true ?_
    rintro rfl
    exact (List.nodup_cons.mp hnodup).1 hk
  rw [hsplit, h, List.filter_cons_of_neg (by simp), hrest]

/-- `c'` is `c` without the keys `ks`, none of them pinned. -/
structure Evicted (c c' : LRUCache K V) (ks : List K) : Prop where
  sound : Sound c'
  config : c'.config = c.config
  data : ∀ k, c'.data.get? k = if k ∈ ks then none else c.data.get? k
  order : c'.order.keys = c.order.keys.filter (· ∉ ks)
  pinned : c'.pinnedItems = c.pinnedItems

theorem Evicted.refl (h : Sound c) : Evicted c c [] :=
  ⟨h, rfl, fun _ => rfl, (List.filter_eq_self.mpr fun _ _ => decide_eq_true List.not_mem_nil).symm, rfl⟩

theorem Evicted.cons {ks : List K} (hpinned : key ∉ c.pinnedItems) (h : Evicted (c.without key) c' ks) :
    Evicted c c' (key :: ks) := by
  refine ⟨h.sound, h.config, fun k => ?_, ?_, h.pinned.trans (Finset.erase_eq_of_notMem hpinned)⟩
  · rw [h.data]
    show (if k ∈ ks then none else (c.data.erase key).get? k) = _
    rw [Dict.get?_erase]
    by_cases hk : k = key
    · simp [hk]
    · simp [hk]
  · rw [h.order]
    show (c.order.erase key).keys.filter (· ∉ ks) = _
    rw [keys_erase, List.filter_filter]
    refine List.filter_congr fun k _ => ?_
    by_cases hk : k = key
    · simp [hk]
    · simp [hk]

variable (base) in
/-- The loop of `__setitem__` evicts the oldest unpinned keys, until the value fits or all keys are pinned. -/
theorem makeRoom_eq (hsound : Sound c) (size : Rat) {fuel : Nat} (hfuel : c.unpinned.length < fuel) :
    ∃ n result c', base.makeRoom (fun c => popitem base c false) fuel c size = some (result, c') ∧
      Evicted c c' (c.unpinned.take n) ∧ (result = .ok () → c'.currsize + size ≤ c'.config.maxsize) := by
  obtain ⟨fuel, rfl⟩ := Nat.exists_eq_add_one_of_ne_zero (Nat.ne_zero_of_lt hfuel)
  generalize hunpinned : c.unpinned = keys at *
  induction keys generalizing c fuel with
  | nil =>
    rcases le_or_gt (c.currsize + size) c.config.maxsize with hfits | hlarge
    · exact ⟨0, .ok (), c, base.makeRoom_fits _ _ _ _ hfits, Evicted.refl hsound, fun _ => hfits⟩
    · have hpop : popitem base c false =
          (.error (.runtimeError "All items are pinned, cannot remove oldest from the cache."), c) := by
        rw [popitem, lruKey_of_nil hunpinned]
      exact ⟨0, _, c, base.makeRoom_error _ _ _ _ _ _ hlarge hpop, Evicted.refl hsound, fun h => (by cases h)⟩
  | cons key rest ih =>
    rcases le_or_gt (c.currsize + size) c.config.maxsize with hfits | hlarge
    · exact ⟨0, .ok (), c, base.makeRoom_fits _ _ _ _ hfits, Evicted.refl hsound, fun _ => hfits⟩
    · have hmem : key ∈ c.unpinned := hunpinned ▸ List.mem_cons_self
      obtain ⟨horder, hpinned⟩ := mem_unpinned.mp hmem
      obtain ⟨value, hget⟩ := Option.isSome_iff_exists.mp (Dict.isSome_get?.mpr ((hsound.same_keys key).mp horder))
      have hpop : popitem base c false = (.ok (key, some value), c.without key) :=
        popitem_of_some (lruKey_of_cons hunpinned) hget
      obtain ⟨fuel, rfl⟩ := Nat.exists_eq_add_one_of_ne_zero (Nat.ne_zero_of_lt (Nat.lt_of_succ_lt_succ hfuel))
      obtain ⟨n, result, c', hroom, hevicted, hfits⟩ :=
        ih (hsound.without hget) fuel (unpinned_without hunpinned) (Nat.lt_of_succ_lt_succ hfuel)
      refine ⟨n + 1, result, c', ?_, hevicted.cons hpinned, hfits⟩
      rw [base.makeRoom_ok _ _ _ _ _ _ hlarge hpop, hroom]

variable (base) in
/-- `put` evicts the oldest unpinned keys and stores the value, or raises. -/
theorem put_eq (hsound : Sound c) (key : K) (value : V) {fuel : Nat} (hfuel : c.unpinned.length < fuel) :
    ∃ n result c₁ c', put base c fuel key value = some (result, c') ∧ Evicted c c₁ (c.unpinned.take n) ∧ Sound c' ∧
      ((result = .ok () ∧ c' = c₁.store key value) ∨ ∃ error, result = .error error ∧ c' = c₁) := by
  rcases le_or_gt (c.config.getsizeof value) c.config.maxsize with hle | hlarge
  · by_cases hsmaller : ∃ size, key ∈ c.data.keys ∧ c.sizes.get? key = some size ∧ c.config.getsizeof value ≤ size
    · obtain ⟨size, hmem, hsize, hle'⟩ := hsmaller
      have hbounded := hsound.bounded
      refine ⟨0, _, c, _, base.setItem_smaller _ _ _ _ _ size hle hmem hsize hle', Evicted.refl hsound,
        hsound.store ?_, .inl ⟨rfl, rfl⟩⟩
      rw [hsize, Option.getD_some]
      linarith
    · have hgrows (size : Rat) (hmem : key ∈ c.data.keys) (hsize : c.sizes.get? key = some size) :
          size < c.config.getsizeof value := by
        by_contra hnot
        exact hsmaller ⟨size, hmem, hsize, not_lt.mp hnot⟩
      obtain ⟨n, result, c₁, hroom, hevicted, hfits⟩ :=
        makeRoom_eq base hsound (c.config.getsizeof value) hfuel
      cases result with
      | error error =>
        exact ⟨n, _, c₁, c₁, base.setItem_error _ _ _ _ _ error c₁ hle hgrows hroom, hevicted, hevicted.sound,
          .inr ⟨error, rfl, rfl⟩⟩
      | ok u =>
        have hfits := hfits rfl
        have hold : 0 ≤ (c₁.sizes.get? key).getD 0 := by
          rw [hevicted.sound.sizes]
          cases c₁.data.get? key with
          | none => exact le_rfl
          | some old => exact c₁.config.getsizeof_nonneg old
        refine ⟨n, _, c₁, _, base.setItem_ok _ _ _ _ _ c₁ hle hgrows hroom, hevicted, hevicted.sound.store ?_,
          .inl ⟨rfl, rfl⟩⟩
        rw [hevicted.config] at hfits ⊢
        linarith
  · exact ⟨0, _, c, c, base.setItem_large _ _ _ _ _ hlarge, Evicted.refl hsound, hsound, .inr ⟨_, rfl, rfl⟩⟩

theorem lruKey_true (hsound : Sound c) (hdata : 0 < c.data.keys.length) :
    ∃ key ∈ c.data.keys, c.lruKey true = .ok key := by
  cases horder : c.order.keys with
  | nil =>
    obtain ⟨key, hkey⟩ := List.exists_mem_of_length_pos hdata
    have hmem := (hsound.same_keys key).mpr hkey
    rw [horder] at hmem
    cases hmem
  | cons key rest =>
    refine ⟨key, (hsound.same_keys key).mp (horder ▸ List.mem_cons_self), ?_⟩
    rw [lruKey, if_pos rfl, horder]
    rfl

theorem length_keys_without (hget : c.data.get? key = some value) :
    (c.without key).data.keys.length + 1 = c.data.keys.length := Dict.length_keys_erase hget

variable (base) in
/-- `clear` takes out one key after the other. -/
theorem clear_eq (hsound : Sound c) {fuel : Nat} (hfuel : c.data.keys.length < fuel) :
    ∃ c', clear base c fuel = some (.ok (), c') ∧ Sound c' ∧ c'.config = c.config ∧ c'.data.keys = [] := by
  unfold clear
  induction fuel generalizing c with
  | zero => exact absurd hfuel (Nat.not_lt_zero _)
  | succ fuel ih =>
    rw [clearLoop]
    split
    · rename_i hdata
      obtain ⟨key, hkey, hlru⟩ := lruKey_true hsound hdata
      obtain ⟨value, hget⟩ := Option.isSome_iff_exists.mp (Dict.isSome_get?.mpr hkey)
      have hremove : removeOldest base c true = (.ok (), c.without key) := by
        rw [removeOldest, if_neg hdata.ne', popitem_of_some hlru hget]
      have hlength := length_keys_without hget
      obtain ⟨c', hclear, hsound', hconfig, hempty⟩ := ih (hsound.without hget) (by omega)
      refine ⟨c', ?_, hsound', hconfig, hempty⟩
      rw [hremove]
      exact hclear
    · rename_i hdata
      refine ⟨_, rfl, ?_, rfl, List.length_eq_zero_iff.mp (Nat.eq_zero_of_not_pos hdata)⟩
      exact ⟨hsound.same_keys, hsound.sizes, hsound.currsize_eq, hsound.bounded, hsound.pinned⟩

end LRUCache

end Yuan.Multimodal
