import Yuan.Multimodal.LRUInvariant
import Yuan.Lib.Runs

/-!
# Runs of the cache

Any operations one after the other, with the times at which keys were last used. `touch` puts an absent key into the
order. Once it is the oldest one, `popitem` takes nothing out, and `put` and `clear` call it forever.
-/

namespace Yuan.Multimodal

inductive LRUOp (K V : Type) where
  | put (key : K) (value : V)
  | get (key : K) (default : Option V)
  | item (key : K)
  | touch (key : K)
  | pin (key : K)
  | pop (key : K) (default : Option V)
  | removeOldest (removePinned : Bool)
  | clear

/-- A cache, and when each key was last used. -/
structure LRURun (K V : Type) where
  cache : LRUCache K V
  lastUse : K → Nat
  clock : Nat

section

variable {K V : Type} [DecidableEq K] [ToString K]

/-- The cache after an operation, and the key that the operation used; nothing while the fuel does not suffice. -/
def LRUCache.exec (base : CachetoolsLRU K V) (fuel : Nat) (c : LRUCache K V) :
    LRUOp K V → Option (LRUCache K V × Option K)
  | .put key value => (c.put base fuel key value).map fun r => (r.2, if r.1.isOk then some key else none)
  | .get key default => some ((c.get base key default).2, if c.data.contains key then some key else none)
  | .item key => some ((c.getItem base key true).2, if c.data.contains key then some key else none)
  | .touch key => some (c.touch key, some key)
  | .pin key => some ((c.pin key).2, none)
  | .pop key default => some ((c.pop base key default).2, none)
  | .removeOldest removePinned => some ((c.removeOldest base removePinned).2, none)
  | .clear => (c.clear base fuel).map fun r => (r.2, none)

namespace LRURun

/-- A new cache. -/
def fresh (config : LRUConfig V) : LRURun K V := ⟨{ config := config }, fun _ => 0, 0⟩

def use (r : LRURun K V) (cache : LRUCache K V) : Option K → LRURun K V
  | none => { r with cache }
  | some key => ⟨cache, Function.update r.lastUse key r.clock, r.clock + 1⟩

/-- One operation; each of its loops takes a key out at every turn, or does not end. -/
def step (base : CachetoolsLRU K V) (r : LRURun K V) (op : LRUOp K V) : Option (LRURun K V) :=
  (r.cache.exec base (r.cache.data.keys.length + 1) op).map fun result => r.use result.1 result.2

/-- Only keys in the cache are touched. -/
def TouchesPresent (r : LRURun K V) (op : LRUOp K V) : Prop := ∀ key, op = .touch key → key ∈ r.cache.data.keys

instance (r : LRURun K V) : ∀ op, Decidable (r.TouchesPresent op)
  | .touch key => decidable_of_iff (key ∈ r.cache.data.keys)
      ⟨fun h _ heq => (by cases heq; exact h), fun h => h key rfl⟩
  | .put _ _ | .get _ _ | .item _ | .pin _ | .pop _ _ | .removeOldest _ | .clear => isTrue fun _ heq => (by cases heq)

/-- The order is that of the last uses. -/
structure Recent (r : LRURun K V) : Prop where
  before : ∀ key ∈ r.cache.order.keys, r.lastUse key < r.clock
  sorted : r.cache.order.keys.Pairwise fun key key' => r.lastUse key < r.lastUse key'

end LRURun

end

/-! ## The order of the last uses -/

namespace LRURun

variable {K V : Type} [DecidableEq K] {r : LRURun K V} {c : LRUCache K V}

omit [DecidableEq K] in
/-- Keys may leave. -/
theorem Recent.sublist (h : Recent r) (hsub : c.order.keys.Sublist r.cache.order.keys) :
    Recent { r with cache := c } :=
  ⟨fun key hkey => h.before key (hsub.subset hkey), h.sorted.sublist hsub⟩

/-- A used key becomes the last one. -/
theorem Recent.use (h : Recent r) {key : K} {keys : List K} (hsub : keys.Sublist r.cache.order.keys)
    (horder : c.order.keys = keys.filter (· ≠ key) ++ [key]) : Recent (r.use c (some key)) := by
  have hne {k : K} (hk : k ∈ keys.filter (· ≠ key)) :
      Function.update r.lastUse key r.clock k = r.lastUse k ∧ r.lastUse k < r.clock := by
    obtain ⟨hmem, hne⟩ := List.mem_filter.mp hk
    exact ⟨Function.update_of_ne (of_decide_eq_true hne) _ _, h.before k (hsub.subset hmem)⟩
  have hlast : Function.update r.lastUse key r.clock key = r.clock := Function.update_self _ _ _
  constructor
  case before =>
    intro k hk
    show Function.update r.lastUse key r.clock k < r.clock + 1
    have hk : k ∈ keys.filter (· ≠ key) ++ [key] := horder ▸ hk
    rw [List.mem_append, List.mem_singleton] at hk
    rcases hk with hk | rfl
    · obtain ⟨heq, hlt⟩ := hne hk
      rw [heq]
      exact Nat.lt_succ_of_lt hlt
    · rw [hlast]
      exact Nat.lt_succ_self _
  case sorted =>
    show c.order.keys.Pairwise _
    rw [horder, List.pairwise_append]
    refine ⟨?_, List.pairwise_singleton _ _, fun k hk k' hk' => ?_⟩
    · have hsorted : (keys.filter (· ≠ key)).Pairwise fun k k' => r.lastUse k < r.lastUse k' :=
        h.sorted.sublist (List.filter_sublist.trans hsub)
      refine hsorted.imp_of_mem fun {k k'} hk hk' hlt => ?_
      show Function.update r.lastUse key r.clock k < Function.update r.lastUse key r.clock k'
      rwa [(hne hk).1, (hne hk').1]
    · obtain rfl := List.mem_singleton.mp hk'
      show Function.update r.lastUse _ r.clock k < Function.update r.lastUse _ r.clock _
      rw [(hne hk).1, hlast]
      exact (hne hk).2

end LRURun

/-! ## Steps -/

namespace LRUCache

variable {K V : Type} [DecidableEq K] {base : CachetoolsLRU K V} {c c' : LRUCache K V} {key : K} {value : V}

/-- What becomes of the order: keys leave, and a used key goes to the end. -/
def OrderStep (c c' : LRUCache K V) : Option K → Prop
  | none => c'.order.keys.Sublist c.order.keys
  | some key => ∃ keys : List K, keys.Sublist c.order.keys ∧ c'.order.keys = keys.filter (· ≠ key) ++ [key]

theorem orderStep_touch (key : K) (hits total : Nat) :
    OrderStep c { c.touch key with hits, total } (some key) :=
  ⟨c.order.keys, .refl _, keys_touchOrder c.order key⟩

theorem orderStep_without (key : K) : OrderStep c (c.without key) none := by
  show (c.order.erase key).keys.Sublist c.order.keys
  rw [keys_erase]
  exact List.filter_sublist

theorem mem_of_lruKey {removePinned : Bool} (h : c.lruKey removePinned = .ok key) : key ∈ c.order.keys := by
  unfold lruKey at h
  split at h
  · split at h
    · rename_i hhead
      cases h
      exact List.mem_of_mem_head? hhead
    · cases h
  · split at h
    · rename_i hfind
      cases h
      exact List.mem_of_find?_eq_some hfind
    · cases h

theorem exists_value (h : key ∈ c.data.keys) : ∃ value, c.data.get? key = some value :=
  Option.isSome_iff_exists.mp (Dict.isSome_get?.mpr h)

/-- A cache that differs only in its counters. -/
theorem Sound.counters (h : Sound c) (hits total : Nat) : Sound { c with hits, total } :=
  ⟨h.same_keys, h.sizes, h.currsize_eq, h.bounded, h.pinned⟩

variable (base) in
theorem removeOldest_eq (hsound : Sound c) (removePinned : Bool) :
    (removeOldest base c removePinned).2 = c ∨
      ∃ key value, c.lruKey removePinned = .ok key ∧ c.data.get? key = some value ∧
        removeOldest base c removePinned = (.ok (), c.without key) := by
  by_cases hdata : c.data.keys.length = 0
  · left
    rw [removeOldest, if_pos hdata]
  · cases hkey : c.lruKey removePinned with
    | error error =>
      left
      rw [removeOldest, if_neg hdata, popitem, hkey]
    | ok key =>
      right
      obtain ⟨value, hget⟩ := exists_value ((hsound.same_keys key).mp (mem_of_lruKey hkey))
      refine ⟨key, value, rfl, hget, ?_⟩
      rw [removeOldest, if_neg hdata, popitem_of_some hkey hget]

variable (base) in
/-- Every operation ends and keeps the cache sound, if it touches only keys in the cache. -/
theorem exec_eq [ToString K] (hsound : Sound c) (op : LRUOp K V) (htouch : ∀ key, op = .touch key → key ∈ c.data.keys)
    {fuel : Nat} (hfuel : c.data.keys.length < fuel) :
    ∃ c' used, exec base fuel c op = some (c', used) ∧ Sound c' ∧ c'.config = c.config ∧ OrderStep c c' used := by
  cases op with
  | put key value =>
    obtain ⟨n, result, c₁, c', hput, hevicted, hsound', hresult⟩ :=
      put_eq base hsound key value ((length_unpinned_le hsound).trans_lt hfuel)
    have hkeys : c₁.order.keys.Sublist c.order.keys := hevicted.order ▸ List.filter_sublist
    rcases hresult with ⟨rfl, rfl⟩ | ⟨error, rfl, rfl⟩
    · refine ⟨_, some key, ?_, hsound', hevicted.config, c₁.order.keys, hkeys, keys_touchOrder c₁.order key⟩
      rw [exec, hput]
      rfl
    · refine ⟨_, none, ?_, hsound', hevicted.config, hkeys⟩
      rw [exec, hput]
      rfl
  | get key default =>
    rw [exec, get]
    by_cases hcontains : c.data.contains key = true
    · have hmem := Dict.contains_iff.mp hcontains
      obtain ⟨value, hget⟩ := exists_value hmem
      rw [if_pos hcontains, if_pos hcontains, getItem_of_some false hget]
      exact ⟨_, some key, rfl, (hsound.touch hmem).counters _ _, rfl, orderStep_touch key _ _⟩
    · rw [if_neg hcontains, if_neg hcontains]
      exact ⟨_, none, rfl, hsound.counters _ _, rfl, .refl _⟩
  | item key =>
    rw [exec]
    by_cases hcontains : c.data.contains key = true
    · have hmem := Dict.contains_iff.mp hcontains
      obtain ⟨value, hget⟩ := exists_value hmem
      rw [if_pos hcontains, getItem_of_some true hget]
      exact ⟨_, some key, rfl, (hsound.touch hmem).counters _ _, rfl, orderStep_touch key _ _⟩
    · have hget : c.data.get? key = none := Option.not_isSome_iff_eq_none.mp hcontains
      rw [if_neg hcontains, getItem, base.getItem_of_none c key hget]
      exact ⟨c, none, rfl, hsound, rfl, .refl _⟩
  | touch key =>
    exact ⟨_, some key, rfl, hsound.touch (htouch key rfl), rfl, orderStep_touch key c.hits c.total⟩
  | pin key =>
    rw [exec, pin]
    by_cases hcontains : c.data.contains key = true
    · rw [if_pos hcontains]
      refine ⟨_, none, rfl, ⟨hsound.same_keys, hsound.sizes, hsound.currsize_eq, hsound.bounded, fun k hk => ?_⟩, rfl,
        .refl _⟩
      rcases Finset.mem_insert.mp hk with rfl | hk
      · exact Dict.contains_iff.mp hcontains
      · exact hsound.pinned k hk
    · rw [if_neg hcontains]
      exact ⟨c, none, rfl, hsound, rfl, .refl _⟩
  | pop key default =>
    rw [exec]
    cases hget : c.data.get? key with
    | none =>
      rw [pop_of_none hget]
      exact ⟨c, none, rfl, hsound, rfl, .refl _⟩
    | some value =>
      rw [pop_of_some hget]
      exact ⟨_, none, rfl, hsound.without hget, rfl, orderStep_without key⟩
  | removeOldest removePinned =>
    rw [exec]
    rcases removeOldest_eq base hsound removePinned with hsame | ⟨key, value, -, hget, hremove⟩
    · rw [hsame]
      exact ⟨c, none, rfl, hsound, rfl, .refl _⟩
    · rw [hremove]
      exact ⟨_, none, rfl, hsound.without hget, rfl, orderStep_without key⟩
  | clear =>
    obtain ⟨c', hclear, hsound', hconfig, hempty⟩ := clear_eq base hsound hfuel
    refine ⟨c', none, ?_, hsound', hconfig, ?_⟩
    · rw [exec, hclear]
      rfl
    · have horder : c'.order.keys = [] := by
        refine List.eq_nil_iff_forall_not_mem.mpr fun k hk => ?_
        have hmem := (hsound'.same_keys k).mp hk
        rw [hempty] at hmem
        cases hmem
      show c'.order.keys.Sublist c.order.keys
      rw [horder]
      exact List.nil_sublist _

theorem sound_fresh (config : LRUConfig V) : Sound ({ config := config } : LRUCache K V) :=
  ⟨fun _ => Iff.rfl, fun _ => rfl, rfl, config.maxsize_nonneg, fun k hk => absurd hk (Finset.notMem_empty k)⟩

end LRUCache

/-! ## Whole runs -/

section

variable {K V : Type} [DecidableEq K] [ToString K]

/-- What the cache is for: its operations end, evict the keys that were not used for longest, and empty it. -/
structure LRURun.Works (base : CachetoolsLRU K V) (r : LRURun K V) : Prop where
  sound : r.cache.Sound
  recent : r.Recent
  ends : ∀ op, r.TouchesPresent op → ∀ fuel, r.cache.data.keys.length < fuel →
    ∃ result, r.cache.exec base fuel op = some result
  /-- `put` evicts the oldest unpinned keys. -/
  evicts : ∀ key value fuel, r.cache.data.keys.length < fuel →
    ∃ n result c', r.cache.put base fuel key value = some (result, c') ∧
      (∀ k, k ≠ key → c'.data.get? k = if k ∈ r.cache.unpinned.take n then none else r.cache.data.get? k) ∧
      (result = .ok () → c'.data.get? key = some value) ∧ ∀ k ∈ r.cache.pinnedItems, k ∈ c'.data.keys
  removes_oldest : ∀ key rest, r.cache.unpinned = key :: rest →
    r.cache.removeOldest base false = (.ok (), r.cache.without key)
  clears : ∀ fuel, r.cache.data.keys.length < fuel → ∃ c', r.cache.clear base fuel = some (.ok (), c') ∧
    c'.data.keys = [] ∧ c'.order.keys = [] ∧ c'.currsize = 0 ∧ c'.pinnedItems = ∅

variable {base : CachetoolsLRU K V} {r r' : LRURun K V} {config : LRUConfig V}

omit [DecidableEq K] [ToString K] in
theorem LRURun.recent_fresh : (LRURun.fresh config : LRURun K V).Recent :=
  ⟨fun _ hkey => (by cases hkey), List.Pairwise.nil⟩

/-- One step keeps the cache sound and its order that of the last uses. -/
theorem LRURun.step_sound (hsound : r.cache.Sound) (hrecent : r.Recent) {op : LRUOp K V}
    (hallowed : r.TouchesPresent op) (hstep : r.step base op = some r') :
    r'.cache.Sound ∧ r'.Recent ∧ r'.cache.config = r.cache.config := by
  obtain ⟨c', used, hexec, hsound', hconfig, horder⟩ :=
    LRUCache.exec_eq base hsound op hallowed (Nat.lt_succ_self _)
  rw [LRURun.step, hexec] at hstep
  cases hstep
  cases used with
  | none => exact ⟨hsound', hrecent.sublist horder, hconfig⟩
  | some key =>
    obtain ⟨keys, hsub, hkeys⟩ := horder
    exact ⟨hsound', hrecent.use hsub hkeys, hconfig⟩

theorem LRURun.run_sound (h : ReachedBy (LRURun.step base) LRURun.TouchesPresent (LRURun.fresh config) r) :
    r.cache.Sound ∧ r.Recent ∧ r.cache.config = config := by
  refine ReachedBy.invariant (P := fun r => r.cache.Sound ∧ r.Recent ∧ r.cache.config = config)
    ⟨LRUCache.sound_fresh config, LRURun.recent_fresh, rfl⟩ ?_ h
  intro r op r' ⟨hsound, hrecent, hconfig⟩ hallowed hstep
  obtain ⟨hsound', hrecent', hconfig'⟩ := LRURun.step_sound hsound hrecent hallowed hstep
  exact ⟨hsound', hrecent', hconfig'.trans hconfig⟩

omit [ToString K] in
/-- The keys of a sound cache without data are gone from everything. -/
theorem LRUCache.Sound.empty {c : LRUCache K V} (h : c.Sound) (hdata : c.data.keys = []) :
    c.order.keys = [] ∧ c.currsize = 0 ∧ c.pinnedItems = ∅ := by
  have hnot (k : K) : k ∉ c.data.keys := by
    rw [hdata]
    exact List.not_mem_nil
  refine ⟨List.eq_nil_iff_forall_not_mem.mpr fun k hk => hnot k ((h.same_keys k).mp hk), ?_,
    Finset.eq_empty_of_forall_notMem fun k hk => hnot k (h.pinned k hk)⟩
  rw [h.currsize_eq, Dict.sum, List.map_eq_nil_iff.mp hdata]
  rfl

/-- While only keys in the cache are touched, the cache works. -/
theorem lru_cache_works (base : CachetoolsLRU K V)
    (h : ReachedBy (LRURun.step base) LRURun.TouchesPresent (LRURun.fresh config) r) :
    r.cache.config = config ∧ r.Works base := by
  obtain ⟨hsound, hrecent, hconfig⟩ := LRURun.run_sound h
  refine ⟨hconfig, hsound, hrecent, ?_, ?_, ?_, ?_⟩
  · intro op hallowed fuel hfuel
    obtain ⟨c', used, hexec, -⟩ := LRUCache.exec_eq base hsound op hallowed hfuel
    exact ⟨_, hexec⟩
  · intro key value fuel hfuel
    obtain ⟨n, result, c₁, c', hput, hevicted, -, hresult⟩ :=
      LRUCache.put_eq base hsound key value ((LRUCache.length_unpinned_le hsound).trans_lt hfuel)
    have hpinned (k : K) (hk : k ∈ r.cache.pinnedItems) : k ∈ c₁.data.keys :=
      hevicted.sound.pinned k (hevicted.pinned ▸ hk)
    rcases hresult with ⟨rfl, rfl⟩ | ⟨error, rfl, rfl⟩
    · refine ⟨n, _, _, hput, fun k hk => ?_, fun _ => Dict.get?_set_self _ _ _,
        fun k hk => Dict.mem_keys_set.mpr (.inr (hpinned k hk))⟩
      exact (Dict.get?_set_of_ne _ _ hk).trans (hevicted.data k)
    · exact ⟨n, _, _, hput, fun k _ => hevicted.data k, fun herror => (by cases herror), hpinned⟩
  · intro key rest hunpinned
    have hmem : key ∈ r.cache.unpinned := hunpinned ▸ List.mem_cons_self
    have hdata := (hsound.same_keys key).mp (LRUCache.mem_unpinned.mp hmem).1
    obtain ⟨value, hget⟩ := LRUCache.exists_value hdata
    rw [LRUCache.removeOldest, if_neg (List.length_pos_of_mem hdata).ne',
      LRUCache.popitem_of_some (LRUCache.lruKey_of_cons hunpinned) hget]
  · intro fuel hfuel
    obtain ⟨c', hclear, hsound', -, hempty⟩ := LRUCache.clear_eq base hsound hfuel
    exact ⟨c', hclear, hempty, hsound'.empty hempty⟩

end

/-! ## The base class as published -/

namespace CachetoolsLRU

variable {K V : Type} [DecidableEq K]

/-- `while self.__currsize + size > maxsize: self.popitem()`. -/
def publishedMakeRoom (pop : PopItem K V) :
    Nat → LRUCache K V → Rat → Option (Except (LRUError K) Unit × LRUCache K V)
  | 0, _, _ => none
  | fuel + 1, c, size =>
    if c.config.maxsize < c.currsize + size then
      match pop c with
      | (.error error, c) => some (.error error, c)
      | (.ok _, c) => publishedMakeRoom pop fuel c size
    else some (.ok (), c)

/-- Whether a value takes no more room than the one that it replaces. -/
def replaces (c : LRUCache K V) (key : K) (size : Rat) : Bool :=
  c.data.contains key && (c.sizes.get? key).any (size ≤ ·)

theorem replaces_eq_false {c : LRUCache K V} {key : K} {size : Rat}
    (h : ∀ old, key ∈ c.data.keys → c.sizes.get? key = some old → old < size) : replaces c key size = false := by
  rw [Bool.eq_false_iff]
  intro hreplaces
  obtain ⟨hmem, hany⟩ := Bool.and_eq_true_iff.mp hreplaces
  cases hold : c.sizes.get? key with
  | none =>
    rw [hold] at hany
    cases hany
  | some old =>
    rw [hold] at hany
    exact absurd (h old (Dict.contains_iff.mp hmem) hold) (not_lt.mpr (of_decide_eq_true hany))

def publishedSetItem (pop : PopItem K V) (fuel : Nat) (c : LRUCache K V) (key : K) (value : V) :
    Option (Except (LRUError K) Unit × LRUCache K V) :=
  if c.config.maxsize < c.config.getsizeof value then some (.error (.valueError "value too large"), c)
  else if replaces c key (c.config.getsizeof value) then some (.ok (), c.store key value)
  else
    match publishedMakeRoom pop fuel c (c.config.getsizeof value) with
    | none => none
    | some (.error error, c) => some (.error error, c)
    | some (.ok _, c) => some (.ok (), c.store key value)

def published : CachetoolsLRU K V where
  getItem c key :=
    match c.data.get? key with
    | some value => (.ok value, { c with order := touchOrder c.order key })
    | none => (.error (.keyError key), c)
  delItem c key :=
    if key ∈ c.data.keys then
      if key ∈ c.order.keys then (.ok (), c.drop key) else (.error (.keyError key), c.drop key)
    else (.error (.keyError key), c)
  makeRoom := publishedMakeRoom
  setItem := publishedSetItem
  getItem_of_some c key value hget := by rw [hget]
  getItem_of_none c key hget := by rw [hget]
  delItem_of_mem c key hdata horder := by rw [if_pos hdata, if_pos horder]
  makeRoom_zero pop c size := rfl
  makeRoom_fits pop fuel c size hfits := by rw [publishedMakeRoom, if_neg (not_lt.mpr hfits)]
  makeRoom_ok pop fuel c size item c' hlarge hpop := by rw [publishedMakeRoom, if_pos hlarge, hpop]
  makeRoom_error pop fuel c size error c' hlarge hpop := by rw [publishedMakeRoom, if_pos hlarge, hpop]
  setItem_large pop fuel c key value hlarge := by rw [publishedSetItem, if_pos hlarge]
  setItem_smaller pop fuel c key value size hle hmem hsize hsmaller := by
    have hreplaces : replaces c key (c.config.getsizeof value) = true := by
      rw [replaces, hsize, Dict.contains_iff.mpr hmem]
      exact decide_eq_true hsmaller
    rw [publishedSetItem, if_neg (not_lt.mpr hle), if_pos hreplaces]
  setItem_none pop fuel c key value hle hgrows hroom := by
    rw [publishedSetItem, if_neg (not_lt.mpr hle), replaces_eq_false hgrows, if_neg Bool.false_ne_true, hroom]
  setItem_error pop fuel c key value error c' hle hgrows hroom := by
    rw [publishedSetItem, if_neg (not_lt.mpr hle), replaces_eq_false hgrows, if_neg Bool.false_ne_true, hroom]
  setItem_ok pop fuel c key value c' hle hgrows hroom := by
    rw [publishedSetItem, if_neg (not_lt.mpr hle), replaces_eq_false hgrows, if_neg Bool.false_ne_true, hroom]

end CachetoolsLRU

/-! ## A touched key that is not in the cache -/

namespace LRUCache

variable {K V : Type} [DecidableEq K] {base : CachetoolsLRU K V} {c : LRUCache K V} {key : K} {value : V}

theorem put_of_room (fuel : Nat) (hle : c.config.getsizeof value ≤ c.config.maxsize) (hmem : key ∉ c.data.keys)
    (hroom : c.currsize + c.config.getsizeof value ≤ c.config.maxsize) :
    put base c (fuel + 1) key value = some (.ok (), c.store key value) :=
  base.setItem_ok _ _ _ _ _ c hle (fun _ hdata _ => absurd hdata hmem) (base.makeRoom_fits _ _ _ _ hroom)

/-- When the oldest key is not in the data, the loop of `__setitem__` does not end. -/
theorem put_endless {k : K} (hkey : c.lruKey false = .ok k) (hget : c.data.get? k = none)
    (hle : c.config.getsizeof value ≤ c.config.maxsize) (hmem : key ∉ c.data.keys)
    (hlarge : c.config.maxsize < c.currsize + c.config.getsizeof value) (fuel : Nat) :
    put base c fuel key value = none := by
  refine base.setItem_none _ _ _ _ _ hle (fun _ hdata _ => absurd hdata hmem) ?_
  induction fuel with
  | zero => exact base.makeRoom_zero _ _ _
  | succ fuel ih => rw [base.makeRoom_ok _ _ _ _ _ _ hlarge (popitem_of_none hkey hget), ih]

end LRUCache

theorem LRURun.step_put_of_room {K V : Type} [DecidableEq K] [ToString K] {base : CachetoolsLRU K V} {r : LRURun K V}
    {key : K} {value : V} (hle : r.cache.config.getsizeof value ≤ r.cache.config.maxsize)
    (hmem : key ∉ r.cache.data.keys)
    (hroom : r.cache.currsize + r.cache.config.getsizeof value ≤ r.cache.config.maxsize) :
    r.step base (.put key value) = some (r.use (r.cache.store key value) (some key)) := by
  rw [LRURun.step, LRUCache.exec, LRUCache.put_of_room _ hle hmem hroom]
  rfl

section Example

/-- Ten bytes, for values that are their own sizes. -/
def tenBytes : LRUConfig Nat := ⟨10, fun value => value, by norm_num, fun value => Nat.cast_nonneg value⟩

/-- The older of two values is touched, and the value that then needs its room evicts the younger one. -/
theorem lru_cache_works_ten : ∃ r : LRURun Nat Nat, r.cache.data.keys = [1, 3] ∧ r.Works CachetoolsLRU.published := by
  have hops : (runAll (guarded (LRURun.step CachetoolsLRU.published) LRURun.TouchesPresent) (LRURun.fresh tenBytes)
      [.put 1 6, .put 2 3, .touch 1, .put 3 4]).map (fun r => r.cache.data.keys) = some [1, 3] := by
    decide +kernel
  obtain ⟨r, hrun, hkeys⟩ := Option.map_eq_some_iff.mp hops
  exact ⟨r, hkeys, (lru_cache_works CachetoolsLRU.published (reachedBy_of_runAll hrun)).2⟩

/-- Two keys are touched before they are put, as a receiver does with new items: the second `put` does not end. -/
theorem put_after_touch_endless : ¬ ∀ (config : LRUConfig Nat) (r : LRURun Nat Nat),
    Reached (LRURun.step CachetoolsLRU.published) (LRURun.fresh config) r →
      ∀ op, ∃ fuel result, r.cache.exec CachetoolsLRU.published fuel op = some result := by
  intro h
  have htouch₁ : Reached (LRURun.step CachetoolsLRU.published) (LRURun.fresh tenBytes : LRURun Nat Nat) _ :=
    .step (.touch 1) .start trivial rfl
  have htouch₂ : Reached (LRURun.step CachetoolsLRU.published) (LRURun.fresh tenBytes : LRURun Nat Nat) _ :=
    .step (.touch 2) htouch₁ trivial rfl
  have hput : Reached (LRURun.step CachetoolsLRU.published) (LRURun.fresh tenBytes : LRURun Nat Nat) _ :=
    .step (.put 1 6) htouch₂ trivial (LRURun.step_put_of_room
      (by norm_num [LRURun.use, LRURun.fresh, LRUCache.touch, tenBytes]) List.not_mem_nil
      (by norm_num [LRURun.use, LRURun.fresh, LRUCache.touch, tenBytes]))
  obtain ⟨fuel, result, hexec⟩ := h tenBytes _ hput (.put 2 6)
  rw [LRUCache.exec, LRUCache.put_endless (k := 2) rfl rfl] at hexec
  · cases hexec
  · norm_num [LRURun.use, LRURun.fresh, LRUCache.touch, LRUCache.store, tenBytes]
  · decide
  · norm_num [LRURun.use, LRURun.fresh, LRUCache.touch, LRUCache.store, tenBytes]

end Example

end Yuan.Multimodal
