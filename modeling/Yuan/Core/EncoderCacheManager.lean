import Yuan.Core.Request
import Yuan.Lib.Dict
import Yuan.Lib.Py
import Mathlib.Data.Finset.Basic
import Mathlib.Algebra.Order.BigOperators.Group.List

/-!
# `EncoderCacheManager`: accounting for encoder outputs

The manager counts the embeddings the encoder cache holds. An entry that no request references stays
in the cache, in `freeable`, until `can_allocate` needs its room; `freed` lists the evicted entries
until the scheduler collects them. Nothing is stored here: the scheduler checks capacity for the
items of a request one by one, adding up what it has already promised to the request, and calls
`allocate` for them later.

A method that names an input of a request takes the id of the request and the item.
-/

namespace Yuan.Core

/-- The bookkeeping of the encoder cache. -/
structure EncoderCacheManager where
  cacheSize : Int
  numFreeSlots : Int
  numFreeableSlots : Int
  cached : Dict String (Finset Nat)
  freeable : Dict String Int
  freed : List String

namespace EncoderCacheManager

/-- `__init__`: an empty cache. -/
def init (cacheSize : Nat) : EncoderCacheManager where
  cacheSize := cacheSize
  numFreeSlots := cacheSize
  numFreeableSlots := cacheSize
  cached := .empty
  freeable := .empty
  freed := []

/-- Whether an item is cached; if so, the request references it from now on. -/
def checkAndUpdateCache (m : EncoderCacheManager) (requestId : Nat)
    (feature : MultiModalFeatureSpec) : Except PyError (Bool × EncoderCacheManager) :=
  let mmHash := feature.identifier
  match m.cached.get? mmHash with
  | none => .ok (false, m)
  | some refs =>
    let cached := m.cached.set mmHash (insert requestId refs)
    if refs = ∅ then
      -- cached, but not referenced by any request so far
      match m.freeable.get? mmHash with
      | none => .error (.keyError mmHash)
      | some numEncoderEmbeds =>
        .ok (true, { m with
          cached
          freeable := m.freeable.erase mmHash
          numFreeableSlots := m.numFreeableSlots - numEncoderEmbeds })
    else .ok (true, { m with cached })

/-- Evict the oldest entries of `freeable` until `numEmbeds` slots are free. -/
def evict (numEmbeds : Int) :
    List (String × Int) → EncoderCacheManager → Except PyError EncoderCacheManager
  | [], m =>
    if numEmbeds > m.numFreeSlots then .error (.keyError "dictionary is empty") else .ok m
  | (mmHash, numFreeEmbeds) :: rest, m =>
    if numEmbeds > m.numFreeSlots then
      if m.cached.contains mmHash then
        evict numEmbeds rest { m with
          freeable := m.freeable.erase mmHash
          cached := m.cached.erase mmHash
          freed := m.freed ++ [mmHash]
          numFreeSlots := m.numFreeSlots + numFreeEmbeds }
      else .error (.keyError mmHash)
    else .ok m

/-- Whether there is room for an item, next to the `numEmbedsToSchedule` embeddings already promised;
makes that room by evicting unreferenced entries. -/
def canAllocate (m : EncoderCacheManager) (feature : MultiModalFeatureSpec)
    (encoderComputeBudget numEmbedsToSchedule : Int) :
    Except PyError (Bool × EncoderCacheManager) := do
  let numEmbeds : Int := feature.mmPosition.getNumEmbeds
  -- not enough compute budget
  if numEmbeds > encoderComputeBudget then return (false, m)
  let numEmbeds := numEmbeds + numEmbedsToSchedule
  -- enough free slots
  if numEmbeds ≤ m.numFreeSlots then return (true, m)
  -- not enough reclaimable slots
  if numEmbeds > m.numFreeableSlots then return (false, m)
  let m ← evict numEmbeds m.freeable.entries m
  return (true, m)

/-- Reserve the slots of an item for a request. -/
def allocate (m : EncoderCacheManager) (requestId : Nat) (feature : MultiModalFeatureSpec) :
    Except PyError EncoderCacheManager := do
  let mmHash := feature.identifier
  let refs := (m.cached.get? mmHash).getD ∅
  let numEncoderEmbeds : Int := feature.mmPosition.getNumEmbeds
  pyAssert (m.numFreeSlots ≥ numEncoderEmbeds) "self.num_free_slots >= num_encoder_embeds"
  pyAssert (m.numFreeableSlots ≥ numEncoderEmbeds) "self.num_freeable_slots >= num_encoder_embeds"
  return { m with
    cached := m.cached.set mmHash (insert requestId refs)
    numFreeSlots := m.numFreeSlots - numEncoderEmbeds
    numFreeableSlots := m.numFreeableSlots - numEncoderEmbeds }

/-- Drop the reference of a request to an item; the last one makes the entry freeable. -/
def freeEncoderInput (m : EncoderCacheManager) (requestId : Nat)
    (feature : MultiModalFeatureSpec) : EncoderCacheManager :=
  let mmHash := feature.identifier
  let refs := (m.cached.get? mmHash).getD ∅
  -- not in the cache, or without references
  if refs = ∅ then m
  else
    let refs := refs.erase requestId
    let cached := m.cached.set mmHash refs
    if refs = ∅ then
      let numEncoderEmbeds : Int := feature.mmPosition.getNumEmbeds
      { m with
        cached
        freeable := m.freeable.set mmHash numEncoderEmbeds
        numFreeableSlots := m.numFreeableSlots + numEncoderEmbeds }
    else { m with cached }

/-- The items of a request that are in the cache. -/
def getCachedInputIds (m : EncoderCacheManager) (mmFeatures : List MultiModalFeatureSpec) :
    List MultiModalFeatureSpec :=
  mmFeatures.filter fun feature => m.cached.contains feature.identifier

/-- Drop all references of a request. -/
def free (m : EncoderCacheManager) (requestId : Nat) (mmFeatures : List MultiModalFeatureSpec) :
    EncoderCacheManager :=
  (m.getCachedInputIds mmFeatures).foldl (fun m feature => m.freeEncoderInput requestId feature) m

/-- Collect the entries evicted since the last call. -/
def getFreedMmHashes (m : EncoderCacheManager) : List String × EncoderCacheManager :=
  (m.freed, { m with freed := [] })

/-! ## The accounts -/

section Accounts

variable (size : String → Nat)

/-- The embeddings of all entries. -/
def totalSize (m : EncoderCacheManager) : Int := m.cached.sum fun mmHash _ => (size mmHash : Int)

/-- The embeddings of the entries that some request references. -/
def referencedSize (m : EncoderCacheManager) : Int :=
  m.cached.sum fun mmHash refs => if refs = ∅ then 0 else (size mmHash : Int)

/-- The two counters are what they say, and `freeable` holds the entries without references. -/
structure Accounts (m : EncoderCacheManager) : Prop where
  free_slots : m.numFreeSlots = m.cacheSize - m.totalSize size
  freeable_slots : m.numFreeableSlots = m.cacheSize - m.referencedSize size
  freeable_sum : m.numFreeableSlots = m.numFreeSlots + m.freeable.sum fun _ n => n
  freeable : ∀ mmHash n, m.freeable.get? mmHash = some n ↔
    m.cached.get? mmHash = some ∅ ∧ n = size mmHash
  nonneg : 0 ≤ m.numFreeSlots

/-- An item has the size its identifier stands for. -/
def SizeOf (feature : MultiModalFeatureSpec) : Prop :=
  feature.mmPosition.getNumEmbeds = size feature.identifier

end Accounts

variable {size : String → Nat} {m : EncoderCacheManager}

theorem sum_nonneg {β : Type} {d : Dict String β} {f : String → β → Int}
    (h : ∀ k v, (k, v) ∈ d.entries → 0 ≤ f k v) : 0 ≤ d.sum f := by
  apply List.sum_nonneg
  intro x hx
  obtain ⟨⟨k, v⟩, hmem, rfl⟩ := List.mem_map.mp hx
  exact h k v hmem

theorem Accounts.free_le_freeable (h : Accounts size m) : m.numFreeSlots ≤ m.numFreeableSlots := by
  rw [h.freeable_sum]
  have : 0 ≤ m.freeable.sum fun _ n => n := sum_nonneg fun k n hmem => by
    obtain ⟨-, rfl⟩ := (h.freeable k n).mp (Dict.get?_eq_some.mpr hmem)
    exact Int.natCast_nonneg _
  omega

theorem Accounts.freeable_le (h : Accounts size m) : m.numFreeableSlots ≤ m.cacheSize := by
  rw [h.freeable_slots]
  have : 0 ≤ m.referencedSize size := sum_nonneg fun k refs _ => by
    by_cases hrefs : refs = ∅ <;> simp [hrefs]
  omega

theorem accounts_init (cacheSize : Nat) : Accounts size (init cacheSize) where
  free_slots := by simp [init, totalSize]
  freeable_slots := by simp [init, referencedSize]
  freeable_sum := by simp [init]
  freeable := by simp [init]
  nonneg := by simp [init]

/-! ## One entry changes

What an entry adds to the accounts, given the requests that reference it, if it is cached at all. -/

/-- The slots an entry takes. -/
def entrySize (size : String → Nat) (mmHash : String) : Option (Finset Nat) → Int
  | none => 0
  | some _ => size mmHash

/-- The slots of an entry that cannot be reclaimed. -/
def entryReferenced (size : String → Nat) (mmHash : String) : Option (Finset Nat) → Int
  | none => 0
  | some refs => if refs = ∅ then 0 else size mmHash

/-- The slots of an entry that can be reclaimed. -/
def entryFreeable (size : String → Nat) (mmHash : String) : Option (Finset Nat) → Int
  | none => 0
  | some refs => if refs = ∅ then size mmHash else 0

theorem entrySize_eq (size : String → Nat) (mmHash : String) (o : Option (Finset Nat)) :
    entrySize size mmHash o = entryReferenced size mmHash o + entryFreeable size mmHash o := by
  cases o with
  | none => rfl
  | some refs => by_cases h : refs = ∅ <;> simp [entrySize, entryReferenced, entryFreeable, h]

theorem totalSize_eq (size : String → Nat) (m : EncoderCacheManager) (mmHash : String) :
    m.totalSize size = (m.cached.erase mmHash).sum (fun k _ => (size k : Int)) +
      entrySize size mmHash (m.cached.get? mmHash) := by
  cases hget : m.cached.get? mmHash with
  | none => simp [totalSize, entrySize, Dict.erase_of_not_mem (Dict.get?_eq_none.mp hget)]
  | some refs => exact (Dict.sum_erase_add hget fun k _ => (size k : Int)).symm

theorem referencedSize_eq (size : String → Nat) (m : EncoderCacheManager) (mmHash : String) :
    m.referencedSize size =
      (m.cached.erase mmHash).sum (fun k refs => if refs = ∅ then 0 else (size k : Int)) +
        entryReferenced size mmHash (m.cached.get? mmHash) := by
  cases hget : m.cached.get? mmHash with
  | none => simp [referencedSize, entryReferenced, Dict.erase_of_not_mem (Dict.get?_eq_none.mp hget)]
  | some refs =>
    exact (Dict.sum_erase_add hget fun k refs => if refs = ∅ then 0 else (size k : Int)).symm

/-- What `freeable` says of one entry fixes what the entry adds to the sum. -/
theorem freeable_sum_eq {m : EncoderCacheManager} {mmHash : String}
    (h : ∀ n, m.freeable.get? mmHash = some n ↔ m.cached.get? mmHash = some ∅ ∧ n = size mmHash) :
    m.freeable.sum (fun _ n => n) = (m.freeable.erase mmHash).sum (fun _ n => n) +
      entryFreeable size mmHash (m.cached.get? mmHash) := by
  cases hget : m.freeable.get? mmHash with
  | some n =>
    obtain ⟨hcached, rfl⟩ := (h n).mp hget
    rw [← Dict.sum_erase_add hget fun _ n => n, hcached]
    simp [entryFreeable]
  | none =>
    rw [Dict.erase_of_not_mem (Dict.get?_eq_none.mp hget)]
    have hne : m.cached.get? mmHash ≠ some ∅ := fun hc => by
      have := (h (size mmHash)).mpr ⟨hc, rfl⟩
      rw [hget] at this
      cases this
    cases hc : m.cached.get? mmHash with
    | none => simp [entryFreeable]
    | some refs =>
      have : refs ≠ ∅ := fun e => hne (by rw [hc, e])
      simp [entryFreeable, this]

/-- The rule for a change of one entry: each counter moves by what the entry moves. -/
theorem Accounts.update {m' : EncoderCacheManager} (h : Accounts size m) (mmHash : String)
    (hsize : m'.cacheSize = m.cacheSize)
    (hcached : m'.cached.erase mmHash = m.cached.erase mmHash)
    (hfreeable : m'.freeable.erase mmHash = m.freeable.erase mmHash)
    (hfree : m'.numFreeSlots + entrySize size mmHash (m'.cached.get? mmHash) =
      m.numFreeSlots + entrySize size mmHash (m.cached.get? mmHash))
    (hreclaim : m'.numFreeableSlots + entryReferenced size mmHash (m'.cached.get? mmHash) =
      m.numFreeableSlots + entryReferenced size mmHash (m.cached.get? mmHash))
    (hentry : ∀ n, m'.freeable.get? mmHash = some n ↔
      m'.cached.get? mmHash = some ∅ ∧ n = size mmHash)
    (hnonneg : 0 ≤ m'.numFreeSlots) : Accounts size m' where
  free_slots := by
    have h₁ := totalSize_eq size m mmHash
    have h₂ := totalSize_eq size m' mmHash
    have h₃ := h.free_slots
    rw [hcached] at h₂
    omega
  freeable_slots := by
    have h₁ := referencedSize_eq size m mmHash
    have h₂ := referencedSize_eq size m' mmHash
    have h₃ := h.freeable_slots
    rw [hcached] at h₂
    omega
  freeable_sum := by
    have h₁ := freeable_sum_eq (h.freeable mmHash)
    have h₂ := freeable_sum_eq hentry
    have h₃ := h.freeable_sum
    have h₄ := entrySize_eq size mmHash (m.cached.get? mmHash)
    have h₅ := entrySize_eq size mmHash (m'.cached.get? mmHash)
    rw [hfreeable] at h₂
    omega
  freeable k n := by
    by_cases hk : k = mmHash
    · subst hk
      exact hentry n
    · rw [← Dict.get?_erase_of_ne m'.freeable hk, ← Dict.get?_erase_of_ne m'.cached hk, hcached,
        hfreeable, Dict.get?_erase_of_ne m.freeable hk, Dict.get?_erase_of_ne m.cached hk]
      exact h.freeable k n
  nonneg := hnonneg

/-! ## The methods -/

theorem mem_keys_set_of_mem {d : Dict String (Finset Nat)} {mmHash : String} {refs : Finset Nat}
    (h : mmHash ∈ d.keys) (k : String) : k ∈ (d.set mmHash refs).keys ↔ k ∈ d.keys := by
  rw [Dict.mem_keys_set]
  constructor
  · rintro (rfl | hk)
    · exact h
    · exact hk
  · exact Or.inr

/-- Nothing enters or leaves the cache; only references change. -/
structure KeepsEntries (m m' : EncoderCacheManager) : Prop where
  cacheSize : m'.cacheSize = m.cacheSize
  numFreeSlots : m'.numFreeSlots = m.numFreeSlots
  freed : m'.freed = m.freed
  keys : ∀ k, k ∈ m'.cached.keys ↔ k ∈ m.cached.keys

theorem KeepsEntries.refl (m : EncoderCacheManager) : KeepsEntries m m :=
  ⟨rfl, rfl, rfl, fun _ => Iff.rfl⟩

theorem KeepsEntries.trans {m₁ m₂ m₃ : EncoderCacheManager} (h₁ : KeepsEntries m₁ m₂)
    (h₂ : KeepsEntries m₂ m₃) : KeepsEntries m₁ m₃ :=
  ⟨h₂.cacheSize.trans h₁.cacheSize, h₂.numFreeSlots.trans h₁.numFreeSlots, h₂.freed.trans h₁.freed,
    fun k => (h₂.keys k).trans (h₁.keys k)⟩

theorem mem_keys_of_get? {d : Dict String (Finset Nat)} {mmHash : String} {refs : Finset Nat}
    (h : d.get? mmHash = some refs) : mmHash ∈ d.keys := by
  rw [← Dict.isSome_get?, h]
  rfl

theorem Accounts.checkAndUpdateCache (h : Accounts size m) (requestId : Nat) (feature : MultiModalFeatureSpec) :
    ∃ hit m', m.checkAndUpdateCache requestId feature = .ok (hit, m') ∧ Accounts size m' ∧
      KeepsEntries m m' ∧ (hit = true ↔ feature.identifier ∈ m.cached.keys) := by
  cases hget : m.cached.get? feature.identifier with
  | none =>
    refine ⟨false, m, ?_, h, KeepsEntries.refl m, ?_⟩
    · simp [EncoderCacheManager.checkAndUpdateCache, hget]
    · simp [Dict.get?_eq_none.mp hget]
  | some refs =>
    have hmem := mem_keys_of_get? hget
    have hne : insert requestId refs ≠ ∅ := Finset.insert_ne_empty _ _
    by_cases hrefs : refs = ∅
    · -- the entry was freeable
      subst hrefs
      have hfree : m.freeable.get? feature.identifier = some (size feature.identifier : Int) :=
        (h.freeable _ _).mpr ⟨hget, rfl⟩
      refine ⟨true, { m with
        cached := m.cached.set feature.identifier (insert requestId ∅)
        freeable := m.freeable.erase feature.identifier
        numFreeableSlots := m.numFreeableSlots - size feature.identifier }, ?_, ?_,
        ⟨rfl, rfl, rfl, mem_keys_set_of_mem hmem⟩, by simp [hmem]⟩
      · simp [EncoderCacheManager.checkAndUpdateCache, hget, hfree]
      · refine h.update feature.identifier ?_ ?_ ?_ ?_ ?_ ?_ ?_
        · exact rfl
        · exact Dict.erase_set _ _ _
        · exact Dict.erase_erase _ _
        · simp [hget, entrySize]
        · simp [hget, entryReferenced]
        · simp
        · exact h.nonneg
    · refine ⟨true, { m with cached := m.cached.set feature.identifier (insert requestId refs) },
        ?_, ?_, ⟨rfl, rfl, rfl, mem_keys_set_of_mem hmem⟩, by simp [hmem]⟩
      · simp [EncoderCacheManager.checkAndUpdateCache, hget, hrefs]
      · refine h.update feature.identifier ?_ ?_ ?_ ?_ ?_ ?_ ?_
        · exact rfl
        · exact Dict.erase_set _ _ _
        · exact rfl
        · simp [hget, entrySize]
        · simp [hget, entryReferenced, hrefs]
        · intro n
          rw [h.freeable, hget]
          simp [hrefs]
        · exact h.nonneg

theorem Accounts.freeEncoderInput (h : Accounts size m) (requestId : Nat)
    {feature : MultiModalFeatureSpec} (hsize : SizeOf size feature) :
    ∃ m', m.freeEncoderInput requestId feature = m' ∧ Accounts size m' ∧ KeepsEntries m m' := by
  have hembeds : feature.mmPosition.getNumEmbeds = size feature.identifier := hsize
  cases hget : m.cached.get? feature.identifier with
  | none =>
    refine ⟨m, ?_, h, KeepsEntries.refl m⟩
    simp [EncoderCacheManager.freeEncoderInput, hget]
  | some refs =>
    have hmem := mem_keys_of_get? hget
    by_cases hrefs : refs = ∅
    · refine ⟨m, ?_, h, KeepsEntries.refl m⟩
      simp [EncoderCacheManager.freeEncoderInput, hget, hrefs]
    · by_cases hlast : refs.erase requestId = ∅
      · -- the last reference goes
        refine ⟨{ m with
          cached := m.cached.set feature.identifier ∅
          freeable := m.freeable.set feature.identifier (size feature.identifier)
          numFreeableSlots := m.numFreeableSlots + size feature.identifier }, ?_, ?_,
          ⟨rfl, rfl, rfl, mem_keys_set_of_mem hmem⟩⟩
        · simp [EncoderCacheManager.freeEncoderInput, hget, hrefs, hlast, hembeds]
        · refine h.update feature.identifier ?_ ?_ ?_ ?_ ?_ ?_ ?_
          · exact rfl
          · exact Dict.erase_set _ _ _
          · exact Dict.erase_set _ _ _
          · simp [hget, entrySize]
          · simp [hget, entryReferenced, hrefs]
          · intro n
            simp [eq_comm]
          · exact h.nonneg
      · refine ⟨{ m with cached := m.cached.set feature.identifier (refs.erase requestId) }, ?_, ?_,
          ⟨rfl, rfl, rfl, mem_keys_set_of_mem hmem⟩⟩
        · simp [EncoderCacheManager.freeEncoderInput, hget, hrefs, hlast]
        · refine h.update feature.identifier ?_ ?_ ?_ ?_ ?_ ?_ ?_
          · exact rfl
          · exact Dict.erase_set _ _ _
          · exact rfl
          · simp [hget, entrySize]
          · simp [hget, entryReferenced, hrefs, hlast]
          · intro n
            rw [h.freeable, hget]
            simp [hrefs, hlast]
          · exact h.nonneg

theorem Accounts.free (h : Accounts size m) (requestId : Nat)
    {mmFeatures : List MultiModalFeatureSpec} (hsize : ∀ feature ∈ mmFeatures, SizeOf size feature) :
    Accounts size (m.free requestId mmFeatures) ∧ KeepsEntries m (m.free requestId mmFeatures) := by
  have hloop : ∀ (features : List MultiModalFeatureSpec) (m : EncoderCacheManager),
      Accounts size m → (∀ feature ∈ features, SizeOf size feature) →
      Accounts size (features.foldl (fun m feature => m.freeEncoderInput requestId feature) m) ∧
        KeepsEntries m (features.foldl (fun m feature => m.freeEncoderInput requestId feature) m) := by
    intro features
    induction features with
    | nil => exact fun m h _ => ⟨h, KeepsEntries.refl m⟩
    | cons feature features ih =>
      intro m h hsize
      obtain ⟨m₁, hm₁, h₁, hkeep₁⟩ := h.freeEncoderInput requestId (hsize feature List.mem_cons_self)
      obtain ⟨h₂, hkeep₂⟩ := ih m₁ h₁ fun f hf => hsize f (List.mem_cons_of_mem _ hf)
      rw [List.foldl_cons, hm₁]
      exact ⟨h₂, hkeep₁.trans hkeep₂⟩
  exact hloop _ m h fun feature hf => hsize feature (List.mem_of_mem_filter hf)

theorem Accounts.allocate (h : Accounts size m) (requestId : Nat) {feature : MultiModalFeatureSpec}
    (hsize : SizeOf size feature) (hnew : feature.identifier ∉ m.cached.keys)
    (hroom : (size feature.identifier : Int) ≤ m.numFreeSlots) :
    ∃ m', m.allocate requestId feature = .ok m' ∧ Accounts size m' ∧
      m'.cacheSize = m.cacheSize ∧ m'.numFreeSlots = m.numFreeSlots - size feature.identifier ∧ m'.freed = m.freed ∧
      ∀ k, k ∈ m'.cached.keys ↔ k = feature.identifier ∨ k ∈ m.cached.keys := by
  have hget : m.cached.get? feature.identifier = none := Dict.get?_eq_none.mpr hnew
  have hle := h.free_le_freeable
  have hembeds : feature.mmPosition.getNumEmbeds = size feature.identifier := hsize
  refine ⟨{ m with
    cached := m.cached.set feature.identifier (insert requestId ∅)
    numFreeSlots := m.numFreeSlots - size feature.identifier
    numFreeableSlots := m.numFreeableSlots - size feature.identifier }, ?_, ?_, rfl, rfl, rfl,
    fun k => Dict.mem_keys_set⟩
  · have h₁ : m.numFreeSlots ≥ (size feature.identifier : Int) := hroom
    have h₂ : m.numFreeableSlots ≥ (size feature.identifier : Int) := hroom.trans hle
    simp only [EncoderCacheManager.allocate, hget, hembeds, h₁, h₂, decide_true]
    rfl
  · refine h.update feature.identifier ?_ ?_ ?_ ?_ ?_ ?_ ?_
    · exact rfl
    · exact Dict.erase_set _ _ _
    · exact rfl
    · simp [hget, entrySize]
    · simp [hget, entryReferenced]
    · intro n
      rw [h.freeable, hget]
      simp
    · simp only
      omega

/-- The eviction loop: what it takes out of the cache is what it writes down as freed. -/
theorem Accounts.evict {need : Int} {l : List (String × Int)} {m : EncoderCacheManager}
    (h : Accounts size m) (hl : m.freeable.entries = l) (hneed : need ≤ m.numFreeableSlots) :
    ∃ m' evicted, evict need l m = .ok m' ∧ Accounts size m' ∧ m'.cacheSize = m.cacheSize ∧
      need ≤ m'.numFreeSlots ∧ m.numFreeSlots ≤ m'.numFreeSlots ∧ m'.freed = m.freed ++ evicted ∧ evicted.Nodup ∧
      (∀ k ∈ evicted, k ∈ m.cached.keys) ∧ ∀ k, k ∈ m'.cached.keys ↔ k ∈ m.cached.keys ∧ k ∉ evicted := by
  induction l generalizing m with
  | nil =>
    have hle : ¬ need > m.numFreeSlots := by
      have := h.freeable_sum
      simp only [Dict.sum, hl, List.map_nil, List.sum_nil] at this
      omega
    refine ⟨m, [], by simp [EncoderCacheManager.evict, hle], h, rfl, by omega, le_refl _, by simp,
      by simp, by simp, by simp⟩
  | cons e rest ih =>
    obtain ⟨mmHash, n⟩ := e
    by_cases hle : need > m.numFreeSlots
    · have hfirst : m.freeable.get? mmHash = some n :=
        Dict.get?_eq_some.mpr (by rw [hl]; exact List.mem_cons_self)
      obtain ⟨hcached, rfl⟩ := (h.freeable mmHash n).mp hfirst
      have hmem : mmHash ∈ m.cached.keys := by
        rw [← Dict.isSome_get?, hcached]
        rfl
      have hrest : (m.freeable.erase mmHash).entries = rest := by
        show m.freeable.entries.filter _ = rest
        have hnd := m.freeable.nodup
        rw [hl, List.map_cons, List.nodup_cons] at hnd
        rw [hl, List.filter_cons_of_neg (by simp), List.filter_eq_self]
        rintro ⟨a, b⟩ hab
        simp only [decide_eq_true_eq]
        rintro rfl
        exact hnd.1 (List.mem_map.mpr ⟨_, hab, rfl⟩)
      let m₁ : EncoderCacheManager := { m with
        freeable := m.freeable.erase mmHash
        cached := m.cached.erase mmHash
        freed := m.freed ++ [mmHash]
        numFreeSlots := m.numFreeSlots + size mmHash }
      have h₁ : Accounts size m₁ := by
        refine h.update mmHash ?_ ?_ ?_ ?_ ?_ ?_ ?_
        · exact rfl
        · exact Dict.erase_erase _ _
        · exact Dict.erase_erase _ _
        · simp [m₁, hcached, entrySize]
        · simp [m₁, hcached, entryReferenced]
        · simp [m₁]
        · have := h.nonneg
          simp only [m₁]
          omega
      obtain ⟨m', evicted, hrun, hacc, hcs, hneed', hmono, hfreed, hnd, hsub, hkeys⟩ :=
        ih h₁ hrest hneed
      have hnot : mmHash ∉ evicted := fun hev => by
        have := hsub mmHash hev
        rw [Dict.mem_keys_erase] at this
        exact this.1 rfl
      refine ⟨m', mmHash :: evicted, ?_, hacc, hcs, hneed', ?_, ?_, List.nodup_cons.mpr ⟨hnot, hnd⟩,
        ?_, ?_⟩
      · simp only [EncoderCacheManager.evict, if_pos hle, Dict.contains_iff.mpr hmem]
        exact hrun
      · exact le_trans (by simp [m₁]) hmono
      · rw [hfreed]
        simp [m₁]
      · intro k hk
        rcases List.mem_cons.mp hk with rfl | hk
        · exact hmem
        · exact (Dict.mem_keys_erase.mp (hsub k hk)).2
      · intro k
        rw [hkeys, Dict.mem_keys_erase, List.mem_cons]
        tauto
    · refine ⟨m, [], by simp [EncoderCacheManager.evict, hle], h, rfl, by omega, le_refl _, by simp,
        by simp, by simp, by simp⟩

theorem Accounts.canAllocate (h : Accounts size m) (feature : MultiModalFeatureSpec) (budget promised : Int) :
    ∃ fits m' evicted, m.canAllocate feature budget promised = .ok (fits, m') ∧ Accounts size m' ∧
      m'.cacheSize = m.cacheSize ∧ m.numFreeSlots ≤ m'.numFreeSlots ∧
      (fits = true → feature.mmPosition.getNumEmbeds + promised ≤ m'.numFreeSlots) ∧
      m'.freed = m.freed ++ evicted ∧ evicted.Nodup ∧ (∀ k ∈ evicted, k ∈ m.cached.keys) ∧
      ∀ k, k ∈ m'.cached.keys ↔ k ∈ m.cached.keys ∧ k ∉ evicted := by
  have hstay : ∀ fits : Bool, m.canAllocate feature budget promised = .ok (fits, m) →
      (fits = true → (feature.mmPosition.getNumEmbeds : Int) + promised ≤ m.numFreeSlots) →
      ∃ fits m' evicted, m.canAllocate feature budget promised = .ok (fits, m') ∧ Accounts size m' ∧
        m'.cacheSize = m.cacheSize ∧ m.numFreeSlots ≤ m'.numFreeSlots ∧
        (fits = true → feature.mmPosition.getNumEmbeds + promised ≤ m'.numFreeSlots) ∧
        m'.freed = m.freed ++ evicted ∧ evicted.Nodup ∧
        (∀ k ∈ evicted, k ∈ m.cached.keys) ∧
        ∀ k, k ∈ m'.cached.keys ↔ k ∈ m.cached.keys ∧ k ∉ evicted :=
    fun fits hrun hfits => ⟨fits, m, [], hrun, h, rfl, le_refl _, hfits, by simp, by simp, by simp,
      by simp⟩
  by_cases hbudget : (feature.mmPosition.getNumEmbeds : Int) > budget
  · apply hstay false
    · simp [EncoderCacheManager.canAllocate, hbudget, pure, Except.pure]
    · simp
  by_cases hfree : (feature.mmPosition.getNumEmbeds : Int) + promised ≤ m.numFreeSlots
  · apply hstay true
    · simp [EncoderCacheManager.canAllocate, hbudget, hfree, pure, Except.pure]
    · exact fun _ => hfree
  by_cases hfull : (feature.mmPosition.getNumEmbeds : Int) + promised > m.numFreeableSlots
  · apply hstay false
    · simp [EncoderCacheManager.canAllocate, hfree, hfull, pure, Except.pure]
    · simp
  obtain ⟨m', evicted, hrun, hacc, hcs, hneed, hmono, hrest⟩ := h.evict rfl (not_lt.mp hfull)
  refine ⟨true, m', evicted, ?_, hacc, hcs, hmono, fun _ => hneed, hrest⟩
  simp [EncoderCacheManager.canAllocate, hbudget, hfree, hfull, hrun, bind, Except.bind, pure,
    Except.pure]

theorem Accounts.getFreedMmHashes (h : Accounts size m) : Accounts size m.getFreedMmHashes.2 :=
  { h with }

end EncoderCacheManager
end Yuan.Core
