import Yuan.Core.OffloadingManager
import Mathlib.Algebra.Order.Field.Rat

/-!
# The ARC offloading manager

`T1` holds blocks used once, `T2` blocks used again, `B1` and `B2` remember what was evicted from
either. Blocks are evicted one at a time, so a store may find too few only after some are gone.

The target size of `T1` is a floating-point number: a rational number, rounded after every operation
by a function that the development leaves open.
-/

namespace Yuan.Core

variable {α : Type}

structure ARCOffloadingManager (α : Type) where
  backend : CPUBackend
  targetT1Size : ℚ := 0
  t1 : Dict α CPUBlockStatus := .empty
  t2 : Dict α CPUBlockStatus := .empty
  b1 : Dict α Unit := .empty
  b2 : Dict α Unit := .empty
  events : Option (List (OffloadingEvent α)) := none
  cacheCapacity : Int

namespace ARCOffloadingManager

/-- `__init__`. -/
def init (backend : CPUBackend) (enableEvents : Bool) : ARCOffloadingManager α where
  backend := backend
  events := if enableEvents then some [] else none
  cacheCapacity := backend.getNumFreeBlocks

variable [DecidableEq α] (m : ARCOffloadingManager α)

/-- `self.t1.get(block_hash) or self.t2.get(block_hash)`. -/
def get? (blockHash : α) : Option CPUBlockStatus :=
  match m.t1.get? blockHash with
  | some block => some block
  | none => m.t2.get? blockHash

/-- Change a block in place, in the list that holds it. -/
def setBlock (blockHash : α) (block : CPUBlockStatus) : ARCOffloadingManager α :=
  match m.t1.get? blockHash with
  | some _ => { m with t1 := m.t1.set blockHash block }
  | none => { m with t2 := m.t2.set blockHash block }

def lookup : List α → Nat
  | [] => 0
  | blockHash :: rest =>
    match m.get? blockHash with
    | none => 0
    | some block => if block.isReady then lookup rest + 1 else 0

/-- A block that must be cached, or the assertion fails. -/
def block (blockHash : α) (msg : String) : Except PyError CPUBlockStatus :=
  match m.get? blockHash with
  | none => .error (.assertionError msg)
  | some block => .ok block

/-- Returns the ids of the blocks to read. -/
def prepareLoad : ARCOffloadingManager α → List α → Except PyError (List Nat × ARCOffloadingManager α)
  | m, [] => return ([], m)
  | m, blockHash :: rest => do
    let block ← m.block blockHash "Block not found in cache"
    pyAssert block.isReady "Block is not ready for reading"
    let (ids, m) ← prepareLoad (m.setBlock blockHash block.addRef) rest
    return (block.blockId :: ids, m)

/-- A hash in `B1` was evicted too early from `T1`, one in `B2` from `T2`: the target moves by the
ratio of the two, at least by one. -/
def touchOne (round : ℚ → ℚ) (blockHash : α) : ARCOffloadingManager α :=
  match m.t1.get? blockHash with
  | some block =>
    if block.isReady then
      { m with t1 := m.t1.erase blockHash, t2 := m.t2.set blockHash block }
    else { m with t1 := m.t1.moveToEnd blockHash }
  | none =>
    if m.t2.contains blockHash then { m with t2 := m.t2.moveToEnd blockHash }
    else if m.b1.contains blockHash then
      let delta := max 1 (round (m.b2.entries.length / m.b1.entries.length))
      { m with
        targetT1Size := min (round (m.targetT1Size + delta)) m.cacheCapacity
        b1 := m.b1.moveToEnd blockHash }
    else if m.b2.contains blockHash then
      let delta := max 1 (round (m.b1.entries.length / m.b2.entries.length))
      { m with
        targetT1Size := max (round (m.targetT1Size - delta)) 0
        b2 := m.b2.moveToEnd blockHash }
    else m

def touch (round : ℚ → ℚ) (blockHashes : List α) : ARCOffloadingManager α :=
  blockHashes.reverse.foldl (fun m blockHash => m.touchOne round blockHash) m

def completeLoad : ARCOffloadingManager α → List α → Except PyError (ARCOffloadingManager α)
  | m, [] => return m
  | m, blockHash :: rest => do
    let block ← m.block blockHash "Block not found"
    pyAssert (decide (0 < block.refCnt)) "Block ref_cnt is already 0"
    completeLoad (m.setBlock blockHash { block with refCnt := block.refCnt - 1 }) rest

/-- `int(self.target_t1_size)`. -/
def targetSize : Int := m.targetT1Size.num.tdiv m.targetT1Size.den

/-- The oldest block that nobody uses. -/
def oldestUnused (t : Dict α CPUBlockStatus) : Option (α × CPUBlockStatus) :=
  t.entries.find? fun e => decide (e.2.refCnt = 0)

/-- Evict one block: from `T1` if that has reached its target size, else from `T2`. -/
def evictOne : Option (α × ARCOffloadingManager α) :=
  match if m.targetSize ≤ m.t1.entries.length then oldestUnused m.t1 else none with
  | some (blockHash, block) =>
    some (blockHash, { m with
      t1 := m.t1.erase blockHash
      b1 := m.b1.set blockHash ()
      backend := m.backend.free block })
  | none =>
    match oldestUnused m.t2 with
    | some (blockHash, block) =>
      some (blockHash, { m with
        t2 := m.t2.erase blockHash
        b2 := m.b2.set blockHash ()
        backend := m.backend.free block })
    | none => none

/-- Evict `n` blocks. The last component says whether there were enough. -/
def evictLoop : Nat → ARCOffloadingManager α → List α × ARCOffloadingManager α × Bool
  | 0, m => ([], m, true)
  | n + 1, m =>
    match m.evictOne with
    | none => ([], m, false)
    | some (blockHash, m) =>
      let (rest, m, enough) := evictLoop n m
      (blockHash :: rest, m, enough)

/-- The ghost lists forget their oldest hashes. -/
def trimGhosts : ARCOffloadingManager α :=
  { m with
    b1 := m.b1.dropOldest (m.b1.entries.length - m.cacheCapacity).toNat
    b2 := m.b2.dropOldest (m.b2.entries.length - m.cacheCapacity).toNat }

def addEvent (blockHashes : List α) (removed : Bool) : ARCOffloadingManager α :=
  { m with events := Core.addEvent m.events m.backend blockHashes removed }

/-- New blocks are entered into `T1`, and their hashes leave the ghost lists. -/
def insertBlocks (new : List (α × CPUBlockStatus)) : ARCOffloadingManager α :=
  { m with
    t1 := m.t1.insertAll new
    b1 := m.b1.eraseAll (new.map Prod.fst)
    b2 := m.b2.eraseAll (new.map Prod.fst) }

/-- The hashes without a block, in order. -/
def toStore (blockHashes : List α) : List α :=
  blockHashes.filter fun h => h ∉ m.t1.keys ∧ h ∉ m.t2.keys

/-- How many blocks have to be evicted. -/
def numBlocksToEvict (blockHashes : List α) : Nat :=
  ((m.toStore blockHashes).length - m.backend.getNumFreeBlocks).toNat

def prepareStore (blockHashes : List α) :
    Except PyError (Option (PrepareStoreOutput α) × ARCOffloadingManager α) :=
  let blockHashesToStore := m.toStore blockHashes
  if blockHashesToStore = [] then return (some ⟨[], [], []⟩, m)
  else
    match evictLoop (m.numBlocksToEvict blockHashes) m with
    | (_, m, false) => return (none, m)
    | (toEvict, m, true) => do
      let m := m.trimGhosts.addEvent toEvict true
      let (blocks, backend) ← m.backend.allocateBlocks blockHashesToStore
      pyAssert (decide (blocks.length = blockHashesToStore.length))
        "Backend did not allocate the expected number of blocks"
      return (some ⟨blockHashesToStore, blocks.map CPUBlockStatus.blockId, toEvict⟩,
        { m with backend := backend }.insertBlocks (blockHashesToStore.zip blocks))

/-- Mark blocks as ready; returns those that were not. -/
def markReady : ARCOffloadingManager α → List α → List α × ARCOffloadingManager α
  | m, [] => ([], m)
  | m, blockHash :: rest =>
    match m.get? blockHash with
    | none => markReady m rest
    | some block =>
      if block.isReady then markReady m rest
      else
        let (stored, m) := markReady (m.setBlock blockHash { block with refCnt := 0 }) rest
        (blockHash :: stored, m)

/-- Pop a block from the list that holds it. -/
def popBlock (blockHash : α) : ARCOffloadingManager α :=
  match m.t1.get? blockHash with
  | some _ => { m with t1 := m.t1.erase blockHash }
  | none => { m with t2 := m.t2.erase blockHash }

/-- Pop blocks, and free those that are not ready: a block that is ready is popped and its id lost. -/
def dropBlocks : ARCOffloadingManager α → List α → ARCOffloadingManager α
  | m, [] => m
  | m, blockHash :: rest =>
    match m.get? blockHash with
    | none => dropBlocks m rest
    | some block =>
      let m := m.popBlock blockHash
      if block.isReady then dropBlocks m rest
      else dropBlocks { m with backend := m.backend.free block } rest

def completeStore (blockHashes : List α) (success : Bool) :
    Except PyError (ARCOffloadingManager α) :=
  if success then
    let (stored, m) := m.markReady blockHashes
    return m.addEvent stored false
  else return m.dropBlocks blockHashes

def takeEvents : List (OffloadingEvent α) × ARCOffloadingManager α :=
  (m.events.getD [], { m with events := m.events.map fun _ => [] })

/-- The methods, as a manager. -/
def manager (round : ℚ → ℚ) : OffloadingManager α (ARCOffloadingManager α) where
  lookup := lookup
  prepareLoad := prepareLoad
  touch m := m.touch round
  completeLoad := completeLoad
  prepareStore := prepareStore
  completeStore := completeStore
  takeEvents := takeEvents

def view : OffloadView α := ⟨m.t1.entries ++ m.t2.entries, m.backend, m.events⟩

/-! ## The four lists -/

variable {m} {m' : ARCOffloadingManager α} {blockHash : α} {block : CPUBlockStatus} {blockHashes : List α}
  {t : Dict α CPUBlockStatus}

/-- No hash is in two of the four lists. -/
structure Apart (m : ARCOffloadingManager α) : Prop where
  t1_t2 : ∀ h ∈ m.t1.keys, h ∉ m.t2.keys
  ghosts : ∀ h, h ∈ m.t1.keys ∨ h ∈ m.t2.keys → h ∉ m.b1.keys ∧ h ∉ m.b2.keys
  b1_b2 : ∀ h ∈ m.b1.keys, h ∉ m.b2.keys

namespace Apart

omit [DecidableEq α] in
/-- Lists that hold no more than before are apart. -/
theorem mono (h : m.Apart) (h1 : ∀ k ∈ m'.t1.keys, k ∈ m.t1.keys)
    (h2 : ∀ k ∈ m'.t2.keys, k ∈ m.t2.keys) (hb1 : ∀ k ∈ m'.b1.keys, k ∈ m.b1.keys)
    (hb2 : ∀ k ∈ m'.b2.keys, k ∈ m.b2.keys) : m'.Apart where
  t1_t2 k hk hk' := h.t1_t2 k (h1 k hk) (h2 k hk')
  ghosts k hk := by
    have hold : k ∈ m.t1.keys ∨ k ∈ m.t2.keys := hk.imp (h1 k) (h2 k)
    obtain ⟨hnot1, hnot2⟩ := h.ghosts k hold
    exact ⟨fun hk' => hnot1 (hb1 k hk'), fun hk' => hnot2 (hb2 k hk')⟩
  b1_b2 k hk hk' := h.b1_b2 k (hb1 k hk) (hb2 k hk')

omit [DecidableEq α] in
theorem nodup (h : m.Apart) : (m.view.entries.map Prod.fst).Nodup := by
  show ((m.t1.entries ++ m.t2.entries).map Prod.fst).Nodup
  rw [List.map_append]
  apply List.nodup_append.mpr
  refine ⟨m.t1.nodup, m.t2.nodup, ?_⟩
  intro k hk k' hk' heq
  subst heq
  exact h.t1_t2 k hk hk'

/-- A block is found by its hash exactly if it is an entry. -/
theorem get?_eq_some (h : m.Apart) {blockHash : α} {block : CPUBlockStatus} :
    m.get? blockHash = some block ↔ (blockHash, block) ∈ m.view.entries := by
  show _ ↔ (blockHash, block) ∈ m.t1.entries ++ m.t2.entries
  rw [List.mem_append, get?]
  cases h1 : m.t1.get? blockHash with
  | none =>
    have hnot : (blockHash, block) ∉ m.t1.entries :=
      fun hmem => Dict.get?_eq_none.mp h1 (Dict.mem_keys_of_mem hmem)
    rw [Dict.get?_eq_some]
    exact (or_iff_right hnot).symm
  | some b =>
    have hmem := Dict.get?_eq_some.mp h1
    have hnot : (blockHash, block) ∉ m.t2.entries :=
      fun hmem2 => h.t1_t2 _ (Dict.mem_keys_of_mem hmem) (Dict.mem_keys_of_mem hmem2)
    rw [or_iff_left hnot, ← Dict.get?_eq_some, h1]

end Apart

/-- Changing a block in place keeps the four lists. -/
theorem apart_setBlock (h : m.Apart) (hget : m.get? blockHash = some block) (block' : CPUBlockStatus) :
    (m.setBlock blockHash block').Apart := by
  unfold setBlock
  unfold get? at hget
  cases h1 : m.t1.get? blockHash with
  | some b =>
    have hmem := Dict.mem_keys_of_mem (Dict.get?_eq_some.mp h1)
    apply h.mono
    · intro k hk
      rcases Dict.mem_keys_set.mp hk with rfl | hk
      · exact hmem
      · exact hk
    · exact fun _ => id
    · exact fun _ => id
    · exact fun _ => id
  | none =>
    rw [h1] at hget
    have hmem := Dict.mem_keys_of_mem (Dict.get?_eq_some.mp hget)
    apply h.mono
    · exact fun _ => id
    · intro k hk
      rcases Dict.mem_keys_set.mp hk with rfl | hk
      · exact hmem
      · exact hk
    · exact fun _ => id
    · exact fun _ => id

@[simp] theorem backend_setBlock (blockHash : α) (block : CPUBlockStatus) :
    (m.setBlock blockHash block).backend = m.backend := by
  unfold setBlock
  split <;> rfl

@[simp] theorem events_setBlock (blockHash : α) (block : CPUBlockStatus) :
    (m.setBlock blockHash block).events = m.events := by
  unfold setBlock
  split <;> rfl

/-- Changing a block in place changes what is read of the entries only at its hash. -/
theorem map_entries_setBlock {γ : Type} (h : m.Apart) {block' : CPUBlockStatus} (hget : m.get? blockHash = some block)
    {f g : α × CPUBlockStatus → γ} (hk : f (blockHash, block') = g (blockHash, block))
    (hne : ∀ e : α × CPUBlockStatus, e.1 ≠ blockHash → f e = g e) :
    (m.setBlock blockHash block').view.entries.map f = m.view.entries.map g := by
  unfold setBlock
  unfold get? at hget
  cases h1 : m.t1.get? blockHash with
  | some b =>
    rw [h1] at hget
    cases hget
    have hmem := Dict.mem_keys_of_mem (Dict.get?_eq_some.mp h1)
    show ((m.t1.set _ _).entries ++ m.t2.entries).map f = (m.t1.entries ++ m.t2.entries).map g
    rw [List.map_append, List.map_append, Dict.map_entries_set h1 hk hne]
    congr 1
    apply List.map_congr_left
    intro e he
    apply hne
    rintro rfl
    exact h.t1_t2 _ hmem (List.mem_map_of_mem he)
  | none =>
    rw [h1] at hget
    show (m.t1.entries ++ (m.t2.set _ _).entries).map f = (m.t1.entries ++ m.t2.entries).map g
    rw [List.map_append, List.map_append, Dict.map_entries_set hget hk hne]
    congr 1
    apply List.map_congr_left
    intro e he
    apply hne
    rintro rfl
    exact Dict.get?_eq_none.mp h1 (List.mem_map_of_mem he)

theorem mem_setBlock (h : m.Apart) {hash : α} {block' b : CPUBlockStatus} (hget : m.get? blockHash = some block)
    (hne : hash ≠ blockHash) : (hash, b) ∈ (m.setBlock blockHash block').view.entries ↔ (hash, b) ∈ m.view.entries := by
  let other : α × CPUBlockStatus → Option (α × CPUBlockStatus) :=
    fun e => if e.1 = blockHash then none else some e
  have hmap : (m.setBlock blockHash block').view.entries.map other = m.view.entries.map other :=
    map_entries_setBlock h hget (by simp [other]) fun _ _ => rfl
  have hread : ∀ entries : List (α × CPUBlockStatus), (hash, b) ∈ entries ↔
      some (hash, b) ∈ entries.map other := by
    intro entries
    rw [List.mem_map]
    constructor
    · intro hmem
      exact ⟨(hash, b), hmem, if_neg hne⟩
    · rintro ⟨e, he, heq⟩
      dsimp only [other] at heq
      split at heq
      case isTrue => cases heq
      case isFalse =>
        rw [← Option.some.inj heq]
        exact he
  rw [hread, hmap, ← hread]

/-! ## What the methods do -/

theorem block_eq_ok {msg : String} : m.block blockHash msg = .ok block ↔ m.get? blockHash = some block := by
  unfold ARCOffloadingManager.block
  cases m.get? blockHash <;> simp

/-- Counting references leaves a ready block what it is. -/
theorem sameBlocks_setBlock (h : m.Apart) (hget : m.get? blockHash = some block) {refCnt : Int}
    (hold : 0 ≤ block.refCnt) (hnew : 0 ≤ refCnt) : SameBlocks m.view.entries
      (m.setBlock blockHash { block with refCnt := refCnt }).view.entries := by
  apply List.Perm.of_eq
  apply map_entries_setBlock h hget
  · simp [signature, CPUBlockStatus.isReady, hold, hnew]
  · exact fun _ _ => rfl

theorem get?_setBlock_self (blockHash : α) (block' : CPUBlockStatus) :
    (m.setBlock blockHash block').get? blockHash = some block' := by
  unfold setBlock
  cases h1 : m.t1.get? blockHash with
  | some b => rw [get?, Dict.get?_set_self]
  | none => simp only [get?, h1, Dict.get?_set_self]

/-- The entries after a change in place are the changed one and the others. -/
theorem mem_entries_setBlock (h : m.Apart) {block' : CPUBlockStatus} (hget : m.get? blockHash = some block)
    {e : α × CPUBlockStatus} (he : e ∈ (m.setBlock blockHash block').view.entries) :
    e = (blockHash, block') ∨ (e ∈ m.view.entries ∧ e.1 ≠ blockHash) := by
  by_cases hkey : e.1 = blockHash
  · have hlater := (apart_setBlock h hget block').get?_eq_some.mpr he
    rw [hkey, get?_setBlock_self] at hlater
    exact Or.inl (Prod.ext hkey (Option.some.inj hlater).symm)
  · exact Or.inr ⟨(mem_setBlock h hget hkey).mp he, hkey⟩

theorem prepareLoad_spec (hapart : m.Apart) {ids : List Nat} (h : m.prepareLoad blockHashes = .ok (ids, m')) :
    m'.Apart ∧ m.view.Counted m'.view ∧ (m.view.MayLoad blockHashes → m.view.Kept m'.view) := by
  induction blockHashes generalizing m ids with
  | nil =>
    cases h
    exact ⟨hapart, ⟨.refl _, rfl, rfl⟩, fun _ => ⟨.refl _, rfl, rfl⟩⟩
  | cons blockHash rest ih =>
    obtain ⟨block, hblock, h⟩ := bind_eq_ok.mp h
    obtain ⟨_, hassert, h⟩ := bind_eq_ok.mp h
    obtain ⟨⟨ids', m''⟩, hrest, h⟩ := bind_eq_ok.mp h
    cases h
    have hget := block_eq_ok.mp hblock
    have hready : 0 ≤ block.refCnt := of_decide_eq_true (pyAssert_eq_ok.mp hassert)
    obtain ⟨hapart', hcounted, hkept⟩ := ih (apart_setBlock hapart hget _) hrest
    refine ⟨hapart', ?_, fun hload => ?_⟩
    · refine OffloadView.Counted.trans ⟨List.Perm.of_eq ?_, backend_setBlock _ _, events_setBlock _ _⟩ hcounted
      exact map_entries_setBlock hapart hget rfl fun _ _ => rfl
    · have hentries : ∀ e ∈ (m.setBlock blockHash block.addRef).view.entries,
          e = (blockHash, block.addRef) ∨ (e ∈ m.view.entries ∧ e.1 ≠ blockHash) :=
        fun _ => mem_entries_setBlock hapart hget
      obtain ⟨hcount, hload'⟩ := hload.addRef (hapart.get?_eq_some.mp hget) hready hentries
      obtain ⟨hsame, hbackend, hevents⟩ := hkept hload'
      have hnew : 0 ≤ block.addRef.refCnt := by omega
      exact ⟨(sameBlocks_setBlock hapart hget hready hnew).trans hsame, hbackend.trans (backend_setBlock _ _),
        hevents.trans (events_setBlock _ _)⟩

theorem kept_completeLoad (hapart : m.Apart) (h : m.completeLoad blockHashes = .ok m') :
    m'.Apart ∧ m.view.Kept m'.view := by
  induction blockHashes generalizing m with
  | nil =>
    cases h
    exact ⟨hapart, .refl _, rfl, rfl⟩
  | cons blockHash rest ih =>
    obtain ⟨block, hblock, h⟩ := bind_eq_ok.mp h
    obtain ⟨_, hassert, h⟩ := bind_eq_ok.mp h
    have hget := block_eq_ok.mp hblock
    have hpos : 0 < block.refCnt := of_decide_eq_true (pyAssert_eq_ok.mp hassert)
    obtain ⟨hapart', hsame, hbackend, hevents⟩ := ih (apart_setBlock hapart hget _) h
    refine ⟨hapart', ?_, hbackend.trans (backend_setBlock _ _), hevents.trans (events_setBlock _ _)⟩
    exact (sameBlocks_setBlock hapart hget (by omega) (by omega)).trans hsame

theorem lookup_eq (h : m.Apart) (blockHashes : List α) :
    m.lookup blockHashes = (blockHashes.takeWhile m.view.isReady).length := by
  induction blockHashes with
  | nil => rfl
  | cons blockHash rest ih =>
    rw [lookup, List.takeWhile_cons]
    cases hget : m.get? blockHash with
    | none =>
      rw [OffloadView.isReady_eq_false fun b hb => by
        rw [← h.get?_eq_some, hget] at hb
        cases hb]
      rfl
    | some block =>
      rw [OffloadView.isReady_eq h.nodup (h.get?_eq_some.mp hget)]
      cases hblock : block.isReady with
      | true => simp [hblock, ih]
      | false => simp [hblock]

theorem apart_touchOne (h : m.Apart) (round : ℚ → ℚ) (blockHash : α) : (m.touchOne round blockHash).Apart := by
  unfold touchOne
  cases h1 : m.t1.get? blockHash with
  | some block =>
    have hmem := Dict.mem_keys_of_mem (Dict.get?_eq_some.mp h1)
    dsimp only
    split
    case isTrue =>
      -- the hash moves from T1 to T2
      refine ⟨?_, ?_, h.b1_b2⟩
      · intro k hk hk'
        obtain ⟨hne, hold⟩ := Dict.mem_keys_erase.mp hk
        rcases Dict.mem_keys_set.mp hk' with rfl | hk'
        · exact hne rfl
        · exact h.t1_t2 k hold hk'
      · rintro k (hk | hk)
        · exact h.ghosts k (Or.inl (Dict.mem_keys_erase.mp hk).2)
        · rcases Dict.mem_keys_set.mp hk with rfl | hk
          · exact h.ghosts k (Or.inl hmem)
          · exact h.ghosts k (Or.inr hk)
    case isFalse =>
      exact h.mono (fun _ => Dict.mem_keys_moveToEnd.mp) (fun _ => id) (fun _ => id) fun _ => id
  | none =>
    dsimp only
    split
    case isTrue =>
      exact h.mono (fun _ => id) (fun _ => Dict.mem_keys_moveToEnd.mp) (fun _ => id) fun _ => id
    case isFalse =>
      split
      case isTrue =>
        exact h.mono (fun _ => id) (fun _ => id) (fun _ => Dict.mem_keys_moveToEnd.mp) fun _ => id
      case isFalse =>
        split
        case isTrue =>
          exact h.mono (fun _ => id) (fun _ => id) (fun _ => id) fun _ => Dict.mem_keys_moveToEnd.mp
        case isFalse => exact h

theorem kept_touchOne (h : m.Apart) (round : ℚ → ℚ) (blockHash : α) :
    m.view.Kept (m.touchOne round blockHash).view := by
  unfold touchOne
  cases h1 : m.t1.get? blockHash with
  | some block =>
    have hmem := Dict.mem_keys_of_mem (Dict.get?_eq_some.mp h1)
    dsimp only
    split
    case isTrue =>
      refine ⟨SameBlocks.of_perm ?_, rfl, rfl⟩
      show ((m.t1.erase blockHash).entries ++ (m.t2.set blockHash block).entries).Perm
        (m.t1.entries ++ m.t2.entries)
      rw [Dict.entries_set_of_not_mem (h.t1_t2 _ hmem), ← List.append_assoc]
      apply (List.perm_append_singleton _ _).trans
      exact (Dict.perm_erase h1).symm.append_right _
    case isFalse =>
      exact ⟨SameBlocks.of_perm ((Dict.perm_moveToEnd _ _).append_right _), rfl, rfl⟩
  | none =>
    dsimp only
    split
    case isTrue =>
      exact ⟨SameBlocks.of_perm ((Dict.perm_moveToEnd _ _).append_left _), rfl, rfl⟩
    case isFalse =>
      split
      case isTrue => exact ⟨.refl _, rfl, rfl⟩
      case isFalse =>
        split
        case isTrue => exact ⟨.refl _, rfl, rfl⟩
        case isFalse => exact ⟨.refl _, rfl, rfl⟩

theorem kept_touch (h : m.Apart) (round : ℚ → ℚ) (blockHashes : List α) :
    (m.touch round blockHashes).Apart ∧ m.view.Kept (m.touch round blockHashes).view := by
  unfold touch
  induction blockHashes.reverse generalizing m with
  | nil => exact ⟨h, .refl _, rfl, rfl⟩
  | cons blockHash rest ih =>
    obtain ⟨hsame, hbackend, hevents⟩ := kept_touchOne h round blockHash
    obtain ⟨hapart, hsame', hbackend', hevents'⟩ := ih (apart_touchOne h round blockHash)
    exact ⟨hapart, hsame.trans hsame', hbackend'.trans hbackend, hevents'.trans hevents⟩

/-! ## Evicting -/

theorem oldestUnused_spec (h : oldestUnused t = some (blockHash, block)) :
    t.get? blockHash = some block ∧ block.refCnt = 0 := by
  have hunused := List.find?_some h
  exact ⟨Dict.get?_eq_some.mpr (List.mem_of_find?_eq_some h), of_decide_eq_true hunused⟩

/-- The block evicted is an unused one of `T1` or `T2`, and its hash moves to the ghost list. -/
theorem evictOne_cases (h : m.evictOne = some (blockHash, m')) :
    (∃ block, m.targetSize ≤ m.t1.entries.length ∧ m.t1.get? blockHash = some block ∧
      block.refCnt = 0 ∧
      m' = { m with
        t1 := m.t1.erase blockHash
        b1 := m.b1.set blockHash ()
        backend := m.backend.free block }) ∨
    (∃ block, (m.targetSize ≤ m.t1.entries.length → oldestUnused m.t1 = none) ∧
      m.t2.get? blockHash = some block ∧ block.refCnt = 0 ∧
      m' = { m with
        t2 := m.t2.erase blockHash
        b2 := m.b2.set blockHash ()
        backend := m.backend.free block }) := by
  unfold evictOne at h
  split at h
  case h_1 heq =>
    split at heq
    case isTrue htarget =>
      obtain ⟨rfl, rfl⟩ := Prod.mk.inj (Option.some.inj h)
      obtain ⟨hget, hunused⟩ := oldestUnused_spec heq
      exact Or.inl ⟨_, htarget, hget, hunused, rfl⟩
    case isFalse => cases heq
  case h_2 heq =>
    split at h
    case h_1 hfound =>
      obtain ⟨rfl, rfl⟩ := Prod.mk.inj (Option.some.inj h)
      obtain ⟨hget, hunused⟩ := oldestUnused_spec hfound
      refine Or.inr ⟨_, ?_, hget, hunused, rfl⟩
      intro htarget
      rw [if_pos htarget] at heq
      exact heq
    case h_2 => cases h

theorem apart_evictOne (hapart : m.Apart) (h : m.evictOne = some (blockHash, m')) : m'.Apart := by
  rcases evictOne_cases h with ⟨block, -, hget, -, rfl⟩ | ⟨block, -, hget, -, rfl⟩
  · have hmem := Dict.mem_keys_of_mem (Dict.get?_eq_some.mp hget)
    refine ⟨?_, ?_, ?_⟩
    · intro k hk
      exact hapart.t1_t2 k (Dict.mem_keys_erase.mp hk).2
    · intro k hk
      have hold : k ∈ m.t1.keys ∨ k ∈ m.t2.keys := hk.imp_left fun hk => (Dict.mem_keys_erase.mp hk).2
      obtain ⟨hnot1, hnot2⟩ := hapart.ghosts k hold
      refine ⟨?_, hnot2⟩
      intro hk'
      rcases Dict.mem_keys_set.mp hk' with rfl | hk'
      · rcases hk with hk | hk
        · exact (Dict.mem_keys_erase.mp hk).1 rfl
        · exact hapart.t1_t2 k hmem hk
      · exact hnot1 hk'
    · intro k hk
      rcases Dict.mem_keys_set.mp hk with rfl | hk
      · exact (hapart.ghosts k (Or.inl hmem)).2
      · exact hapart.b1_b2 k hk
  · have hmem := Dict.mem_keys_of_mem (Dict.get?_eq_some.mp hget)
    refine ⟨?_, ?_, ?_⟩
    · intro k hk hk'
      exact hapart.t1_t2 k hk (Dict.mem_keys_erase.mp hk').2
    · intro k hk
      have hold : k ∈ m.t1.keys ∨ k ∈ m.t2.keys := hk.imp_right fun hk => (Dict.mem_keys_erase.mp hk).2
      obtain ⟨hnot1, hnot2⟩ := hapart.ghosts k hold
      refine ⟨hnot1, ?_⟩
      intro hk'
      rcases Dict.mem_keys_set.mp hk' with rfl | hk'
      · rcases hk with hk | hk
        · exact hapart.t1_t2 k hk hmem
        · exact (Dict.mem_keys_erase.mp hk).1 rfl
      · exact hnot2 hk'
    · intro k hk hk'
      rcases Dict.mem_keys_set.mp hk' with rfl | hk'
      · exact (hapart.ghosts k (Or.inr hmem)).1 hk
      · exact hapart.b1_b2 k hk hk'

theorem evicted_evictOne (h : m.evictOne = some (blockHash, m')) :
    ∃ block, m.view.Evicted m'.view [(blockHash, block)] := by
  rcases evictOne_cases h with ⟨block, -, hget, hunused, rfl⟩ | ⟨block, -, hget, hunused, rfl⟩
  · refine ⟨block, ?_, by simpa using hunused, rfl, rfl⟩
    exact (Dict.perm_erase hget).append_right _
  · refine ⟨block, ?_, by simpa using hunused, rfl, rfl⟩
    exact ((Dict.perm_erase hget).append_left _).trans List.perm_middle

theorem evictLoop_spec (hapart : m.Apart) {n : Nat} {toEvict : List α} {enough : Bool}
    (h : evictLoop n m = (toEvict, m', enough)) :
    m'.Apart ∧ ∃ removed, toEvict = removed.map Prod.fst ∧ m.view.Evicted m'.view removed := by
  induction n generalizing m toEvict with
  | zero =>
    cases h
    exact ⟨hapart, [], rfl, .refl _, by simp, rfl, rfl⟩
  | succ n ih =>
    rw [evictLoop] at h
    cases hone : m.evictOne with
    | none =>
      rw [hone] at h
      cases h
      exact ⟨hapart, [], rfl, .refl _, by simp, rfl, rfl⟩
    | some first =>
      obtain ⟨blockHash, m₁⟩ := first
      rw [hone] at h
      cases h
      obtain ⟨block, hperm, hunused, hbackend, hevents⟩ := evicted_evictOne hone
      obtain ⟨hapart', removed, hhashes, hperm', hunused', hbackend', hevents'⟩ :=
        ih (apart_evictOne hapart hone) rfl
      refine ⟨hapart', (blockHash, block) :: removed, by rw [List.map_cons, ← hhashes], ?_, ?_, ?_,
        hevents'.trans hevents⟩
      · exact hperm.trans (hperm'.cons _)
      · intro e he
        rcases List.mem_cons.mp he with rfl | he
        · exact hunused _ List.mem_cons_self
        · exact hunused' e he
      · rw [hbackend', hbackend]
        rfl

/-- How many blocks of `T1` can be evicted before it falls below its target size. -/
def evictableT1 (m : ARCOffloadingManager α) : Nat :=
  min (m.t1.entries.countP fun e => decide (e.2.refCnt = 0))
    (m.t1.entries.length + 1 - m.targetSize).toNat

def evictableT2 (m : ARCOffloadingManager α) : Nat :=
  m.t2.entries.countP fun e => decide (e.2.refCnt = 0)

/-- How many blocks can be evicted. -/
def evictable (m : ARCOffloadingManager α) : Nat := m.evictableT1 + m.evictableT2

omit [DecidableEq α] in
theorem oldestUnused_eq_none : oldestUnused t = none ↔ t.entries.countP (fun e => decide (e.2.refCnt = 0)) = 0 := by
  rw [oldestUnused, List.find?_eq_none, List.countP_eq_zero]

theorem evictOne_eq_none : m.evictOne = none ↔ m.evictable = 0 := by
  have hcount1 := oldestUnused_eq_none (t := m.t1)
  have hcount2 := oldestUnused_eq_none (t := m.t2)
  unfold evictOne evictable evictableT1 evictableT2
  constructor
  · intro h
    split at h
    case h_1 => cases h
    case h_2 heq =>
      split at h
      case h_1 => cases h
      case h_2 hnone2 =>
        rw [hcount2.mp hnone2]
        split at heq
        case isTrue =>
          rw [hcount1.mp heq]
          omega
        case isFalse => omega
  · intro h
    have hnone2 : oldestUnused m.t2 = none := hcount2.mpr (by omega)
    have hnone1 : (if m.targetSize ≤ m.t1.entries.length then oldestUnused m.t1 else none) = none := by
      split
      case isTrue => exact hcount1.mpr (by omega)
      case isFalse => rfl
    rw [hnone1, hnone2]

theorem countP_erase (hget : t.get? blockHash = some block) (hunused : block.refCnt = 0) :
    t.entries.countP (fun e => decide (e.2.refCnt = 0)) =
        (t.erase blockHash).entries.countP (fun e => decide (e.2.refCnt = 0)) + 1 ∧
      t.entries.length = (t.erase blockHash).entries.length + 1 := by
  have hperm := Dict.perm_erase hget
  refine ⟨?_, hperm.length_eq⟩
  rw [hperm.countP_eq, List.countP_cons_of_pos (by simpa using hunused)]

/-- One eviction uses up one of the evictable blocks, of `T1` as long as there are some. -/
theorem evictable_evictOne (h : m.evictOne = some (blockHash, m')) :
    m'.targetSize = m.targetSize ∧
      ((m.evictableT1 = m'.evictableT1 + 1 ∧ m.evictableT2 = m'.evictableT2) ∨
        (m.evictableT1 = 0 ∧ m'.evictableT1 = 0 ∧ m.evictableT2 = m'.evictableT2 + 1)) := by
  rcases evictOne_cases h with ⟨block, htarget, hget, hunused, rfl⟩ | ⟨block, hnone, hget, hunused, rfl⟩
  · obtain ⟨hcount, hlen⟩ := countP_erase hget hunused
    refine ⟨rfl, Or.inl ⟨?_, rfl⟩⟩
    unfold evictableT1 targetSize at *
    dsimp only
    omega
  · obtain ⟨hcount, -⟩ := countP_erase hget hunused
    have hzero : m.evictableT1 = 0 := by
      unfold evictableT1
      rcases lt_or_ge (m.t1.entries.length : Int) m.targetSize with htarget | htarget
      · omega
      · rw [oldestUnused_eq_none.mp (hnone htarget)]
        omega
    exact ⟨rfl, Or.inr ⟨hzero, hzero, hcount⟩⟩

/-- The loop finds enough blocks exactly if there are that many; otherwise it has evicted all. -/
theorem evictLoop_enough {n : Nat} {toEvict : List α} {enough : Bool} (h : evictLoop n m = (toEvict, m', enough)) :
    (enough = true ↔ n ≤ m.evictable) ∧ toEvict.length = min n m.evictable := by
  induction n generalizing m toEvict with
  | zero =>
    cases h
    simp
  | succ n ih =>
    rw [evictLoop] at h
    cases hone : m.evictOne with
    | none =>
      rw [hone] at h
      cases h
      rw [evictOne_eq_none.mp hone]
      simp
    | some first =>
      obtain ⟨blockHash, m₁⟩ := first
      rw [hone] at h
      cases h
      obtain ⟨henough, hlen⟩ := ih rfl
      obtain ⟨-, hcount⟩ := evictable_evictOne hone
      have hstep : m.evictable = m₁.evictable + 1 := by
        unfold evictable
        omega
      rw [henough, List.length_cons]
      omega

/-- With nothing to evict, the loop changes nothing. -/
theorem evictLoop_of_evictable {n : Nat} (hn : 0 < n) (h : m.evictable = 0) : evictLoop n m = ([], m, false) := by
  obtain ⟨n, rfl⟩ := Nat.exists_eq_add_of_lt hn
  rw [evictLoop, evictOne_eq_none.mpr h]

/-! ## Storing -/

/-- Preparing a store evicts as many blocks as it needs, or none: there is nothing to store, or there
are enough blocks to evict, or none at all. -/
def MayRefuse (m : ARCOffloadingManager α) (blockHashes : List α) : Prop :=
  m.toStore blockHashes = [] ∨ m.numBlocksToEvict blockHashes ≤ m.evictable ∨ m.evictable = 0

/-- A failed store lists no block that is ready. -/
def MayFail (m : ARCOffloadingManager α) (blockHashes : List α) : Prop :=
  ∀ h ∈ blockHashes, ∀ block, m.get? h = some block → block.isReady = false

theorem toStore_eq (m : ARCOffloadingManager α) (blockHashes : List α) :
    m.toStore blockHashes = blockHashes.filter (fun h => h ∉ m.view.entries.map Prod.fst) := by
  apply List.filter_congr
  intro h _
  have hkeys : h ∉ m.view.entries.map Prod.fst ↔ h ∉ m.t1.keys ∧ h ∉ m.t2.keys := by
    show h ∉ (m.t1.entries ++ m.t2.entries).map Prod.fst ↔ _
    rw [List.map_append, List.mem_append, not_or]
    rfl
  exact decide_eq_decide.mpr hkeys.symm

omit [DecidableEq α] in
theorem allocateBlocks_nil (backend : CPUBackend) : backend.allocateBlocks ([] : List α) = .ok ([], backend) := by
  simp [CPUBackend.allocateBlocks, bind, Except.bind, pure, Except.pure]

/-- Entering the new blocks. The hashes have no block, whatever list they may have been in. -/
theorem insertBlocks_spec (h : m.Apart) {new : List (α × CPUBlockStatus)}
    (hnew : ∀ e ∈ new, e.1 ∉ m.t1.keys ∧ e.1 ∉ m.t2.keys) :
    (m.insertBlocks new).Apart ∧ ∃ added, (m.insertBlocks new).view.entries.Perm (m.view.entries ++ added) ∧
        (∀ e ∈ added, e ∈ new) ∧ (∀ k, k ∈ added.map Prod.fst ↔ k ∈ new.map Prod.fst) ∧
        ((new.map Prod.fst).Nodup → added = new) := by
  have hkeys : ∀ k ∈ new.map Prod.fst, k ∉ m.t1.keys ∧ k ∉ m.t2.keys := by
    intro k hk
    obtain ⟨e, he, rfl⟩ := List.mem_map.mp hk
    exact hnew e he
  constructor
  · refine ⟨?_, ?_, ?_⟩
    · intro k hk
      rcases Dict.mem_keys_insertAll.mp hk with hk | hk
      · exact h.t1_t2 k hk
      · exact (hkeys k hk).2
    · intro k hk
      have hnot : ∀ b : Dict α Unit, k ∉ b.keys ∨ k ∈ new.map Prod.fst →
          k ∉ (b.eraseAll (new.map Prod.fst)).keys := by
        intro b hb hk
        obtain ⟨hnew, hold⟩ := Dict.mem_keys_eraseAll.mp hk
        rcases hb with hb | hb
        · exact hb hold
        · exact hnew hb
      have hold : k ∈ new.map Prod.fst ∨ k ∈ m.t1.keys ∨ k ∈ m.t2.keys := by
        rcases hk with hk | hk
        · rcases Dict.mem_keys_insertAll.mp hk with hk | hk
          · exact Or.inr (Or.inl hk)
          · exact Or.inl hk
        · exact Or.inr (Or.inr hk)
      rcases hold with hk | hk
      · exact ⟨hnot _ (Or.inr hk), hnot _ (Or.inr hk)⟩
      · obtain ⟨hnot1, hnot2⟩ := h.ghosts k hk
        exact ⟨hnot _ (Or.inl hnot1), hnot _ (Or.inl hnot2)⟩
    · intro k hk hk'
      exact h.b1_b2 k (Dict.mem_keys_eraseAll.mp hk).2 (Dict.mem_keys_eraseAll.mp hk').2
  · obtain ⟨added, hentries, hadded, hfst, hsame⟩ :=
      Dict.entries_insertAll (d := m.t1) fun e he => (hnew e he).1
    refine ⟨added, ?_, hadded, hfst, hsame⟩
    show ((m.t1.insertAll new).entries ++ m.t2.entries).Perm ((m.t1.entries ++ m.t2.entries) ++ added)
    rw [hentries, List.append_assoc, List.append_assoc]
    exact List.perm_append_comm.append_left _

omit [DecidableEq α] in
theorem apart_trimGhosts (h : m.Apart) : m.trimGhosts.Apart :=
  h.mono (fun _ => id) (fun _ => id) (fun _ => Dict.mem_keys_of_dropOldest)
    fun _ => Dict.mem_keys_of_dropOldest

theorem prepareStore_spec (hapart : m.Apart) {r : Option (PrepareStoreOutput α)}
    (h : m.prepareStore blockHashes = .ok (r, m')) :
    m'.Apart ∧
      match r with
      | none => (∃ removed, m.view.Evicted m'.view removed) ∧ (m.MayRefuse blockHashes → m' = m)
      | some out => m.view.Prepared m'.view blockHashes out := by
  unfold prepareStore at h
  dsimp only at h
  split at h
  case isTrue hnil =>
    cases h
    refine ⟨hapart, [], m.view.entries, [], [], .refl _, by simp, rfl, ?_, ?_, rfl, by simp, by simp,
      by simp, by simp, rfl⟩
    · rw [← toStore_eq, hnil]
    · exact allocateBlocks_nil m.backend
  case isFalse hne =>
    split at h
    case h_1 toEvict m₁ hloop =>
      cases h
      obtain ⟨hapart', removed, -, hevicted⟩ := evictLoop_spec hapart hloop
      refine ⟨hapart', ⟨removed, hevicted⟩, ?_⟩
      have hfew : ¬ m.numBlocksToEvict blockHashes ≤ m.evictable := by
        intro henough
        cases (evictLoop_enough hloop).1.mpr henough
      rintro (hnone | henough | hzero)
      · exact absurd hnone hne
      · exact absurd henough hfew
      · rw [evictLoop_of_evictable (by omega) hzero] at hloop
        exact (Prod.mk.inj (Prod.mk.inj hloop).2).1.symm
    case h_2 toEvict m₁ hloop =>
      obtain ⟨⟨blocks, backend⟩, halloc, h⟩ := bind_eq_ok.mp h
      obtain ⟨_, -, h⟩ := bind_eq_ok.mp h
      cases h
      obtain ⟨hapart₁, removed, rfl, hperm, hunused, hbackend, hevents⟩ := evictLoop_spec hapart hloop
      obtain ⟨hlen, hunready, -⟩ := CPUBackend.allocateBlocks_spec halloc
      have hzip : ((m.toStore blockHashes).zip blocks).map Prod.fst = m.toStore blockHashes :=
        List.map_fst_zip (Nat.le_of_eq hlen.symm)
      have hnew : ∀ e ∈ (m.toStore blockHashes).zip blocks,
          e.1 ∉ m₁.t1.keys ∧ e.1 ∉ m₁.t2.keys := by
        intro e he
        have hmem := List.mem_map_of_mem (f := Prod.fst) he
        rw [hzip, toStore_eq, List.mem_filter, decide_eq_true_eq] at hmem
        have hnot : e.1 ∉ m₁.view.entries.map Prod.fst := by
          intro hold
          apply hmem.2
          obtain ⟨e', he', hkey⟩ := List.mem_map.mp hold
          rw [← hkey]
          exact List.mem_map_of_mem (hperm.mem_iff.mpr (List.mem_append_right _ he'))
        constructor
        · intro hk
          obtain ⟨b, hb⟩ := Dict.mem_keys.mp hk
          have hold : (e.1, b) ∈ m₁.view.entries := List.mem_append_left _ hb
          exact hnot (List.mem_map.mpr ⟨_, hold, rfl⟩)
        · intro hk
          obtain ⟨b, hb⟩ := Dict.mem_keys.mp hk
          have hold : (e.1, b) ∈ m₁.view.entries := List.mem_append_right _ hb
          exact hnot (List.mem_map.mpr ⟨_, hold, rfl⟩)
      have hapart₂ : ({ m₁.trimGhosts.addEvent (removed.map Prod.fst) true with
          backend := backend } : ARCOffloadingManager α).Apart :=
        (apart_trimGhosts hapart₁).mono (fun _ => id) (fun _ => id) (fun _ => id) fun _ => id
      obtain ⟨hapart₃, added, hentries, hadded, hkeys, hsame⟩ := insertBlocks_spec hapart₂ hnew
      refine ⟨hapart₃, removed, m₁.view.entries, added, blocks, hperm, hunused, rfl,
        toStore_eq m blockHashes, ?_, rfl, hentries, ?_, ?_, ?_, ?_⟩
      · have hsame : m.view.backend.freeAll removed =
            (m₁.trimGhosts.addEvent (removed.map Prod.fst) true).backend := hbackend.symm
        rw [hsame]
        exact halloc
      · intro hash
        rw [hkeys, hzip]
      · intro e he
        exact hunready e.2 (List.of_mem_zip (hadded e he)).2
      · intro hnodup
        rw [hsame (by rw [hzip]; exact hnodup)]
      · show Core.addEvent m₁.view.events m₁.view.backend (removed.map Prod.fst) true = _
        rw [hevents, hbackend]
        unfold Core.addEvent
        rw [CPUBackend.blockSize_freeAll]

theorem markReady_spec (hapart : m.Apart) {stored : List α} (h : m.markReady blockHashes = (stored, m')) :
    m'.Apart ∧ m.view.Marked m'.view blockHashes stored := by
  induction blockHashes generalizing m stored with
  | nil =>
    cases h
    exact ⟨hapart, .nil⟩
  | cons blockHash rest ih =>
    rw [markReady] at h
    cases hget : m.get? blockHash with
    | none =>
      rw [hget] at h
      obtain ⟨hapart', hmarked⟩ := ih hapart h
      refine ⟨hapart', hmarked.skip fun b hb => ?_⟩
      rw [hapart.get?_eq_some.mpr hb] at hget
      cases hget
    | some block =>
      rw [hget] at h
      dsimp only at h
      split at h
      case isTrue hready =>
        obtain ⟨hapart', hmarked⟩ := ih hapart h
        refine ⟨hapart', hmarked.skip fun b hb => ?_⟩
        rw [hapart.get?_eq_some.mpr hb] at hget
        rwa [Option.some.inj hget]
      case isFalse hready =>
        cases h
        obtain ⟨hapart', hmarked⟩ := ih (apart_setBlock hapart hget _) rfl
        exact ⟨hapart', hmarked.mark (hapart.get?_eq_some.mp hget) (Bool.eq_false_iff.mpr hready)
          (map_entries_setBlock hapart hget) (fun _ _ => mem_setBlock hapart hget) (backend_setBlock _ _)
          (events_setBlock _ _)⟩

theorem apart_popBlock (h : m.Apart) (blockHash : α) : (m.popBlock blockHash).Apart := by
  unfold popBlock
  split
  case h_1 =>
    exact h.mono (fun _ hk => (Dict.mem_keys_erase.mp hk).2) (fun _ => id) (fun _ => id) fun _ => id
  case h_2 =>
    exact h.mono (fun _ => id) (fun _ hk => (Dict.mem_keys_erase.mp hk).2) (fun _ => id) fun _ => id

theorem perm_popBlock (hget : m.get? blockHash = some block) :
    m.view.entries.Perm ((blockHash, block) :: (m.popBlock blockHash).view.entries) := by
  unfold popBlock
  unfold get? at hget
  cases h1 : m.t1.get? blockHash with
  | some b =>
    rw [h1] at hget
    cases hget
    exact (Dict.perm_erase h1).append_right _
  | none =>
    rw [h1] at hget
    exact ((Dict.perm_erase hget).append_left _).trans List.perm_middle

@[simp] theorem backend_popBlock (blockHash : α) : (m.popBlock blockHash).backend = m.backend := by
  unfold popBlock
  split <;> rfl

@[simp] theorem events_popBlock (blockHash : α) : (m.popBlock blockHash).events = m.events := by
  unfold popBlock
  split <;> rfl

theorem dropBlocks_spec (hapart : m.Apart) (hfail : m.MayFail blockHashes) :
    (m.dropBlocks blockHashes).Apart ∧ m.view.Failed (m.dropBlocks blockHashes).view blockHashes := by
  induction blockHashes generalizing m with
  | nil => exact ⟨hapart, .nil⟩
  | cons blockHash rest ih =>
    rw [dropBlocks]
    cases hget : m.get? blockHash with
    | none =>
      obtain ⟨hapart', hfailed⟩ := ih hapart fun h hmem => hfail h (List.mem_cons_of_mem _ hmem)
      refine ⟨hapart', hfailed.skip fun b hb => ?_⟩
      rw [hapart.get?_eq_some.mpr hb] at hget
      cases hget
    | some block =>
      have hunready : block.isReady = false := hfail _ List.mem_cons_self block hget
      dsimp only
      rw [hunready, if_neg Bool.false_ne_true]
      have hpop := perm_popBlock hget
      have hapart₁ : ({ m.popBlock blockHash with
          backend := (m.popBlock blockHash).backend.free block } : ARCOffloadingManager α).Apart :=
        (apart_popBlock hapart blockHash).mono (fun _ => id) (fun _ => id) (fun _ => id)
          fun _ => id
      -- the popped hash has no entry any more, and the others have the one they had
      have hgone : ∀ e ∈ (m.popBlock blockHash).view.entries, e.1 ≠ blockHash := by
        intro e he hk
        have hkeys := (hpop.map Prod.fst).nodup_iff.mp hapart.nodup
        rw [List.map_cons, List.nodup_cons] at hkeys
        exact hkeys.1 (List.mem_map.mpr ⟨e, he, hk⟩)
      obtain ⟨hapart', hfailed⟩ := ih hapart₁ fun h hmem b hb => by
        have hold := hpop.mem_iff.mpr (List.mem_cons_of_mem _ (hapart₁.get?_eq_some.mp hb))
        exact hfail h (List.mem_cons_of_mem _ hmem) b (hapart.get?_eq_some.mpr hold)
      have hbackend := congrArg (·.free block) (backend_popBlock (m := m) blockHash)
      exact ⟨hapart', hfailed.drop hunready hpop hgone hbackend (events_popBlock _)⟩

/-- A failed store only pops entries. -/
theorem apart_dropBlocks (h : m.Apart) (blockHashes : List α) : (m.dropBlocks blockHashes).Apart := by
  induction blockHashes generalizing m with
  | nil => exact h
  | cons blockHash rest ih =>
    rw [dropBlocks]
    split
    · exact ih h
    · dsimp only
      have hpop := apart_popBlock h blockHash
      split
      · exact ih hpop
      · exact ih (hpop.mono (fun _ => id) (fun _ => id) (fun _ => id) fun _ => id)

/-- The ARC manager does what its methods are for, if failed stores list no ready block. -/
theorem refines (round : ℚ → ℚ) : (manager round : OffloadingManager α (ARCOffloadingManager α)).Refines
    view Apart MayFail MayRefuse where
  nodup _ h := h.nodup
  lookup _ hs h := lookup_eq h hs
  touch _ hs h := kept_touch h round hs
  prepareLoad _ _ _ _ hapart h := prepareLoad_spec hapart h
  completeLoad _ _ _ hapart h := kept_completeLoad hapart h
  prepareStore _ _ r _ hapart h := by
    have hspec := prepareStore_spec hapart h
    cases r with
    | none => exact hspec
    | some out => exact hspec
  stored m hs m' hapart h := by
    cases h
    obtain ⟨hapart', hentries, hbackend, hevents, hstored⟩ := markReady_spec (m := m) hapart rfl
    refine ⟨hapart'.mono (fun _ => id) (fun _ => id) (fun _ => id) fun _ => id,
      List.Perm.of_eq hentries, hbackend, _, hstored, ?_⟩
    show Core.addEvent (m.markReady hs).2.view.events (m.markReady hs).2.view.backend (m.markReady hs).1 false = _
    rw [hevents, hbackend]
  failed m hs m' hapart hfail h := by
    cases h
    exact dropBlocks_spec hapart hfail
  takeEvents _ h := ⟨h.mono (fun _ => id) (fun _ => id) (fun _ => id) fun _ => id, rfl, rfl, rfl, rfl⟩

end ARCOffloadingManager

end Yuan.Core
