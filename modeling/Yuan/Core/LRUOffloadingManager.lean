import Yuan.Core.OffloadingManager

/-!
# The LRU offloading manager

Blocks in the order of their last use. Blocks to evict are chosen before anything is changed, so a
store that finds too few leaves no trace.
-/

namespace Yuan.Core

variable {α : Type}

structure LRUOffloadingManager (α : Type) where
  backend : CPUBackend
  blocks : Dict α CPUBlockStatus := .empty
  events : Option (List (OffloadingEvent α)) := none

namespace LRUOffloadingManager

/-- `__init__`. -/
def init (backend : CPUBackend) (enableEvents : Bool) : LRUOffloadingManager α where
  backend := backend
  events := if enableEvents then some [] else none

variable [DecidableEq α] (m : LRUOffloadingManager α)

def lookup : List α → Nat
  | [] => 0
  | blockHash :: rest =>
    match m.blocks.get? blockHash with
    | none => 0
    | some block => if block.isReady then lookup rest + 1 else 0

def setBlock (blockHash : α) (block : CPUBlockStatus) : LRUOffloadingManager α :=
  { m with blocks := m.blocks.set blockHash block }

/-- `self.blocks[block_hash]`. -/
def block (blockHash : α) : Except PyError CPUBlockStatus :=
  match m.blocks.get? blockHash with
  | none => .error (.keyError "block_hash")
  | some block => .ok block

/-- Returns the ids of the blocks to read. -/
def prepareLoad : LRUOffloadingManager α → List α → Except PyError (List Nat × LRUOffloadingManager α)
  | m, [] => return ([], m)
  | m, blockHash :: rest => do
    let block ← m.block blockHash
    pyAssert block.isReady ""
    let (ids, m) ← prepareLoad (m.setBlock blockHash block.addRef) rest
    return (block.blockId :: ids, m)

def touch (blockHashes : List α) : LRUOffloadingManager α :=
  blockHashes.reverse.foldl (fun m blockHash => { m with blocks := m.blocks.moveToEnd blockHash }) m

def completeLoad : LRUOffloadingManager α → List α → Except PyError (LRUOffloadingManager α)
  | m, [] => return m
  | m, blockHash :: rest => do
    let block ← m.block blockHash
    pyAssert (decide (0 < block.refCnt)) ""
    completeLoad (m.setBlock blockHash { block with refCnt := block.refCnt - 1 }) rest

/-- The first `n` blocks that nobody uses, or none if there are too few. -/
def findEvictable : List (α × CPUBlockStatus) → Nat → Option (List α)
  | _, 0 => some []
  | [], _ + 1 => none
  | (blockHash, block) :: rest, n + 1 =>
    if block.refCnt = 0 then (findEvictable rest n).map (blockHash :: ·)
    else findEvictable rest (n + 1)

/-- Drop a block, and give its id back. -/
def freeBlock (blockHash : α) (block : CPUBlockStatus) : LRUOffloadingManager α :=
  { m with blocks := m.blocks.erase blockHash, backend := m.backend.free block }

/-- Pop the blocks to evict, and free them. -/
def evict : LRUOffloadingManager α → List α → Except PyError (LRUOffloadingManager α)
  | m, [] => return m
  | m, blockHash :: rest => do
    let block ← m.block blockHash
    evict (m.freeBlock blockHash block) rest

def addEvent (blockHashes : List α) (removed : Bool) : LRUOffloadingManager α :=
  { m with events := Core.addEvent m.events m.backend blockHashes removed }

/-- Enter the allocated blocks. -/
def insertBlocks (new : List (α × CPUBlockStatus)) : LRUOffloadingManager α :=
  { m with blocks := m.blocks.insertAll new }

def prepareStore (blockHashes : List α) :
    Except PyError (Option (PrepareStoreOutput α) × LRUOffloadingManager α) := do
  let blockHashesToStore := blockHashes.filter fun h => h ∉ m.blocks.keys
  let numBlocksToEvict := blockHashesToStore.length - m.backend.getNumFreeBlocks
  match findEvictable m.blocks.entries numBlocksToEvict.toNat with
  | none => return (none, m)
  | some toEvict => do
    let m ← m.evict toEvict
    let m := m.addEvent toEvict true
    let (blocks, backend) ← m.backend.allocateBlocks blockHashesToStore
    pyAssert (decide (blocks.length = blockHashesToStore.length)) ""
    return (some ⟨blockHashesToStore, blocks.map CPUBlockStatus.blockId, toEvict⟩,
      { m with backend := backend }.insertBlocks (blockHashesToStore.zip blocks))

/-- Mark blocks as ready; returns those that were not. -/
def markReady : LRUOffloadingManager α → List α → Except PyError (List α × LRUOffloadingManager α)
  | m, [] => return ([], m)
  | m, blockHash :: rest => do
    let block ← m.block blockHash
    if block.isReady then markReady m rest
    else do
      let (stored, m) ← markReady (m.setBlock blockHash { block with refCnt := 0 }) rest
      return (blockHash :: stored, m)

/-- Drop blocks that are not ready. -/
def dropUnready : LRUOffloadingManager α → List α → Except PyError (LRUOffloadingManager α)
  | m, [] => return m
  | m, blockHash :: rest => do
    let block ← m.block blockHash
    if block.isReady then dropUnready m rest
    else dropUnready (m.freeBlock blockHash block) rest

def completeStore (blockHashes : List α) (success : Bool) :
    Except PyError (LRUOffloadingManager α) :=
  if success then do
    let (stored, m) ← m.markReady blockHashes
    return m.addEvent stored false
  else m.dropUnready blockHashes

def takeEvents : List (OffloadingEvent α) × LRUOffloadingManager α :=
  (m.events.getD [], { m with events := m.events.map fun _ => [] })

/-- The methods, as a manager. -/
def manager : OffloadingManager α (LRUOffloadingManager α) where
  lookup := lookup
  prepareLoad := prepareLoad
  touch := touch
  completeLoad := completeLoad
  prepareStore := prepareStore
  completeStore := completeStore
  takeEvents := takeEvents

def view : OffloadView α := ⟨m.blocks.entries, m.backend, m.events⟩

/-- How many blocks have to be evicted. -/
def numBlocksToEvict (blockHashes : List α) : Nat :=
  ((blockHashes.filter fun h => h ∉ m.blocks.keys).length - m.backend.getNumFreeBlocks).toNat

/-! ## What the methods do -/

variable {m} {block : CPUBlockStatus} {blockHashes : List α} {m' : LRUOffloadingManager α}

theorem block_eq_ok {blockHash : α} : m.block blockHash = .ok block ↔ m.blocks.get? blockHash = some block := by
  unfold LRUOffloadingManager.block
  cases m.blocks.get? blockHash <;> simp

/-- Counting references leaves a ready block what it is. -/
theorem sameBlocks_setBlock {blockHash : α} (h : m.blocks.get? blockHash = some block) {refCnt : Int}
    (hold : 0 ≤ block.refCnt) (hnew : 0 ≤ refCnt) : SameBlocks m.view.entries
      (m.setBlock blockHash { block with refCnt := refCnt }).view.entries := by
  apply List.Perm.of_eq
  apply Dict.map_entries_set h
  · simp [signature, CPUBlockStatus.isReady, hold, hnew]
  · exact fun _ _ => rfl

theorem lookup_eq (blockHashes : List α) : m.lookup blockHashes = (blockHashes.takeWhile m.view.isReady).length := by
  induction blockHashes with
  | nil => rfl
  | cons blockHash rest ih =>
    rw [lookup, List.takeWhile_cons]
    cases hget : m.blocks.get? blockHash with
    | none =>
      rw [OffloadView.isReady_eq_false fun b hb => by
        rw [Dict.get?_eq_some.mpr hb] at hget
        cases hget]
      rfl
    | some block =>
      rw [OffloadView.isReady_eq m.blocks.nodup (Dict.get?_eq_some.mp hget)]
      cases hblock : block.isReady with
      | true => simp [hblock, ih]
      | false => simp [hblock]

theorem kept_touch (blockHashes : List α) : m.view.Kept (m.touch blockHashes).view := by
  unfold touch
  induction blockHashes.reverse generalizing m with
  | nil => exact ⟨.refl _, rfl, rfl⟩
  | cons blockHash rest ih =>
    obtain ⟨hsame, hbackend, hevents⟩ :=
      ih (m := { m with blocks := m.blocks.moveToEnd blockHash })
    refine ⟨?_, hbackend, hevents⟩
    exact (SameBlocks.of_perm (Dict.perm_moveToEnd m.blocks blockHash)).trans hsame

theorem prepareLoad_spec {ids : List Nat} (h : m.prepareLoad blockHashes = .ok (ids, m')) :
    m.view.Counted m'.view ∧ (m.view.MayLoad blockHashes → m.view.Kept m'.view) := by
  induction blockHashes generalizing m ids with
  | nil =>
    cases h
    exact ⟨⟨.refl _, rfl, rfl⟩, fun _ => ⟨.refl _, rfl, rfl⟩⟩
  | cons blockHash rest ih =>
    obtain ⟨block, hblock, h⟩ := bind_eq_ok.mp h
    obtain ⟨_, hassert, h⟩ := bind_eq_ok.mp h
    obtain ⟨⟨ids', m''⟩, hrest, h⟩ := bind_eq_ok.mp h
    cases h
    have hget := block_eq_ok.mp hblock
    have hready : 0 ≤ block.refCnt := of_decide_eq_true (pyAssert_eq_ok.mp hassert)
    obtain ⟨hcounted, hkept⟩ := ih hrest
    constructor
    · have hset : m.view.Counted (m.setBlock blockHash block.addRef).view :=
        ⟨List.Perm.of_eq (Dict.map_entries_set hget rfl fun _ _ => rfl), rfl, rfl⟩
      exact hset.trans hcounted
    · intro hload
      have hentries : ∀ e ∈ (m.setBlock blockHash block.addRef).view.entries,
          e = (blockHash, block.addRef) ∨ (e ∈ m.view.entries ∧ e.1 ≠ blockHash) := by
        intro e he
        rcases Dict.mem_set.mp he with ⟨hkey, hblock⟩ | ⟨hne, hold⟩
        · exact Or.inl (Prod.ext hkey hblock)
        · exact Or.inr ⟨hold, hne⟩
      obtain ⟨hcount, hrest⟩ := hload.addRef (Dict.get?_eq_some.mp hget) hready hentries
      obtain ⟨hsame, hbackend, hevents⟩ := hkept hrest
      have hnew : 0 ≤ block.addRef.refCnt := by omega
      exact ⟨(sameBlocks_setBlock hget hready hnew).trans hsame, hbackend, hevents⟩

theorem kept_completeLoad (h : m.completeLoad blockHashes = .ok m') : m.view.Kept m'.view := by
  induction blockHashes generalizing m with
  | nil =>
    cases h
    exact ⟨.refl _, rfl, rfl⟩
  | cons blockHash rest ih =>
    obtain ⟨block, hblock, h⟩ := bind_eq_ok.mp h
    obtain ⟨_, hassert, h⟩ := bind_eq_ok.mp h
    have hpos : 0 < block.refCnt := of_decide_eq_true (pyAssert_eq_ok.mp hassert)
    obtain ⟨hsame, hbackend, hevents⟩ := ih h
    refine ⟨?_, hbackend, hevents⟩
    exact (sameBlocks_setBlock (block_eq_ok.mp hblock) (by omega) (by omega)).trans hsame

omit [DecidableEq α] in
theorem findEvictable_enough {entries : List (α × CPUBlockStatus)} {n : Nat} {found : List α}
    (h : findEvictable entries n = some found) : n ≤ entries.countP fun e => decide (e.2.refCnt = 0) := by
  induction entries generalizing n found with
  | nil =>
    cases n with
    | zero => exact Nat.zero_le _
    | succ n => cases h
  | cons e entries ih =>
    cases n with
    | zero => exact Nat.zero_le _
    | succ n =>
      rw [findEvictable] at h
      split at h
      case isTrue hunused =>
        obtain ⟨rest, hrest, -⟩ := Option.map_eq_some_iff.mp h
        rw [List.countP_cons_of_pos (by simpa using hunused)]
        exact Nat.succ_le_succ (ih hrest)
      case isFalse hused =>
        rw [List.countP_cons_of_neg (by simpa using hused)]
        exact ih h

theorem enough_of_prepareStore {out : PrepareStoreOutput α} (h : m.prepareStore blockHashes = .ok (some out, m')) :
    m.numBlocksToEvict blockHashes ≤ m.blocks.entries.countP fun e => decide (e.2.refCnt = 0) := by
  unfold prepareStore at h
  dsimp only at h
  split at h
  case h_1 => cases h
  case h_2 toEvict hfind => exact findEvictable_enough hfind

omit [DecidableEq α] in
/-- The blocks found are entries that nobody uses. -/
theorem findEvictable_spec {entries : List (α × CPUBlockStatus)} {n : Nat} {found : List α}
    (h : findEvictable entries n = some found) :
    ∃ removed : List (α × CPUBlockStatus), removed.Sublist entries ∧
      found = removed.map Prod.fst ∧ ∀ e ∈ removed, e.2.refCnt = 0 := by
  induction entries generalizing n found with
  | nil =>
    cases n with
    | zero =>
      cases h
      exact ⟨[], .slnil, rfl, by simp⟩
    | succ n => cases h
  | cons e entries ih =>
    cases n with
    | zero =>
      cases h
      exact ⟨[], List.nil_sublist _, rfl, by simp⟩
    | succ n =>
      rw [findEvictable] at h
      split at h
      case isTrue hfree =>
        obtain ⟨found', hfound, rfl⟩ := Option.map_eq_some_iff.mp h
        obtain ⟨removed, hsub, rfl, hunused⟩ := ih hfound
        refine ⟨e :: removed, hsub.cons_cons _, rfl, ?_⟩
        intro e' he'
        rcases List.mem_cons.mp he' with rfl | he'
        · exact hfree
        · exact hunused e' he'
      case isFalse =>
        obtain ⟨removed, hsub, hfound, hunused⟩ := ih h
        exact ⟨removed, hsub.cons _, hfound, hunused⟩

/-- Freeing a block takes its entry away. -/
theorem perm_freeBlock {blockHash : α} (h : m.blocks.get? blockHash = some block) :
    m.view.entries.Perm ((blockHash, block) :: (m.freeBlock blockHash block).view.entries) :=
  Dict.perm_erase h

theorem evict_spec {removed : List (α × CPUBlockStatus)} (hmem : ∀ e ∈ removed, e ∈ m.blocks.entries)
    (hnodup : (removed.map Prod.fst).Nodup) (h : m.evict (removed.map Prod.fst) = .ok m') :
    m.view.entries.Perm (removed ++ m'.view.entries) ∧
      m'.backend = m.backend.freeAll removed ∧ m'.events = m.events := by
  induction removed generalizing m with
  | nil =>
    cases h
    exact ⟨.refl _, rfl, rfl⟩
  | cons e removed ih =>
    obtain ⟨block, hblock, h⟩ := bind_eq_ok.mp h
    have hget := block_eq_ok.mp hblock
    have heq : e = (e.1, block) := by
      rw [← Dict.value_unique (hmem e List.mem_cons_self) (Dict.get?_eq_some.mp hget)]
    rw [List.map_cons, List.nodup_cons] at hnodup
    have hmem' : ∀ e' ∈ removed, e' ∈ (m.freeBlock e.1 block).blocks.entries := by
      intro e' he'
      refine Dict.mem_erase.mpr ⟨?_, hmem e' (List.mem_cons_of_mem _ he')⟩
      intro hkey
      exact hnodup.1 (hkey ▸ List.mem_map_of_mem he')
    obtain ⟨hperm, hbackend, hevents⟩ := ih hmem' hnodup.2 h
    refine ⟨?_, ?_, hevents⟩
    · apply (perm_freeBlock hget).trans
      rw [← heq]
      exact hperm.cons e
    · rw [hbackend, CPUBackend.freeAll_cons, heq]
      rfl

theorem prepareStore_spec {r : Option (PrepareStoreOutput α)} (h : m.prepareStore blockHashes = .ok (r, m')) :
    match r with
    | none => m' = m
    | some out => m.view.Prepared m'.view blockHashes out := by
  unfold prepareStore at h
  dsimp only at h
  split at h
  case h_1 =>
    cases h
    rfl
  case h_2 toEvict hfind =>
    obtain ⟨removed, hsub, rfl, hunused⟩ := findEvictable_spec hfind
    obtain ⟨evicted, hevict, h⟩ := bind_eq_ok.mp h
    obtain ⟨⟨blocks, backend⟩, halloc, h⟩ := bind_eq_ok.mp h
    obtain ⟨_, -, h⟩ := bind_eq_ok.mp h
    cases h
    obtain ⟨hperm, hbackend, hevents⟩ := evict_spec (fun e he => hsub.subset he)
      ((hsub.map Prod.fst).nodup m.blocks.nodup) hevict
    obtain ⟨hlen, hunready, -⟩ := CPUBackend.allocateBlocks_spec halloc
    -- the hashes to store have no entry, before and behind the eviction
    have hzip : ((blockHashes.filter fun h => h ∉ m.blocks.keys).zip blocks).map Prod.fst =
        blockHashes.filter fun h => h ∉ m.blocks.keys := List.map_fst_zip (Nat.le_of_eq hlen.symm)
    have hnew : ∀ e ∈ (blockHashes.filter fun h => h ∉ m.blocks.keys).zip blocks,
        e.1 ∉ evicted.blocks.keys := by
      intro e he hold
      have hmem := List.mem_map_of_mem (f := Prod.fst) he
      rw [hzip, List.mem_filter] at hmem
      apply of_decide_eq_true hmem.2
      obtain ⟨e', he', hkey⟩ := List.mem_map.mp hold
      rw [← hkey]
      exact List.mem_map_of_mem (hperm.mem_iff.mpr (List.mem_append_right _ he'))
    obtain ⟨added, hentries, hadded, hkeys, hsame⟩ := Dict.entries_insertAll hnew
    refine ⟨removed, evicted.view.entries, added, blocks, hperm, hunused, rfl, rfl, ?_, rfl, ?_, ?_,
      ?_, ?_, ?_⟩
    · have hsame : m.view.backend.freeAll removed =
          (evicted.addEvent (removed.map Prod.fst) true).backend := hbackend.symm
      rw [hsame]
      exact halloc
    · exact List.Perm.of_eq hentries
    · intro hash
      rw [hkeys, hzip]
    · intro e he
      exact hunready e.2 (List.of_mem_zip (hadded e he)).2
    · intro hnodup
      rw [hsame (by rw [hzip]; exact hnodup)]
    · show (evicted.addEvent (removed.map Prod.fst) true).events = _
      unfold LRUOffloadingManager.addEvent Core.addEvent
      rw [hevents, hbackend, CPUBackend.blockSize_freeAll]
      rfl

theorem markReady_spec {stored : List α} (h : m.markReady blockHashes = .ok (stored, m')) :
    m.view.Marked m'.view blockHashes stored := by
  induction blockHashes generalizing m stored with
  | nil =>
    cases h
    exact .nil
  | cons blockHash rest ih =>
    obtain ⟨block, hblock, h⟩ := bind_eq_ok.mp h
    have hget := block_eq_ok.mp hblock
    split at h
    case isTrue hready =>
      refine (ih h).skip fun b hb => ?_
      rwa [Dict.value_unique hb (Dict.get?_eq_some.mp hget)]
    case isFalse hready =>
      obtain ⟨⟨stored', m''⟩, hrest, h⟩ := bind_eq_ok.mp h
      cases h
      refine (ih hrest).mark (Dict.get?_eq_some.mp hget) (Bool.eq_false_iff.mpr hready) (Dict.map_entries_set hget)
        (fun hash b hk => ?_) rfl rfl
      show (hash, b) ∈ (m.blocks.set _ _).entries ↔ (hash, b) ∈ m.blocks.entries
      rw [Dict.mem_set]
      simp [hk]

theorem dropUnready_spec (h : m.dropUnready blockHashes = .ok m') : m.view.Failed m'.view blockHashes := by
  induction blockHashes generalizing m with
  | nil =>
    cases h
    exact .nil
  | cons blockHash rest ih =>
    obtain ⟨block, hblock, h⟩ := bind_eq_ok.mp h
    have hget := block_eq_ok.mp hblock
    split at h
    case isTrue hready =>
      refine (ih h).skip fun b hb => ?_
      rwa [Dict.value_unique hb (Dict.get?_eq_some.mp hget)]
    case isFalse hready =>
      exact (ih h).drop (Bool.eq_false_iff.mpr hready) (perm_freeBlock hget) (fun _ he => (Dict.mem_erase.mp he).1) rfl
        rfl

/-- The LRU manager does what its methods are for. -/
theorem refines : (manager : OffloadingManager α (LRUOffloadingManager α)).Refines view
    (fun _ => True) (fun _ _ => True) (fun _ _ => True) where
  nodup m _ := m.blocks.nodup
  lookup _ hs _ := lookup_eq hs
  touch _ hs _ := ⟨trivial, kept_touch hs⟩
  prepareLoad _ _ _ _ _ h := ⟨trivial, prepareLoad_spec h⟩
  completeLoad _ _ _ _ h := ⟨trivial, kept_completeLoad h⟩
  prepareStore m hs r m' _ h := by
    refine ⟨trivial, ?_⟩
    have hspec := prepareStore_spec h
    cases r with
    | none =>
      have hsame : m' = m := hspec
      subst hsame
      exact ⟨⟨[], .refl _, by simp, rfl, rfl⟩, fun _ => rfl⟩
    | some out => exact hspec
  stored m hs m' _ h := by
    refine ⟨trivial, ?_⟩
    obtain ⟨⟨stored, m''⟩, hmark, h⟩ := bind_eq_ok.mp h
    cases h
    obtain ⟨hentries, hbackend, hevents, hstored⟩ := markReady_spec hmark
    refine ⟨List.Perm.of_eq hentries, hbackend, stored, hstored, ?_⟩
    show Core.addEvent m''.view.events m''.view.backend stored false = _
    rw [hevents, hbackend]
  failed m hs m' _ _ h := ⟨trivial, dropUnready_spec h⟩
  takeEvents _ _ := ⟨trivial, rfl, rfl, rfl, rfl⟩

end LRUOffloadingManager

end Yuan.Core
