import Yuan.Core.OffloadBackend

/-!
# Offloading managers

The interface of a manager of the CPU cache, and what its operations mean for the cached blocks: which
entries there are, which are ready to be read, and what the backend has free. The eviction policies
implement the interface; what holds over runs is proved from the meaning alone.
-/

namespace Yuan.Core

/-- The methods of `OffloadingManager`. -/
structure OffloadingManager (α σ : Type) where
  lookup : σ → List α → Nat
  prepareLoad : σ → List α → Except PyError (List Nat × σ)
  touch : σ → List α → σ
  completeLoad : σ → List α → Except PyError σ
  prepareStore : σ → List α → Except PyError (Option (PrepareStoreOutput α) × σ)
  completeStore : σ → List α → Bool → Except PyError σ
  takeEvents : σ → List (OffloadingEvent α) × σ

/-- What can be seen of a manager, whatever its eviction policy: cached blocks, in some order, the
backend, and the events not yet taken. -/
structure OffloadView (α : Type) where
  entries : List (α × CPUBlockStatus)
  backend : CPUBackend
  events : Option (List (OffloadingEvent α))

variable {α : Type}

/-- Hash, block id and readiness of an entry; the reference count of a ready block is left out. -/
def signature (e : α × CPUBlockStatus) : α × Nat × Bool := (e.1, e.2.blockId, e.2.isReady)

/-- The same blocks for the same hashes, ready as before. -/
def SameBlocks (entries entries' : List (α × CPUBlockStatus)) : Prop :=
  (entries'.map signature).Perm (entries.map signature)

namespace SameBlocks

variable {entries entries' entries'' : List (α × CPUBlockStatus)}

theorem refl (entries : List (α × CPUBlockStatus)) : SameBlocks entries entries := List.Perm.refl _

theorem of_perm (h : entries'.Perm entries) : SameBlocks entries entries' := h.map _

theorem trans (h : SameBlocks entries entries') (h' : SameBlocks entries' entries'') :
    SameBlocks entries entries'' := List.Perm.trans h' h

end SameBlocks

/-- Append an event, unless it is about no block or events are not recorded. -/
def addEvent (events : Option (List (OffloadingEvent α))) (backend : CPUBackend)
    (blockHashes : List α) (removed : Bool) : Option (List (OffloadingEvent α)) :=
  if blockHashes = [] then events
  else events.map fun events =>
    events ++ [⟨blockHashes, backend.blockSize, CPUBackend.medium, removed⟩]

namespace OffloadView

variable [DecidableEq α] (v v' : OffloadView α)

/-- What operations that only count references or reorder do. -/
def Kept : Prop :=
  SameBlocks v.entries v'.entries ∧ v'.backend = v.backend ∧ v'.events = v.events

/-- The same blocks for the same hashes, whether ready or not. -/
def Counted : Prop :=
  (v'.entries.map fun e => (e.1, e.2.blockId)).Perm (v.entries.map fun e => (e.1, e.2.blockId)) ∧
    v'.backend = v.backend ∧ v'.events = v.events

/-- Loads of the listed hashes do not take the count of a block to the end of its 32 bits. -/
def MayLoad (hashes : List α) : Prop :=
  ∀ e ∈ v.entries, e.1 ∈ hashes → e.2.refCnt + hashes.count e.1 < 2 ^ 31

/-- Some blocks that nobody reads are evicted and their ids freed; nothing is reported. -/
def Evicted (removed : List (α × CPUBlockStatus)) : Prop :=
  v.entries.Perm (removed ++ v'.entries) ∧ (∀ e ∈ removed, e.2.refCnt = 0) ∧
    v'.backend = v.backend.freeAll removed ∧ v'.events = v.events

/-- A store is prepared: `removed` is evicted and reported, and the hashes without a block get one that
is not ready. -/
def Prepared (hashes : List α) (out : PrepareStoreOutput α) : Prop :=
  ∃ removed kept added blocks,
    v.entries.Perm (removed ++ kept) ∧ (∀ e ∈ removed, e.2.refCnt = 0) ∧
    out.blockHashesEvicted = removed.map Prod.fst ∧
    out.blockHashesToStore = hashes.filter (fun h => h ∉ v.entries.map Prod.fst) ∧
    (v.backend.freeAll removed).allocateBlocks out.blockHashesToStore = .ok (blocks, v'.backend) ∧
    out.storeSpec = blocks.map CPUBlockStatus.blockId ∧
    v'.entries.Perm (kept ++ added) ∧
    (∀ h, h ∈ added.map Prod.fst ↔ h ∈ out.blockHashesToStore) ∧
    (∀ e ∈ added, e.2.refCnt = -1) ∧
    (out.blockHashesToStore.Nodup → added.Perm (out.blockHashesToStore.zip blocks)) ∧
    v'.events = addEvent v.events v.backend out.blockHashesEvicted true

/-- A store has succeeded: the listed blocks are ready, and those that were not are reported. -/
def Stored (hashes : List α) : Prop :=
  (v'.entries.map signature).Perm
      (v.entries.map fun e => (e.1, e.2.blockId, e.2.isReady || decide (e.1 ∈ hashes))) ∧
    v'.backend = v.backend ∧
    ∃ stored, (∀ h, h ∈ stored ↔ h ∈ hashes ∧ ∃ b, (h, b) ∈ v.entries ∧ b.isReady = false) ∧
      v'.events = addEvent v.events v.backend stored false

/-- A store has failed: the listed blocks that are not ready are dropped, and their ids freed. -/
def Failed (hashes : List α) : Prop :=
  ∃ removed, v.entries.Perm (removed ++ v'.entries) ∧
    (∀ e ∈ removed, e.1 ∈ hashes ∧ e.2.isReady = false) ∧
    (∀ e ∈ v'.entries, e.1 ∈ hashes → e.2.isReady = true) ∧
    v'.backend = v.backend.freeAll removed ∧ v'.events = v.events

/-- Whether a block is ready to be read. -/
def isReady (hash : α) : Bool := v.entries.any fun e => e.1 = hash && e.2.isReady

instance (hashes : List α) : Decidable (v.MayLoad hashes) :=
  inferInstanceAs (Decidable (∀ e ∈ v.entries, _ → _))

variable {v v'}

omit [DecidableEq α] in
theorem Kept.counted (h : v.Kept v') : v.Counted v' := by
  obtain ⟨hsame, hbackend, hevents⟩ := h
  refine ⟨?_, hbackend, hevents⟩
  have hids := hsame.map fun t => (t.1, t.2.1)
  rw [List.map_map, List.map_map] at hids
  exact hids

omit [DecidableEq α] in
theorem Counted.trans {v'' : OffloadView α} (h : v.Counted v') (h' : v'.Counted v'') : v.Counted v'' :=
  ⟨h'.1.trans h.1, h'.2.1.trans h.2.1, h'.2.2.trans h.2.2⟩

/-- One load of a ready block is counted; the others still may be. -/
theorem MayLoad.addRef {hash : α} {hashes : List α} {block : CPUBlockStatus} (h : v.MayLoad (hash :: hashes))
    (hmem : (hash, block) ∈ v.entries) (hready : 0 ≤ block.refCnt)
    (hentries : ∀ e ∈ v'.entries, e = (hash, block.addRef) ∨ (e ∈ v.entries ∧ e.1 ≠ hash)) :
    block.addRef.refCnt = block.refCnt + 1 ∧ v'.MayLoad hashes := by
  have hone : block.refCnt + (hash :: hashes).count hash < 2 ^ 31 := h _ hmem List.mem_cons_self
  rw [List.count_cons_self] at hone
  have hcount := CPUBlockStatus.refCnt_addRef hready (by omega)
  refine ⟨hcount, fun e he hlisted => ?_⟩
  rcases hentries e he with rfl | ⟨hold, hne⟩
  · show block.addRef.refCnt + hashes.count hash < 2 ^ 31
    omega
  · have hbound := h e hold (List.mem_cons_of_mem hash hlisted)
    rwa [List.count_cons_of_ne hne.symm] at hbound

/-- The listed blocks are marked as ready; `stored` are those that were not. -/
def Marked (v v' : OffloadView α) (hashes stored : List α) : Prop :=
  v'.entries.map signature = v.entries.map (fun e => (e.1, e.2.blockId, e.2.isReady || decide (e.1 ∈ hashes))) ∧
    v'.backend = v.backend ∧ v'.events = v.events ∧
    ∀ h, h ∈ stored ↔ h ∈ hashes ∧ ∃ b, (h, b) ∈ v.entries ∧ b.isReady = false

section

variable {v₁ : OffloadView α} {hash : α} {hashes stored : List α} {block : CPUBlockStatus}

theorem Marked.nil : v.Marked v [] [] := ⟨by simp [signature], rfl, rfl, by simp⟩

theorem Marked.skip (h : v.Marked v' hashes stored) (hready : ∀ b, (hash, b) ∈ v.entries → b.isReady = true) :
    v.Marked v' (hash :: hashes) stored := by
  obtain ⟨hentries, hbackend, hevents, hstored⟩ := h
  refine ⟨?_, hbackend, hevents, fun other => ?_⟩
  · rw [hentries]
    apply List.map_congr_left
    rintro ⟨k, b⟩ he
    by_cases hk : k = hash
    · subst hk
      simp [hready b he]
    · simp [hk]
  · rw [hstored, List.mem_cons]
    constructor
    · rintro ⟨hmem, hunready⟩
      exact ⟨.inr hmem, hunready⟩
    · rintro ⟨rfl | hmem, b, hb, hunready⟩
      · rw [hready b hb] at hunready
        cases hunready
      · exact ⟨hmem, b, hb, hunready⟩

theorem Marked.mark (h : v₁.Marked v' hashes stored) (hmem : (hash, block) ∈ v.entries)
    (hunready : block.isReady = false)
    (hset : ∀ {f g : α × CPUBlockStatus → α × Nat × Bool}, f (hash, { block with refCnt := 0 }) = g (hash, block) →
      (∀ e : α × CPUBlockStatus, e.1 ≠ hash → f e = g e) → v₁.entries.map f = v.entries.map g)
    (hothers : ∀ h b, h ≠ hash → ((h, b) ∈ v₁.entries ↔ (h, b) ∈ v.entries))
    (hbackend : v₁.backend = v.backend) (hevents : v₁.events = v.events) :
    v.Marked v' (hash :: hashes) (hash :: stored) := by
  obtain ⟨hentries, hbackend', hevents', hstored⟩ := h
  refine ⟨?_, hbackend'.trans hbackend, hevents'.trans hevents, fun other => ?_⟩
  · rw [hentries]
    exact hset (by simp [CPUBlockStatus.isReady]) fun e hne => by simp [hne]
  · rw [List.mem_cons, List.mem_cons, hstored]
    by_cases hk : other = hash
    · subst hk
      have hfound : ∃ b, (other, b) ∈ v.entries ∧ b.isReady = false := ⟨block, hmem, hunready⟩
      simp [hfound]
    · simp only [hk, false_or, hothers other _ hk]

omit [DecidableEq α] in
theorem Failed.nil : v.Failed v [] := ⟨[], .refl _, by simp, by simp, rfl, rfl⟩

omit [DecidableEq α] in
theorem Failed.skip (h : v.Failed v' hashes) (hready : ∀ b, (hash, b) ∈ v.entries → b.isReady = true) :
    v.Failed v' (hash :: hashes) := by
  obtain ⟨removed, hperm, hremoved, hkept, hrest⟩ := h
  refine ⟨removed, hperm, fun e he => ⟨List.mem_cons_of_mem _ (hremoved e he).1, (hremoved e he).2⟩, ?_, hrest⟩
  rintro ⟨k, b⟩ he hmem
  rcases List.mem_cons.mp hmem with rfl | hmem
  · exact hready b (hperm.mem_iff.mpr (List.mem_append_right _ he))
  · exact hkept _ he hmem

omit [DecidableEq α] in
theorem Failed.drop (h : v₁.Failed v' hashes) (hunready : block.isReady = false)
    (hpop : v.entries.Perm ((hash, block) :: v₁.entries)) (hgone : ∀ e ∈ v₁.entries, e.1 ≠ hash)
    (hbackend : v₁.backend = v.backend.free block) (hevents : v₁.events = v.events) : v.Failed v' (hash :: hashes) := by
  obtain ⟨removed, hperm, hremoved, hkept, hbackend', hevents'⟩ := h
  refine ⟨(hash, block) :: removed, hpop.trans (hperm.cons _), ?_, ?_, ?_, hevents'.trans hevents⟩
  · intro e he
    rcases List.mem_cons.mp he with rfl | he
    · exact ⟨List.mem_cons_self, hunready⟩
    · exact ⟨List.mem_cons_of_mem _ (hremoved e he).1, (hremoved e he).2⟩
  · intro e he hmem
    rcases List.mem_cons.mp hmem with hk | hmem
    · exact absurd hk (hgone e (hperm.mem_iff.mpr (List.mem_append_right _ he)))
    · exact hkept e he hmem
  · rw [hbackend', hbackend]
    rfl

end

theorem Prepared.toStore {hashes : List α} {out : PrepareStoreOutput α} (h : v.Prepared v' hashes out) :
    out.blockHashesToStore = hashes.filter (fun h => h ∉ v.entries.map Prod.fst) := by
  obtain ⟨_, _, _, _, -, -, -, hstore, -⟩ := h
  exact hstore

theorem Prepared.numBlocks {hashes : List α} {out : PrepareStoreOutput α}
    (h : v.Prepared v' hashes out) : v'.backend.numBlocks = v.backend.numBlocks := by
  obtain ⟨_, _, _, _, -, -, -, -, halloc, -⟩ := h
  rw [(CPUBackend.allocateBlocks_spec halloc).2.2.1, CPUBackend.numBlocks_freeAll]

theorem isReady_eq (hnodup : (v.entries.map Prod.fst).Nodup) {hash : α} {block : CPUBlockStatus}
    (h : (hash, block) ∈ v.entries) : v.isReady hash = block.isReady := by
  rw [isReady, Bool.eq_iff_iff, List.any_eq_true]
  constructor
  · rintro ⟨e, he, hboth⟩
    obtain ⟨hkey, hready⟩ := Bool.and_eq_true_iff.mp hboth
    have hsame := List.inj_on_of_nodup_map hnodup he h (of_decide_eq_true hkey)
    rw [hsame] at hready
    exact hready
  · intro hready
    exact ⟨(hash, block), h, by simp [hready]⟩

theorem isReady_eq_false {hash : α} (h : ∀ block, (hash, block) ∉ v.entries) : v.isReady hash = false := by
  rw [isReady, List.any_eq_false]
  intro e he
  have hne : e.1 ≠ hash := by
    rintro rfl
    exact h e.2 he
  simp [hne]

end OffloadView

/-- A manager does what its methods are for. `Ok` is the invariant of its data structure; loads keep
blocks ready where `MayLoad`, a failed store keeps the books where `MayFail`, and a store that cannot be
prepared changes nothing where `MayRefuse`. -/
structure OffloadingManager.Refines [DecidableEq α] {σ : Type} (m : OffloadingManager α σ)
    (view : σ → OffloadView α) (Ok : σ → Prop) (MayFail MayRefuse : σ → List α → Prop) : Prop where
  nodup : ∀ s, Ok s → ((view s).entries.map Prod.fst).Nodup
  lookup : ∀ s hs, Ok s → m.lookup s hs = (hs.takeWhile (view s).isReady).length
  touch : ∀ s hs, Ok s → Ok (m.touch s hs) ∧ (view s).Kept (view (m.touch s hs))
  prepareLoad : ∀ s hs ids s', Ok s → m.prepareLoad s hs = .ok (ids, s') →
    Ok s' ∧ (view s).Counted (view s') ∧ ((view s).MayLoad hs → (view s).Kept (view s'))
  completeLoad : ∀ s hs s', Ok s → m.completeLoad s hs = .ok s' → Ok s' ∧ (view s).Kept (view s')
  prepareStore : ∀ s hs r s', Ok s → m.prepareStore s hs = .ok (r, s') → Ok s' ∧
    match r with
    | none => (∃ removed, (view s).Evicted (view s') removed) ∧ (MayRefuse s hs → s' = s)
    | some out => (view s).Prepared (view s') hs out
  stored : ∀ s hs s', Ok s → m.completeStore s hs true = .ok s' →
    Ok s' ∧ (view s).Stored (view s') hs
  failed : ∀ s hs s', Ok s → MayFail s hs → m.completeStore s hs false = .ok s' →
    Ok s' ∧ (view s).Failed (view s') hs
  takeEvents : ∀ s, Ok s → Ok (m.takeEvents s).2 ∧
    (view (m.takeEvents s).2).entries = (view s).entries ∧
    (view (m.takeEvents s).2).backend = (view s).backend ∧
    (m.takeEvents s).1 = (view s).events.getD [] ∧
    (view (m.takeEvents s).2).events = (view s).events.map fun _ => []

end Yuan.Core
