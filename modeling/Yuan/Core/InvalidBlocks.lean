import Yuan.Core.QueuePartition

/-!
# Failed loads: who recomputes an invalid block

`_handle_invalid_blocks` makes two passes, over the waiting requests that load asynchronously and over
the running ones. In a pass, the first request that looks at an invalid block marks it and is rolled
back to before its first marked block; the requests behind it count on that.
-/

namespace Yuan.Core

namespace Scheduler

variable {β : Type} {cfg : SchedulerConfig β} {m : SingleTypeKVCacheManager}
variable {s s' : Scheduler β} {invalidBlockIds : List Nat} {id : Nat} {i b : Nat} {done before : List Nat}
  {acc : Scheduler β × InvalidBlocks} {r : Request (List β)} {c : InvalidScan}

/-! ## The scan over the blocks of a request -/

/-- What a scan marks, finds and remembers. -/
theorem scanBlocks_spec (invalidBlockIds : List Nat) (idx : Nat) (blocks : List Nat) (c : InvalidScan) :
    (∀ b, b ∈ (scanBlocks invalidBlockIds idx blocks c).markedInvalidBlockIds ↔
      b ∈ c.markedInvalidBlockIds ∨ b ∈ blocks ∧ b ∈ invalidBlockIds) ∧
    ((scanBlocks invalidBlockIds idx blocks c).isAffected = true ↔
      c.isAffected = true ∨ ∃ b ∈ blocks, b ∈ invalidBlockIds) := by
  induction blocks generalizing idx c with
  | nil => simp [scanBlocks]
  | cons blockId rest ih =>
    unfold scanBlocks
    split
    case isTrue hvalid =>
      obtain ⟨hmarked, haffected⟩ := ih (idx + 1) c
      constructor
      · intro b
        grind
      · rw [haffected]
        grind
    case isFalse hinvalid =>
      split
      case isTrue hshared =>
        obtain ⟨hmarked, haffected⟩ := ih (idx + 1) { c with isAffected := true }
        constructor
        · intro b
          grind
        · rw [haffected]
          grind
      case isFalse hfresh =>
        obtain ⟨hmarked, haffected⟩ := ih (idx + 1) {
          isAffected := true
          markedInvalidBlock := true
          markedInvalidBlockIds := blockId :: c.markedInvalidBlockIds
          firstInvalid := if c.markedInvalidBlock then c.firstInvalid else some idx }
        constructor
        · intro b
          grind
        · rw [haffected]
          grind

/-- Behind its first marked block, a scan does not move it. -/
theorem scanBlocks_firstInvalid_of_marked (idx : Nat) (blocks : List Nat) (h : c.markedInvalidBlock = true) :
    (scanBlocks invalidBlockIds idx blocks c).firstInvalid = c.firstInvalid := by
  induction blocks generalizing idx c with
  | nil => rfl
  | cons blockId rest ih =>
    unfold scanBlocks
    split
    case isTrue => exact ih (idx + 1) h
    case isFalse =>
      split
      case isTrue => exact ih (idx + 1) h
      case isFalse =>
        exact ih (idx + 1) rfl

/-- Whether a block is invalid, and not marked by a request before. -/
def isFresh (invalidBlockIds marked : List Nat) (b : Nat) : Bool :=
  decide (b ∈ invalidBlockIds) && decide (b ∉ marked)

/-- The first marked block is the first fresh one. -/
theorem scanBlocks_firstInvalid (invalidBlockIds : List Nat) (idx : Nat) (blocks : List Nat)
    (hnone : c.firstInvalid = none) (hunmarked : c.markedInvalidBlock = false) :
    (scanBlocks invalidBlockIds idx blocks c).firstInvalid =
      (blocks.findIdx? (isFresh invalidBlockIds c.markedInvalidBlockIds)).map (· + idx) := by
  induction blocks generalizing idx c with
  | nil => simp [scanBlocks, hnone]
  | cons blockId rest ih =>
    unfold scanBlocks
    rw [List.findIdx?_cons]
    split
    case isTrue hvalid =>
      rw [ih (idx + 1) hnone hunmarked]
      have hfresh : isFresh invalidBlockIds c.markedInvalidBlockIds blockId = false := by
        simp [isFresh, hvalid]
      rw [hfresh]
      simp [Nat.add_comm 1 idx]
    case isFalse hinvalid =>
      split
      case isTrue hshared =>
        have hfresh : isFresh invalidBlockIds c.markedInvalidBlockIds blockId = false := by
          simp [isFresh, hshared]
        have hrest := ih (idx + 1) (c := { c with isAffected := true }) hnone hunmarked
        rw [hrest, hfresh]
        simp [Nat.add_comm 1 idx]
      case isFalse hunshared =>
        have hfresh : isFresh invalidBlockIds c.markedInvalidBlockIds blockId = true := by
          simp only [not_not] at hinvalid
          simp [isFresh, hinvalid, hunshared]
        rw [scanBlocks_firstInvalid_of_marked (idx + 1) rest rfl, hfresh]
        simp [hunmarked]

/-! ## One pass -/

/-- The number of blocks of a request that may contain externally computed tokens. -/
def numExaminedBlocks (cfg : SchedulerConfig β) (m : SingleTypeKVCacheManager) (s : Scheduler β)
    (id : Nat) : Nat :=
  ((s.externallyComputed cfg id (s.kv.blocksOf (m.row id)).length + cfg.blockSize - 1) /
    cfg.blockSize).toNat

/-- The scan of a request comes across an invalid block `b` at index `i`. -/
structure Finds (cfg : SchedulerConfig β) (m : SingleTypeKVCacheManager) (invalidBlockIds : List Nat)
    (s : Scheduler β) (id i b : Nat) : Prop where
  block : (s.kv.blocksOf (m.row id))[i]? = some b
  examined : i < numExaminedBlocks cfg m s id
  invalid : b ∈ invalidBlockIds

/-- No request of `before` comes across the block. -/
def Unseen (cfg : SchedulerConfig β) (m : SingleTypeKVCacheManager) (invalidBlockIds : List Nat)
    (s : Scheduler β) (before : List Nat) (b : Nat) : Prop :=
  ∀ id ∈ before, ∀ i, ¬ Finds cfg m invalidBlockIds s id i b

/-- What a pass does to a request, if it visits `before` before it. -/
inductive Outcome (cfg : SchedulerConfig β) (m : SingleTypeKVCacheManager) (invalidBlockIds : List Nat)
    (s : Scheduler β) (before : List Nat) (id : Nat) (r : Request (List β)) : Prop where
  | unaffected (hnone : ∀ i b, ¬ Finds cfg m invalidBlockIds s id i b) (heq : r = s.request id)
  | rolledBack (i b : Nat) (hfinds : Finds cfg m invalidBlockIds s id i b)
      (hunseen : Unseen cfg m invalidBlockIds s before b)
      (hfirst : ∀ j < i, ∀ b', Finds cfg m invalidBlockIds s id j b' →
        ¬ Unseen cfg m invalidBlockIds s before b')
      (heq : r = { s.request id with
        numComputedTokens := i * cfg.blockSize
        numExternalComputedTokens := (s.request id).numExternalComputedTokens -
          (s.externallyComputed cfg id (s.kv.blocksOf (m.row id)).length - i * cfg.blockSize) })
  | shares (hsome : ∃ i b, Finds cfg m invalidBlockIds s id i b)
      (hseen : ∀ i b, Finds cfg m invalidBlockIds s id i b →
        ¬ Unseen cfg m invalidBlockIds s before b)
      (heq : r = { s.request id with numComputedTokens := (s.request id).numCachedTokens })

/-- A pass that has visited `done`. -/
structure Pass (cfg : SchedulerConfig β) (m : SingleTypeKVCacheManager) (invalidBlockIds : List Nat)
    (s : Scheduler β) (done : List Nat) (acc : Scheduler β × InvalidBlocks) : Prop where
  same : acc.1 = { s with request := acc.1.request }
  marked : ∀ b, b ∈ acc.2.markedInvalidBlockIds ↔ ¬ Unseen cfg m invalidBlockIds s done b
  affected : ∀ id, id ∈ acc.2.affectedReqIds ↔ id ∈ done ∧ ∃ i b, Finds cfg m invalidBlockIds s id i b
  visited : ∀ k id, done[k]? = some id →
    Outcome cfg m invalidBlockIds s (done.take k) id (acc.1.request id)
  others : ∀ id, id ∉ done → acc.1.request id = s.request id

theorem Pass.start (cfg : SchedulerConfig β) (m : SingleTypeKVCacheManager)
    (invalidBlockIds : List Nat) (s : Scheduler β) : Pass cfg m invalidBlockIds s [] (s, {}) where
  same := rfl
  marked b := by simp [Unseen]
  affected id := by simp
  visited k id h := by simp at h
  others _ _ := rfl

theorem finds_iff_getElem? :
    Finds cfg m invalidBlockIds s id i b ↔
      ((s.kv.blocksOf (m.row id)).take (numExaminedBlocks cfg m s id))[i]? = some b ∧ b ∈ invalidBlockIds := by
  rw [List.getElem?_take]
  constructor
  · intro h
    rw [if_pos h.examined]
    exact ⟨h.block, h.invalid⟩
  · rintro ⟨h, hb⟩
    split at h
    case isTrue hi => exact ⟨h, hi, hb⟩
    case isFalse => cases h

theorem exists_finds_iff :
    (∃ i, Finds cfg m invalidBlockIds s id i b) ↔
      b ∈ (s.kv.blocksOf (m.row id)).take (numExaminedBlocks cfg m s id) ∧ b ∈ invalidBlockIds := by
  simp only [finds_iff_getElem?, List.mem_iff_getElem?]
  constructor
  · rintro ⟨i, hi, hb⟩
    exact ⟨⟨i, hi⟩, hb⟩
  · rintro ⟨⟨i, hi⟩, hb⟩
    exact ⟨i, hi, hb⟩

theorem unseen_append :
    Unseen cfg m invalidBlockIds s (done ++ [id]) b ↔
      Unseen cfg m invalidBlockIds s done b ∧ ∀ i, ¬ Finds cfg m invalidBlockIds s id i b := by
  unfold Unseen
  grind

/-- What the scan of a request gives, in terms of the requests before it. -/
structure Scanned (cfg : SchedulerConfig β) (m : SingleTypeKVCacheManager) (invalidBlockIds : List Nat)
    (s : Scheduler β) (done : List Nat) (id : Nat) (c : InvalidScan) : Prop where
  marked : ∀ b, b ∈ c.markedInvalidBlockIds ↔ ¬ Unseen cfg m invalidBlockIds s (done ++ [id]) b
  affected : c.isAffected = true ↔ ∃ i b, Finds cfg m invalidBlockIds s id i b
  some : ∀ i, c.firstInvalid = some i → ∃ b, Finds cfg m invalidBlockIds s id i b ∧
    Unseen cfg m invalidBlockIds s done b ∧
    ∀ j < i, ∀ b', Finds cfg m invalidBlockIds s id j b' → ¬ Unseen cfg m invalidBlockIds s done b'
  none : c.firstInvalid = none → ∀ i b, Finds cfg m invalidBlockIds s id i b →
    ¬ Unseen cfg m invalidBlockIds s done b

theorem scanned {marked : List Nat} (hmarked : ∀ b, b ∈ marked ↔ ¬ Unseen cfg m invalidBlockIds s done b) (id : Nat) :
    Scanned cfg m invalidBlockIds s done id (scanBlocks invalidBlockIds 0
      ((s.kv.blocksOf (m.row id)).take (numExaminedBlocks cfg m s id)) { markedInvalidBlockIds := marked }) := by
  obtain ⟨hscan, haffected⟩ := scanBlocks_spec invalidBlockIds 0
    ((s.kv.blocksOf (m.row id)).take (numExaminedBlocks cfg m s id)) { markedInvalidBlockIds := marked }
  have hfirst := scanBlocks_firstInvalid invalidBlockIds 0
    ((s.kv.blocksOf (m.row id)).take (numExaminedBlocks cfg m s id))
    (c := { markedInvalidBlockIds := marked }) rfl rfl
  simp only [Nat.add_zero, Option.map_id'] at hfirst
  have hfresh : ∀ b, isFresh invalidBlockIds marked b = true ↔
      b ∈ invalidBlockIds ∧ Unseen cfg m invalidBlockIds s done b := by
    intro b
    unfold isFresh
    rw [Bool.and_eq_true, decide_eq_true_eq, decide_eq_true_eq, hmarked, not_not]
  constructor
  case marked =>
    intro b
    rw [hscan, unseen_append, ← exists_finds_iff]
    grind
  case affected =>
    rw [haffected]
    constructor
    · rintro (h | ⟨b, hb, hinvalid⟩)
      · cases h
      · obtain ⟨i, hi⟩ := exists_finds_iff.mpr ⟨hb, hinvalid⟩
        exact ⟨i, b, hi⟩
    · rintro ⟨i, b, hi⟩
      obtain ⟨hb, hinvalid⟩ := exists_finds_iff.mp ⟨i, hi⟩
      exact .inr ⟨b, hb, hinvalid⟩
  case some =>
    intro i hi
    rw [hfirst, List.findIdx?_eq_some_iff_getElem] at hi
    obtain ⟨hlt, hb, hbefore⟩ := hi
    rw [hfresh] at hb
    refine ⟨_, finds_iff_getElem?.mpr ⟨List.getElem?_eq_getElem hlt, hb.1⟩, hb.2, ?_⟩
    intro j hj b' hb' hunseen
    obtain ⟨hget, hinvalid⟩ := finds_iff_getElem?.mp hb'
    obtain ⟨hlen, rfl⟩ := List.getElem?_eq_some_iff.mp hget
    exact hbefore j hj ((hfresh _).mpr ⟨hinvalid, hunseen⟩)
  case none =>
    intro hnone i b hb hunseen
    rw [hfirst, List.findIdx?_eq_none_iff] at hnone
    obtain ⟨hmem, hinvalid⟩ := exists_finds_iff.mp ⟨i, hb⟩
    have hb' := (hfresh b).mpr ⟨hinvalid, hunseen⟩
    rw [hnone b hmem] at hb'
    cases hb'

/-- Visiting a request changes that request only, if any. -/
theorem Pass.extend {affectedReqIds : List Nat} (h : Pass cfg m invalidBlockIds s done acc) (blocksToEvict : List Nat)
    (hid : id ∉ done) (hscanned : Scanned cfg m invalidBlockIds s done id c)
    (houtcome : Outcome cfg m invalidBlockIds s done id r) (haffected : affectedReqIds =
      if c.isAffected then acc.2.affectedReqIds.insert id else acc.2.affectedReqIds) :
    Pass cfg m invalidBlockIds s (done ++ [id]) (acc.1.modify id fun _ => r,
      { affectedReqIds, blocksToEvict, markedInvalidBlockIds := c.markedInvalidBlockIds }) where
  same := by
    rw [h.same]
    rfl
  marked := hscanned.marked
  affected x := by
    subst haffected
    have hx := h.affected x
    split
    case isTrue hc =>
      have hfound := hscanned.affected.mp hc
      grind
    case isFalse hc =>
      have hfound : ¬ ∃ i b, Finds cfg m invalidBlockIds s id i b := fun h => hc (hscanned.affected.mpr h)
      grind
  visited k x hx := by
    rw [List.getElem?_append] at hx
    split at hx
    case isTrue hk =>
      have hne : x ≠ id := by
        rintro rfl
        exact hid (List.mem_of_getElem? hx)
      rw [List.take_append_of_le_length hk.le, modify_request_of_ne _ hne]
      exact h.visited k x hx
    case isFalse hk =>
      obtain ⟨hk', rfl⟩ : k = done.length ∧ x = id := by
        rw [List.getElem?_singleton] at hx
        split at hx <;> grind
      rw [hk', List.take_left, modify_request_self]
      exact houtcome
  others x hx := by
    rw [List.mem_append, List.mem_singleton, not_or] at hx
    rw [modify_request_of_ne _ hx.2]
    exact h.others x hx.1

/-- A pass visits one more request. -/
theorem Pass.step (hm : cfg.managers = [m]) (h : Pass cfg m invalidBlockIds s done acc) (hid : id ∉ done)
    (evictBlocks : Bool) :
    ∃ acc', updateRequestWithInvalidBlocks cfg invalidBlockIds evictBlocks acc id = .ok acc' ∧
      Pass cfg m invalidBlockIds s (done ++ [id]) acc' := by
  have hreq : acc.1.request id = s.request id := h.others id hid
  have hkv : acc.1.kv = s.kv := by rw [h.same]
  have hfailed : acc.1.failedRecvingKvReqIds = s.failedRecvingKvReqIds := by rw [h.same]
  have hsole : acc.1.soleBlockIds cfg id = .ok (s.kv.blocksOf (m.row id)) := by
    unfold soleBlockIds
    rw [hm, hkv]
  have hexternal : acc.1.externallyComputed cfg id (s.kv.blocksOf (m.row id)).length =
      s.externallyComputed cfg id (s.kv.blocksOf (m.row id)).length := by
    unfold externallyComputed
    rw [hreq, hfailed]
  have hscanned := scanned h.marked id
  unfold numExaminedBlocks at hscanned
  unfold updateRequestWithInvalidBlocks
  dsimp only
  rw [hsole]
  dsimp only [bind, Except.bind]
  rw [hexternal]
  generalize scanBlocks _ _ _ _ = c at hscanned ⊢
  cases hc : c.firstInvalid with
  | some i =>
    obtain ⟨b, hfinds, hunseen, hfirst⟩ := hscanned.some i hc
    refine ⟨_, rfl, ?_⟩
    exact h.extend (r := { acc.1.request id with
      numComputedTokens := i * cfg.blockSize
      numExternalComputedTokens := (acc.1.request id).numExternalComputedTokens -
        (s.externallyComputed cfg id (s.kv.blocksOf (m.row id)).length - i * cfg.blockSize) }) _
      hid hscanned (.rolledBack i b hfinds hunseen hfirst (by rw [hreq])) rfl
  | none =>
    have hnone := hscanned.none hc
    dsimp only
    split
    case isTrue haffected =>
      refine ⟨_, rfl, ?_⟩
      exact h.extend (r := { acc.1.request id with
        numComputedTokens := (acc.1.request id).numCachedTokens }) _
        hid hscanned (.shares (hscanned.affected.mp haffected) hnone (by rw [hreq])) (by rw [if_pos haffected])
    case isFalse haffected =>
      have hunfound : ∀ i b, ¬ Finds cfg m invalidBlockIds s id i b :=
        fun i b hfinds => haffected (hscanned.affected.mpr ⟨i, b, hfinds⟩)
      have hextend := h.extend acc.2.blocksToEvict hid hscanned
        (.unaffected hunfound rfl) rfl
      rw [if_neg haffected, ← hreq] at hextend
      have hself : (acc.1.modify id fun _ => acc.1.request id) = acc.1 := by
        unfold modify
        rw [Function.update_eq_self]
      rw [hself] at hextend
      exact ⟨_, rfl, hextend⟩

/-- A whole pass. -/
theorem Pass.run (hm : cfg.managers = [m]) (h : Pass cfg m invalidBlockIds s done acc) (ids : List Nat)
    (hnodup : (done ++ ids).Nodup) (evictBlocks : Bool) :
    ∃ acc', ids.foldlM (updateRequestWithInvalidBlocks cfg invalidBlockIds evictBlocks) acc = .ok acc' ∧
      Pass cfg m invalidBlockIds s (done ++ ids) acc' := by
  induction ids generalizing done acc with
  | nil =>
    rw [List.append_nil]
    exact ⟨acc, rfl, h⟩
  | cons id ids ih =>
    have hid : id ∉ done := by
      intro hmem
      exact List.disjoint_of_nodup_append hnodup hmem (List.mem_cons_self ..)
    obtain ⟨acc', hstep, h'⟩ := h.step hm hid evictBlocks
    rw [List.append_cons] at hnodup ⊢
    obtain ⟨acc'', hrun, h''⟩ := ih h' hnodup
    refine ⟨acc'', ?_, h''⟩
    rw [List.foldlM_cons, hstep]
    exact hrun

/-! ## What the requests can rely on -/

theorem blockSize_pos (hm : cfg.managers = [m]) : 0 < cfg.blockSize := by
  unfold SchedulerConfig.managers KVCacheManager.singleTypeManagers at hm
  have hgroups : cfg.kvCacheManager.kvCacheGroups ≠ [] := by
    intro hnil
    rw [hnil] at hm
    cases hm
  obtain ⟨spec, hspec⟩ := List.exists_mem_of_ne_nil _ hgroups
  obtain ⟨hpos, hdvd, -⟩ := cfg.kvCacheManager.attention spec hspec
  exact Nat.pos_of_dvd_of_pos hdvd hpos

/-- If a block was seen, some request came across it first. -/
theorem exists_first_of_seen (h : ¬ Unseen cfg m invalidBlockIds s before b) :
    ∃ k id, before[k]? = some id ∧ (∃ j, Finds cfg m invalidBlockIds s id j b) ∧
      Unseen cfg m invalidBlockIds s (before.take k) b := by
  induction before using List.reverseRecOn with
  | nil => exact absurd (fun id hid => by cases hid) h
  | append_singleton before id ih =>
    by_cases hseen : Unseen cfg m invalidBlockIds s before b
    case pos =>
      have hfinds : ∃ j, Finds cfg m invalidBlockIds s id j b := by
        by_contra hnone
        exact h (unseen_append.mpr ⟨hseen, not_exists.mp hnone⟩)
      refine ⟨before.length, id, by simp, hfinds, ?_⟩
      rw [List.take_left]
      exact hseen
    case neg =>
      obtain ⟨k, id₀, hk, hfinds, hunseen⟩ := ih hseen
      have hlt : k < before.length := (List.getElem?_eq_some_iff.mp hk).1
      refine ⟨k, id₀, ?_, hfinds, ?_⟩
      · rw [List.getElem?_append_left hlt]
        exact hk
      · rw [List.take_append_of_le_length hlt.le]
        exact hunseen

/-- The first request that comes across a block is rolled back to before it. -/
theorem Outcome.le_of_unseen (h : Outcome cfg m invalidBlockIds s before id r)
    (hfinds : Finds cfg m invalidBlockIds s id i b) (hunseen : Unseen cfg m invalidBlockIds s before b) :
    r.numComputedTokens ≤ i * cfg.blockSize := by
  cases h with
  | unaffected hnone _ => exact absurd hfinds (hnone i b)
  | rolledBack i₀ _ _ _ hfirst heq =>
    have hle : i₀ ≤ i := by
      by_contra hlt
      exact hfirst i (not_le.mp hlt) b hfinds hunseen
    rw [heq]
    exact Int.mul_le_mul_of_nonneg_right (by exact_mod_cast hle) (by positivity)
  | shares _ hseen _ => exact absurd hunseen (hseen i b hfinds)

/-- What stays computed was seen before. -/
theorem Outcome.seen_of_lt (h : Outcome cfg m invalidBlockIds s before id r)
    (hfinds : Finds cfg m invalidBlockIds s id i b) (hlt : i * cfg.blockSize < r.numComputedTokens) :
    ¬ Unseen cfg m invalidBlockIds s before b := by
  intro hunseen
  have hle := h.le_of_unseen hfinds hunseen
  omega

/-- A block of a running request is examined if its tokens count as cached. -/
theorem lt_numExaminedBlocks (hm : cfg.managers = [m]) (hlt : i * cfg.blockSize <
      s.externallyComputed cfg id (s.kv.blocksOf (m.row id)).length) : i < numExaminedBlocks cfg m s id := by
  have hpos := blockSize_pos hm
  unfold numExaminedBlocks
  generalize s.externallyComputed cfg id (s.kv.blocksOf (m.row id)).length = n at hlt ⊢
  have hle : ((i : Int) + 1) * cfg.blockSize ≤ n + cfg.blockSize - 1 := by
    rw [add_mul]
    omega
  have hdiv := (Int.le_ediv_iff_mul_le (by exact_mod_cast hpos)).mpr hle
  omega

/-- The tokens before an examined block count as cached, for a running request. -/
theorem lt_of_lt_numExaminedBlocks (hm : cfg.managers = [m]) (hlt : i < numExaminedBlocks cfg m s id) :
    i * cfg.blockSize < s.externallyComputed cfg id (s.kv.blocksOf (m.row id)).length := by
  have hpos := blockSize_pos hm
  unfold numExaminedBlocks at hlt
  generalize s.externallyComputed cfg id (s.kv.blocksOf (m.row id)).length = n at hlt ⊢
  have hle : (i : Int) + 1 ≤ (n + cfg.blockSize - 1) / cfg.blockSize := by omega
  have hmul := (Int.le_ediv_iff_mul_le (by exact_mod_cast hpos)).mp hle
  rw [add_mul] at hmul
  omega

/-- A request behind the call, if its pass visits `before` before it. -/
structure Recomputes (cfg : SchedulerConfig β) (m : SingleTypeKVCacheManager)
    (invalidBlockIds : List Nat) (s s' : Scheduler β) (before : List Nat) (id : Nat) : Prop where
  unaffected : (∀ i b, ¬ Finds cfg m invalidBlockIds s id i b) → s'.request id = s.request id
  /-- What an affected request counts as computed is recomputed by a request before it. -/
  covers : ∀ i b, Finds cfg m invalidBlockIds s id i b →
    i * cfg.blockSize < (s'.request id).numComputedTokens →
    ∃ id₀ ∈ before, ∃ j, Finds cfg m invalidBlockIds s id₀ j b ∧
      (s'.request id₀).numComputedTokens ≤ j * cfg.blockSize
  /-- All that it counts as computed was examined. -/
  within : (∃ i b, Finds cfg m invalidBlockIds s id i b) →
    ((s.request id).status = .waitingForRemoteKvs → id ∉ s.failedRecvingKvReqIds) →
    ∀ i < (s.kv.blocksOf (m.row id)).length,
      i * cfg.blockSize < (s'.request id).numComputedTokens → i < numExaminedBlocks cfg m s id
  first : ∀ i b, Finds cfg m invalidBlockIds s id i b → Unseen cfg m invalidBlockIds s before b →
    (s'.request id).numComputedTokens ≤ i * cfg.blockSize
  /-- A running request recomputes a block because of a block it came across first. -/
  again : (s.request id).status ≠ .waitingForRemoteKvs →
    ∀ i b, Finds cfg m invalidBlockIds s id i b →
      (s'.request id).numComputedTokens ≤ i * cfg.blockSize →
      ∃ j ≤ i, ∃ b', Finds cfg m invalidBlockIds s id j b' ∧ Unseen cfg m invalidBlockIds s before b'

theorem Outcome.within (hm : cfg.managers = [m]) (h : Outcome cfg m invalidBlockIds s before id r)
    (haffected : ∃ i b, Finds cfg m invalidBlockIds s id i b)
    (hload : (s.request id).status = .waitingForRemoteKvs → id ∉ s.failedRecvingKvReqIds)
    (hi : i < (s.kv.blocksOf (m.row id)).length) (hlt : i * cfg.blockSize < r.numComputedTokens) :
    i < numExaminedBlocks cfg m s id := by
  cases h with
  | unaffected hnone _ =>
    obtain ⟨j, b, hfinds⟩ := haffected
    exact absurd hfinds (hnone j b)
  | rolledBack i₀ b hfinds _ _ heq =>
    rw [heq] at hlt
    have hi₀ : i < i₀ := by
      by_contra hle
      have := Int.mul_le_mul_of_nonneg_right (c := (cfg.blockSize : Int))
        (show (i₀ : Int) ≤ i by exact_mod_cast not_lt.mp hle) (by positivity)
      exact absurd hlt (not_lt.mpr this)
    exact hi₀.trans hfinds.examined
  | shares _ _ heq =>
    rw [heq] at hlt
    apply lt_numExaminedBlocks hm
    unfold externallyComputed
    dsimp only
    split
    case isTrue hstatus =>
      rw [if_neg (hload hstatus)]
      have hpos := blockSize_pos hm
      exact Int.mul_lt_mul_of_pos_right (by exact_mod_cast hi) (by exact_mod_cast hpos)
    case isFalse => exact hlt

theorem Outcome.again (hm : cfg.managers = [m]) (h : Outcome cfg m invalidBlockIds s before id r)
    (hstatus : (s.request id).status ≠ .waitingForRemoteKvs) (hfinds : Finds cfg m invalidBlockIds s id i b)
    (hle : r.numComputedTokens ≤ i * cfg.blockSize) :
    ∃ j ≤ i, ∃ b', Finds cfg m invalidBlockIds s id j b' ∧ Unseen cfg m invalidBlockIds s before b' := by
  cases h with
  | unaffected hnone _ => exact absurd hfinds (hnone i b)
  | rolledBack i₀ b₀ hfinds₀ hunseen _ heq =>
    rw [heq] at hle
    have hpos : (0 : Int) < cfg.blockSize := by exact_mod_cast blockSize_pos hm
    have hi₀ : (i₀ : Int) ≤ i := Int.le_of_mul_le_mul_right hle hpos
    exact ⟨i₀, by exact_mod_cast hi₀, b₀, hfinds₀, hunseen⟩
  | shares _ _ heq =>
    have hlt := lt_of_lt_numExaminedBlocks hm hfinds.examined
    unfold externallyComputed at hlt
    rw [if_neg hstatus] at hlt
    rw [heq] at hle
    exact absurd hlt (not_lt.mpr hle)

/-- What the outcomes of a whole pass mean for its requests. -/
theorem recomputes_of_outcomes (hm : cfg.managers = [m]) {ids : List Nat}
    (h : ∀ k id, ids[k]? = some id →
      Outcome cfg m invalidBlockIds s (ids.take k) id (s'.request id)) {k : Nat}
    (hk : ids[k]? = some id) : Recomputes cfg m invalidBlockIds s s' (ids.take k) id where
  unaffected hnone := by
    cases h k id hk with
    | unaffected _ heq => exact heq
    | rolledBack i b hfinds _ _ _ => exact absurd hfinds (hnone i b)
    | shares hsome _ _ =>
      obtain ⟨i, b, hfinds⟩ := hsome
      exact absurd hfinds (hnone i b)
  covers i b hfinds hlt := by
    obtain ⟨k₀, id₀, hk₀, ⟨j, hj⟩, hunseen⟩ :=
      exists_first_of_seen ((h k id hk).seen_of_lt hfinds hlt)
    refine ⟨id₀, List.mem_of_getElem? hk₀, j, hj, ?_⟩
    rw [List.getElem?_take] at hk₀
    split at hk₀
    case isTrue hlt₀ =>
      rw [List.take_take, min_eq_left hlt₀.le] at hunseen
      exact (h k₀ id₀ hk₀).le_of_unseen hj hunseen
    case isFalse => cases hk₀
  within haffected hload i hi hlt := (h k id hk).within hm haffected hload hi hlt
  first i b hfinds hunseen := (h k id hk).le_of_unseen hfinds hunseen
  again hstatus i b hfinds hle := (h k id hk).again hm hstatus hfinds hle

theorem finds_congr {t : Scheduler β} (hkv : t.kv = s.kv) (hfailed : t.failedRecvingKvReqIds = s.failedRecvingKvReqIds)
    (hreq : t.request id = s.request id) :
    Finds cfg m invalidBlockIds t id i b ↔ Finds cfg m invalidBlockIds s id i b := by
  have hexamined : numExaminedBlocks cfg m t id = numExaminedBlocks cfg m s id := by
    unfold numExaminedBlocks externallyComputed
    rw [hkv, hfailed, hreq]
  constructor
  · rintro ⟨hblock, hlt, hinvalid⟩
    exact ⟨hkv ▸ hblock, hexamined ▸ hlt, hinvalid⟩
  · rintro ⟨hblock, hlt, hinvalid⟩
    exact ⟨hkv ▸ hblock, hexamined ▸ hlt, hinvalid⟩

/-- A pass looks at nothing but the requests it visits. -/
theorem Outcome.congr {t : Scheduler β} (hkv : t.kv = s.kv)
    (hfailed : t.failedRecvingKvReqIds = s.failedRecvingKvReqIds) (hreq : t.request id = s.request id)
    (hbefore : ∀ x ∈ before, t.request x = s.request x) (h : Outcome cfg m invalidBlockIds t before id r) :
    Outcome cfg m invalidBlockIds s before id r := by
  have hfinds : ∀ i b, Finds cfg m invalidBlockIds t id i b ↔ Finds cfg m invalidBlockIds s id i b :=
    fun i b => finds_congr hkv hfailed hreq
  have hunseen : ∀ b, Unseen cfg m invalidBlockIds t before b ↔
      Unseen cfg m invalidBlockIds s before b := by
    intro b
    apply forall₂_congr
    intro x hx
    exact forall_congr' fun i => not_congr (finds_congr hkv hfailed (hbefore x hx))
  have hexternal : t.externallyComputed cfg id (t.kv.blocksOf (m.row id)).length =
      s.externallyComputed cfg id (s.kv.blocksOf (m.row id)).length := by
    unfold externallyComputed
    rw [hkv, hfailed, hreq]
  cases h with
  | unaffected hnone heq =>
    exact .unaffected (fun i b h => hnone i b ((hfinds i b).mpr h)) (by rw [heq, hreq])
  | rolledBack i b h hfresh hfirst heq =>
    refine .rolledBack i b ((hfinds i b).mp h) ((hunseen b).mp hfresh) ?_ ?_
    · intro j hj b' hb' hfresh'
      exact hfirst j hj b' ((hfinds j b').mpr hb') ((hunseen b').mpr hfresh')
    · rw [heq, hreq, hexternal]
  | shares hsome hseen heq =>
    obtain ⟨i, b, h⟩ := hsome
    refine .shares ⟨i, b, (hfinds i b).mp h⟩ ?_ (by rw [heq, hreq])
    intro j b' hb' hfresh'
    exact hseen j b' ((hfinds j b').mpr hb') ((hunseen b').mpr hfresh')

/-- The requests that load asynchronously, in the order in which they are visited. -/
def asyncLoadReqs (cfg : SchedulerConfig β) (s : Scheduler β) : List Nat :=
  (RequestQueue.iter cfg.policy s.requestLt s.waiting).filter fun id =>
    (s.request id).status = .waitingForRemoteKvs

/-- Running requests that come across a block come across the same invalid blocks before it. -/
def SharesPrefix (cfg : SchedulerConfig β) (m : SingleTypeKVCacheManager) (invalidBlockIds : List Nat)
    (s : Scheduler β) (b : Nat) : Prop :=
  ∀ id ∈ s.running, ∀ id' ∈ s.running, ∀ i i', Finds cfg m invalidBlockIds s id i b →
    Finds cfg m invalidBlockIds s id' i' b → ∀ j ≤ i, ∀ b', Finds cfg m invalidBlockIds s id j b' →
      ∃ j', Finds cfg m invalidBlockIds s id' j' b'

/-- If the requests share everything before an invalid block, one of them recomputes it. -/
theorem existsUnique_recomputes (hstatus : ∀ id ∈ s.running, (s.request id).status ≠ .waitingForRemoteKvs)
    (h : ∀ k id, s.running[k]? = some id →
      Recomputes cfg m invalidBlockIds s s' (s.running.take k) id) (hshares : SharesPrefix cfg m invalidBlockIds s b)
    (hfinds : ∃ id ∈ s.running, ∃ i, Finds cfg m invalidBlockIds s id i b) :
    ∃! id, id ∈ s.running ∧ ∃ i, Finds cfg m invalidBlockIds s id i b ∧
      (s'.request id).numComputedTokens ≤ i * cfg.blockSize := by
  have hseen : ¬ Unseen cfg m invalidBlockIds s s.running b := by
    obtain ⟨id, hid, i, hi⟩ := hfinds
    exact fun hunseen => hunseen id hid i hi
  obtain ⟨k, id, hk, ⟨i, hi⟩, hunseen⟩ := exists_first_of_seen hseen
  have hid := List.mem_of_getElem? hk
  refine ⟨id, ⟨hid, i, hi, (h k id hk).first i b hi hunseen⟩, ?_⟩
  rintro id' ⟨hid', i', hi', hle'⟩
  obtain ⟨k', hk'⟩ := List.mem_iff_getElem?.mp hid'
  obtain ⟨j, hj, b', hb', hunseen'⟩ := (h k' id' hk').again (hstatus id' hid') i' b hi' hle'
  -- the first request comes across the block too
  obtain ⟨j', hj'⟩ := hshares id' hid' id hid i' i hi' hi j hj b' hb'
  rcases lt_trichotomy k k' with hlt | heq | hgt
  · have hmem : id ∈ s.running.take k' := by
      apply List.mem_of_getElem? (i := k)
      rw [List.getElem?_take, if_pos hlt]
      exact hk
    exact absurd hj' (hunseen' id hmem j')
  · subst heq
    rw [hk] at hk'
    exact (Option.some.inj hk').symm
  · have hmem : id' ∈ s.running.take k := by
      apply List.mem_of_getElem? (i := k')
      rw [List.getElem?_take, if_pos hgt]
      exact hk'
    exact absurd hi' (hunseen id' hmem i')

/-- The requests after `_handle_invalid_blocks`, if failed loads are recomputed. -/
theorem handleInvalidBlocks_recomputes [DecidableEq β] (cfg : SchedulerConfig β) (s : Scheduler β)
    (invalidBlockIds : List Nat) (hm : cfg.managers = [m]) (hrecompute : cfg.recomputeKvLoadFailures = true)
    (hwaiting : s.waiting.Nodup) (hrunning : s.running.Nodup)
    (hstatus : ∀ id ∈ s.running, (s.request id).status ≠ .waitingForRemoteKvs) :
    ∃ skipped s', s.handleInvalidBlocks cfg invalidBlockIds = .ok (skipped, s') ∧ s'.kv = s.kv ∧
      (∀ id, id ∈ skipped ↔ id ∈ s.running ∧ ∃ i b, Finds cfg m invalidBlockIds s id i b) ∧
      (∀ id, id ∉ s.asyncLoadReqs cfg → id ∉ s.running → s'.request id = s.request id) ∧
      (∀ pass ∈ [s.asyncLoadReqs cfg, s.running], ∀ k id, pass[k]? = some id →
        Recomputes cfg m invalidBlockIds s s' (pass.take k) id) ∧ (∀ b, SharesPrefix cfg m invalidBlockIds s b →
        (∃ id ∈ s.running, ∃ i, Finds cfg m invalidBlockIds s id i b) →
        ∃! id, id ∈ s.running ∧ ∃ i, Finds cfg m invalidBlockIds s id i b ∧
          (s'.request id).numComputedTokens ≤ i * cfg.blockSize) := by
  have hnodup : (s.asyncLoadReqs cfg).Nodup :=
    (RequestQueue.iter_perm.nodup_iff.mpr hwaiting).filter _
  obtain ⟨⟨s₁, async⟩, hrun₁, hpass₁⟩ :=
    (Pass.start cfg m invalidBlockIds s).run hm (s.asyncLoadReqs cfg) hnodup false
  obtain ⟨⟨s₂, sync⟩, hrun₂, hpass₂⟩ :=
    (Pass.start cfg m invalidBlockIds s₁).run hm s.running hrunning true
  have hdisjoint : ∀ id ∈ s.running, id ∉ s.asyncLoadReqs cfg := by
    intro id hid hmem
    have hload := (List.mem_filter.mp hmem).2
    exact hstatus id hid (of_decide_eq_true hload)
  have hsame₁ : ∀ id ∈ s.running, s₁.request id = s.request id :=
    fun id hid => hpass₁.others id (hdisjoint id hid)
  have hkv₁ : s₁.kv = s.kv := by rw [show s₁ = _ from hpass₁.same]
  have hfailed₁ : s₁.failedRecvingKvReqIds = s.failedRecvingKvReqIds := by
    rw [show s₁ = _ from hpass₁.same]
  have hrunning₁ : s₁.running = s.running := by rw [show s₁ = _ from hpass₁.same]
  have hkv₂ : s₂.kv = s.kv := by
    rw [← hkv₁, show s₂ = _ from hpass₂.same]
  obtain ⟨s', hrun, hreq, hkv⟩ : ∃ s', s.handleInvalidBlocks cfg invalidBlockIds =
      .ok (sync.affectedReqIds, s') ∧ s'.request = s₂.request ∧ s'.kv = s.kv := by
    unfold handleInvalidBlocks
    unfold asyncLoadReqs at hrun₁
    dsimp only
    rw [hrun₁]
    dsimp only [bind, Except.bind]
    rw [hrunning₁, hrun₂]
    dsimp only
    split
    case isTrue hnone => exact ⟨s₂, by rw [hnone.2]; rfl, rfl, hkv₂⟩
    case isFalse => exact ⟨_, rfl, rfl, hkv₂⟩
  -- the second pass leaves the requests of the first alone
  have hasync : ∀ k id, (s.asyncLoadReqs cfg)[k]? = some id →
      Recomputes cfg m invalidBlockIds s s' ((s.asyncLoadReqs cfg).take k) id := by
    intro k id hk
    refine recomputes_of_outcomes hm ?_ hk
    intro k id hk
    have hid : id ∉ s.running := fun hmem => hdisjoint id hmem (List.mem_of_getElem? hk)
    have houtcome := hpass₁.visited k id hk
    rw [← show s₂.request id = s₁.request id from hpass₂.others id hid, ← hreq] at houtcome
    exact houtcome
  have hsync : ∀ k id, s.running[k]? = some id →
      Recomputes cfg m invalidBlockIds s s' (s.running.take k) id := by
    intro k id hk
    refine recomputes_of_outcomes hm ?_ hk
    intro k id hk
    rw [hreq]
    exact (hpass₂.visited k id hk).congr hkv₁ hfailed₁ (hsame₁ id (List.mem_of_getElem? hk))
      fun x hx => hsame₁ x (List.mem_of_mem_take hx)
  refine ⟨sync.affectedReqIds, s', hrun, hkv, ?_, ?_, ?_, ?_⟩
  · intro id
    rw [show id ∈ sync.affectedReqIds ↔ _ from hpass₂.affected id]
    apply and_congr_right
    intro hid
    exact exists_congr fun i => exists_congr fun b => finds_congr hkv₁ hfailed₁ (hsame₁ id hid)
  · intro id hid hid'
    rw [hreq, show s₂.request id = s₁.request id from hpass₂.others id hid']
    exact hpass₁.others id hid
  · intro pass hpass k id hk
    rcases List.mem_pair.mp hpass with rfl | rfl
    · exact hasync k id hk
    · exact hsync k id hk
  · intro b hshares hfinds
    exact existsUnique_recomputes hstatus hsync hshares hfinds

theorem attention_ofOneToken (spec : KVCacheSpec) (h : spec ∈ [⟨1, .fullAttention, 0⟩]) : spec.Attention 1 := by
  obtain rfl := List.mem_singleton.mp h
  exact ⟨Nat.one_pos, dvd_rfl, trivial⟩

/-- One group of full attention, with blocks of one token. -/
def fullOfTen : KVCacheManager where
  kvCacheGroups := [⟨1, .fullAttention, 0⟩]
  hashBlockSize := 1
  maxModelLen := 10
  attention := attention_ofOneToken

/-- Failed loads are recomputed. -/
def recomputing : SchedulerConfig Nat where
  maxNumRunningReqs := 4
  maxNumScheduledTokens := 8
  connector := some ⟨false⟩
  kvCacheManager := fullOfTen
  coordinator := .unitary false
  hashes := ⟨[], fun _ => [], fun _ => []⟩

/-- Request 0 loads one block and computes two, of which the others hit the first two. Requests 3 and 4
load asynchronously, and failed before. -/
def threeRunning : Except PyError (Scheduler Nat) := do
  let (_, kv) ← PoolRuns.start 8 true []
  let s := (Scheduler.init kv 0).addNewRequest recomputing (KVCacheManager.countingRequest 0 3 0)
  let s := s.addNewRequest recomputing (KVCacheManager.countingRequest 1 3 0)
  let s := s.addNewRequest recomputing (KVCacheManager.countingRequest 2 3 0)
  let (_, s) ← s.schedule recomputing
    { getNumNewMatchedTokens := fun id => (some (if id = 0 then 1 else 0), false) }
  let s := s.modify 3 fun _ =>
    { KVCacheManager.countingRequest 3 3 1 with status := .waitingForRemoteKvs }
  let s := s.modify 4 fun _ =>
    { KVCacheManager.countingRequest 4 3 1 with status := .waitingForRemoteKvs, numCachedTokens := 2 }
  return { s with
    waiting := [3, 4]
    failedRecvingKvReqIds := [3, 4]
    kv := { s.kv with reqToBlocks := (s.kv.reqToBlocks.set (0, 3) [1]).set (0, 4) [1, 2] } }

/-- Blocks 1 and 2 are invalid. -/
theorem handleInvalidBlocks_recomputes_three :
    ∃ s skipped s', threeRunning = .ok s ∧ s.handleInvalidBlocks recomputing [1, 2] = .ok (skipped, s') ∧
      s'.kv = s.kv ∧ ∀ k id, s.running[k]? = some id →
        Recomputes recomputing ⟨⟨1, .fullAttention, 0⟩, 0⟩ [1, 2] s s' (s.running.take k) id := by
  obtain ⟨s, hs⟩ : ∃ s, threeRunning = .ok s := ⟨_, rfl⟩
  have hs' := Except.ok.inj hs
  obtain ⟨skipped, s', hrun, hkv, -, -, hrecomputes, -⟩ := handleInvalidBlocks_recomputes recomputing s
    [1, 2] (m := ⟨⟨1, .fullAttention, 0⟩, 0⟩) rfl rfl (by rw [← hs']; decide) (by rw [← hs']; decide)
    (by rw [← hs']; decide)
  exact ⟨s, skipped, s', hs, hrun, hkv, hrecomputes s.running (by simp)⟩

/-- The invalid blocks stay cached. Request 2 counts on block 2, which both requests before it
recompute. And request 4 counts on it too, although request 3 does not hold it. -/
theorem handleInvalidBlocks_fails :
    ∃ s skipped s', threeRunning = .ok s ∧ s.handleInvalidBlocks recomputing [1, 2] = .ok (skipped, s') ∧
      s'.kv.pool.cachedBlockHashToBlock.getOneBlock ([1], 0) = some 1 ∧ s.running = [0, 1, 2] ∧ s.waiting = [3, 4] ∧
      (s.kv.blocksOf (0, 0))[1]? = some 2 ∧ (s'.request 0).numComputedTokens ≤ 1 ∧
      (s.kv.blocksOf (0, 1))[1]? = some 2 ∧ (s'.request 1).numComputedTokens ≤ 1 ∧
      (s.kv.blocksOf (0, 2))[1]? = some 2 ∧ 1 < (s'.request 2).numComputedTokens ∧
      (s.kv.blocksOf (0, 4))[1]? = some 2 ∧ 1 < (s'.request 4).numComputedTokens ∧ 2 ∉ s.kv.blocksOf (0, 3) := by
  refine ⟨_, _, _, rfl, rfl, ?_⟩
  decide +kernel

end Scheduler
end Yuan.Core
