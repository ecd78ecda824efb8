import Yuan.Core.EncoderCacheManager

/-!
# Runs of the encoder cache

The scheduler checks the items of a request one after the other and asks for room for each, adding up
what earlier items were promised; only then are they allocated, or dropped when the request cannot be
scheduled. A state of the protocol is the manager together with the promised items, and with a record
of the entries that left the cache and of those reported to the workers.
-/

namespace Yuan.Core.EncoderCacheRuns

open EncoderCacheManager

/-- The manager, the items promised to the request at hand, and the history. -/
structure State where
  manager : EncoderCacheManager
  promised : List MultiModalFeatureSpec
  evicted : List String
  reported : List String

/-- The calls of the scheduler. `take` says whether the item joins the promised ones when there is
room; it does not when no embedding of it is needed in this step. -/
inductive Op where
  | checkAndUpdateCache (requestId : Nat) (feature : MultiModalFeatureSpec)
  | canAllocate (feature : MultiModalFeatureSpec) (encoderComputeBudget : Int) (take : Bool)
  | allocate (requestId : Nat) (feature : MultiModalFeatureSpec)
  | drop
  | freeEncoderInput (requestId : Nat) (feature : MultiModalFeatureSpec)
  | free (requestId : Nat) (mmFeatures : List MultiModalFeatureSpec)
  | getFreedMmHashes

/-- `num_embeds_to_schedule`: the embeddings promised so far. -/
def State.numEmbedsToSchedule (s : State) : Int :=
  (s.promised.map fun feature => (feature.mmPosition.getNumEmbeds : Int)).sum

/-- The entries that leave the cache between two states of the manager. -/
def leaving (m m' : EncoderCacheManager) : List String :=
  m.cached.keys.filter fun mmHash => mmHash ∉ m'.cached.keys

/-- The manager after a call; what left the cache is added to the history. -/
def State.withManager (s : State) (m : EncoderCacheManager) : State :=
  { s with manager := m, evicted := s.evicted ++ leaving s.manager m }

/-- One call. -/
def step (s : State) : Op → Except PyError State
  | .checkAndUpdateCache requestId feature => do
    let (_, m) ← s.manager.checkAndUpdateCache requestId feature
    return s.withManager m
  | .canAllocate feature encoderComputeBudget take => do
    let (fits, m) ← s.manager.canAllocate feature encoderComputeBudget s.numEmbedsToSchedule
    let s := s.withManager m
    if fits && take then return { s with promised := s.promised ++ [feature] } else return s
  | .allocate requestId feature => do
    let m ← s.manager.allocate requestId feature
    return { s.withManager m with promised := s.promised.erase feature }
  | .drop => .ok { s with promised := [] }
  | .freeEncoderInput requestId feature =>
    .ok (s.withManager (s.manager.freeEncoderInput requestId feature))
  | .free requestId mmFeatures => .ok (s.withManager (s.manager.free requestId mmFeatures))
  | .getFreedMmHashes =>
    let (freed, m) := s.manager.getFreedMmHashes
    .ok { s.withManager m with reported := s.reported ++ freed }

variable (size : String → Nat)

/-- What the scheduler sees to: items have the size their identifier stands for; an item is promised
room only if it is neither cached nor promised already; and only promised items are allocated. -/
def Enabled (s : State) : Op → Prop
  | .checkAndUpdateCache _ _ => True
  | .canAllocate feature _ take =>
    SizeOf size feature ∧ (take = true → feature.identifier ∉ s.manager.cached.keys ∧
      feature.identifier ∉ s.promised.map (·.identifier))
  | .allocate _ feature => feature ∈ s.promised
  | .drop => True
  | .freeEncoderInput _ feature => SizeOf size feature
  | .free _ mmFeatures => ∀ feature ∈ mmFeatures, SizeOf size feature
  | .getFreedMmHashes => True

/-- The states of all runs. -/
inductive Reachable : State → Prop where
  | init (cacheSize : Nat) : Reachable ⟨.init cacheSize, [], [], []⟩
  | step {s s' : State} {op : Op} (h : Reachable s) (henabled : Enabled size s op)
      (hstep : step s op = .ok s') : Reachable s'

/-- The accounts are right, the promised items fit, and the history of evictions is what was reported
or waits to be. -/
structure Ok (s : State) : Prop where
  accounts : Accounts size s.manager
  promised_size : ∀ feature ∈ s.promised, SizeOf size feature
  promised_new : ∀ feature ∈ s.promised, feature.identifier ∉ s.manager.cached.keys
  promised_nodup : (s.promised.map (·.identifier)).Nodup
  promised_fits : s.numEmbedsToSchedule ≤ s.manager.numFreeSlots
  evicted : ∀ mmHash,
    s.evicted.count mmHash = (s.reported ++ s.manager.freed).count mmHash

variable {size} {m : EncoderCacheManager} {s : State} {feature : MultiModalFeatureSpec}

theorem leaving_of_keys {m' : EncoderCacheManager} (h : ∀ k, k ∈ m.cached.keys → k ∈ m'.cached.keys) :
    leaving m m' = [] := by
  rw [leaving, List.filter_eq_nil_iff]
  intro k hk
  simpa using h k hk

theorem count_leaving {m' : EncoderCacheManager} {evicted : List String} (hnd : evicted.Nodup)
    (hsub : ∀ k ∈ evicted, k ∈ m.cached.keys) (hkeys : ∀ k, k ∈ m'.cached.keys ↔ k ∈ m.cached.keys ∧ k ∉ evicted)
    (mmHash : String) : (leaving m m').count mmHash = evicted.count mmHash := by
  have hperm : (leaving m m').Perm evicted := by
    unfold leaving
    rw [List.perm_ext_iff_of_nodup (m.cached.nodup_keys.filter _) hnd]
    intro k
    rw [List.mem_filter, decide_eq_true_eq, hkeys]
    constructor
    · rintro ⟨hk, hnot⟩
      by_contra hev
      exact hnot ⟨hk, hev⟩
    · intro hev
      exact ⟨hsub k hev, fun hc => hc.2 hev⟩
  exact hperm.count_eq mmHash

/-- A call that only changes references keeps everything. -/
theorem Ok.withManager (h : Ok size s) (hacc : Accounts size m) (hkeep : KeepsEntries s.manager m) :
    Ok size (s.withManager m) where
  accounts := hacc
  promised_size := h.promised_size
  promised_new feature hf hk := h.promised_new feature hf ((hkeep.keys _).mp hk)
  promised_nodup := h.promised_nodup
  promised_fits := by
    show s.numEmbedsToSchedule ≤ m.numFreeSlots
    rw [hkeep.numFreeSlots]
    exact h.promised_fits
  evicted mmHash := by
    show (s.evicted ++ leaving s.manager m).count mmHash = (s.reported ++ m.freed).count mmHash
    rw [leaving_of_keys fun k => (hkeep.keys k).mpr, List.append_nil, hkeep.freed]
    exact h.evicted mmHash

theorem numEmbedsToSchedule_append (s : State) (feature : MultiModalFeatureSpec) :
    ({ s with promised := s.promised ++ [feature] } : State).numEmbedsToSchedule =
      feature.mmPosition.getNumEmbeds + s.numEmbedsToSchedule := by
  simp [State.numEmbedsToSchedule, add_comm]

theorem numEmbedsToSchedule_erase (h : feature ∈ s.promised) :
    ({ s with promised := s.promised.erase feature } : State).numEmbedsToSchedule +
      feature.mmPosition.getNumEmbeds = s.numEmbedsToSchedule := by
  have hperm := (List.perm_cons_erase h).map fun f => (f.mmPosition.getNumEmbeds : Int)
  simp only [State.numEmbedsToSchedule, hperm.sum_eq, List.map_cons, List.sum_cons]
  ring

theorem Ok.canAllocate (h : Ok size s) {take : Bool} (budget : Int) (hsize : SizeOf size feature)
    (hnew : take = true → feature.identifier ∉ s.manager.cached.keys ∧
      feature.identifier ∉ s.promised.map (·.identifier)) :
    ∃ s', step s (.canAllocate feature budget take) = .ok s' ∧ Ok size s' := by
  obtain ⟨fits, m, evicted, hrun, hacc, hcs, hmono, hfits, hfreed, hnd, hsub, hkeys⟩ :=
    h.accounts.canAllocate feature budget s.numEmbedsToSchedule
  have hok : Ok size (s.withManager m) := by
    constructor
    case accounts => exact hacc
    case promised_size => exact h.promised_size
    case promised_new =>
      intro f hf hk
      exact h.promised_new f hf ((hkeys _).mp hk).1
    case promised_nodup => exact h.promised_nodup
    case promised_fits => exact h.promised_fits.trans hmono
    case evicted =>
      intro mmHash
      have := h.evicted mmHash
      show (s.evicted ++ leaving s.manager m).count mmHash = (s.reported ++ m.freed).count mmHash
      simp only [hfreed, List.count_append, count_leaving hnd hsub hkeys] at this ⊢
      omega
  by_cases htake : (fits && take) = true
  · obtain ⟨rfl, rfl⟩ := Bool.and_eq_true_iff.mp htake
    obtain ⟨hcached, hpromised⟩ := hnew rfl
    refine ⟨{ s.withManager m with promised := s.promised ++ [feature] }, ?_, ?_⟩
    · simp only [step, hrun]
      rfl
    · constructor
      case accounts => exact hacc
      case promised_size =>
        intro f hf
        rcases List.mem_append.mp hf with hf | hf
        · exact h.promised_size f hf
        · rw [List.mem_singleton.mp hf]
          exact hsize
      case promised_new =>
        intro f hf hk
        rcases List.mem_append.mp hf with hf | hf
        · exact hok.promised_new f hf hk
        · rw [List.mem_singleton.mp hf] at hk
          exact hcached ((hkeys _).mp hk).1
      case promised_nodup =>
        rw [List.map_append, List.nodup_append]
        refine ⟨h.promised_nodup, by simp, ?_⟩
        rintro a ha b hb rfl
        rw [List.map_cons, List.map_nil, List.mem_singleton] at hb
        exact hpromised (hb ▸ ha)
      case promised_fits =>
        show ({ s with promised := s.promised ++ [feature] } : State).numEmbedsToSchedule ≤
          m.numFreeSlots
        rw [numEmbedsToSchedule_append]
        exact hfits rfl
      case evicted => exact hok.evicted
  · refine ⟨s.withManager m, ?_, hok⟩
    simp only [step, hrun, bind, Except.bind, if_neg htake]
    rfl

theorem Ok.allocate (h : Ok size s) (requestId : Nat) (hmem : feature ∈ s.promised) :
    ∃ s', step s (.allocate requestId feature) = .ok s' ∧ Ok size s' := by
  have hsize := h.promised_size feature hmem
  have hembeds : feature.mmPosition.getNumEmbeds = size feature.identifier := hsize
  have herase := numEmbedsToSchedule_erase hmem
  have hrest : 0 ≤ ({ s with promised := s.promised.erase feature } : State).numEmbedsToSchedule := by
    apply List.sum_nonneg
    intro x hx
    obtain ⟨f, -, rfl⟩ := List.mem_map.mp hx
    exact Int.natCast_nonneg _
  have hfits := h.promised_fits
  obtain ⟨m, hrun, hacc, hcs, hslots, hfreed, hkeys⟩ :=
    h.accounts.allocate requestId hsize (h.promised_new feature hmem) (by omega)
  -- the other promised items have other identifiers
  have hperm := (List.perm_cons_erase hmem).map (·.identifier)
  have hnd := hperm.nodup_iff.mp h.promised_nodup
  rw [List.map_cons, List.nodup_cons] at hnd
  refine ⟨{ s.withManager m with promised := s.promised.erase feature }, ?_, ?_⟩
  · simp only [step, hrun]
    rfl
  · constructor
    case accounts => exact hacc
    case promised_size => exact fun f hf => h.promised_size f (List.mem_of_mem_erase hf)
    case promised_new =>
      intro f hf hk
      rcases (hkeys _).mp hk with heq | hk
      · exact hnd.1 (heq ▸ List.mem_map_of_mem hf)
      · exact h.promised_new f (List.mem_of_mem_erase hf) hk
    case promised_nodup => exact hnd.2
    case promised_fits =>
      show ({ s with promised := s.promised.erase feature } : State).numEmbedsToSchedule ≤
        m.numFreeSlots
      omega
    case evicted =>
      intro mmHash
      show (s.evicted ++ leaving s.manager m).count mmHash = (s.reported ++ m.freed).count mmHash
      rw [leaving_of_keys fun k hk => (hkeys k).mpr (Or.inr hk), List.append_nil, hfreed]
      exact h.evicted mmHash

/-- Under its precondition a call returns, in a state in order again. -/
theorem step_ok (h : Ok size s) {op : Op} (henabled : Enabled size s op) : ∃ s', step s op = .ok s' ∧ Ok size s' := by
  cases op with
  | checkAndUpdateCache requestId feature =>
    obtain ⟨_, m, hrun, hacc, hkeep, -⟩ := h.accounts.checkAndUpdateCache requestId feature
    exact ⟨s.withManager m, by simp only [step, hrun]; rfl, h.withManager hacc hkeep⟩
  | canAllocate feature budget take => exact h.canAllocate budget henabled.1 henabled.2
  | allocate requestId feature => exact h.allocate requestId henabled
  | drop =>
    refine ⟨_, rfl, { h with promised_size := ?_, promised_new := ?_, promised_nodup := ?_, promised_fits := ?_ }⟩
    · simp
    · simp
    · simp
    · simpa [State.numEmbedsToSchedule] using h.accounts.nonneg
  | freeEncoderInput requestId feature =>
    obtain ⟨m, rfl, hacc, hkeep⟩ := h.accounts.freeEncoderInput requestId henabled
    exact ⟨_, rfl, h.withManager hacc hkeep⟩
  | free requestId mmFeatures =>
    obtain ⟨hacc, hkeep⟩ := h.accounts.free requestId henabled
    exact ⟨_, rfl, h.withManager hacc hkeep⟩
  | getFreedMmHashes =>
    refine ⟨_, rfl, ?_⟩
    constructor
    case accounts => exact h.accounts.getFreedMmHashes
    case promised_size => exact h.promised_size
    case promised_new => exact h.promised_new
    case promised_nodup => exact h.promised_nodup
    case promised_fits => exact h.promised_fits
    case evicted =>
      intro mmHash
      show (s.evicted ++ leaving s.manager s.manager.getFreedMmHashes.2).count mmHash =
        ((s.reported ++ s.manager.freed) ++ []).count mmHash
      have hnone : leaving s.manager s.manager.getFreedMmHashes.2 = [] :=
        leaving_of_keys fun _ hk => hk
      rw [hnone, List.append_nil, List.append_nil]
      exact h.evicted mmHash

theorem ok_init (cacheSize : Nat) : Ok size ⟨.init cacheSize, [], [], []⟩ where
  accounts := accounts_init cacheSize
  promised_size := by simp
  promised_new := by simp
  promised_nodup := by simp
  promised_fits := by simp [State.numEmbedsToSchedule, EncoderCacheManager.init]
  evicted := by simp [EncoderCacheManager.init]

theorem Reachable.ok (h : Reachable size s) : Ok size s := by
  induction h with
  | init cacheSize => exact ok_init cacheSize
  | step _ henabled hstep ih =>
    obtain ⟨s'', hrun, hok⟩ := step_ok ih henabled
    rw [hstep, Except.ok.injEq] at hrun
    exact hrun ▸ hok

/-- The accounts in every reachable state, and what the calls of the scheduler can rely on. -/
theorem encoderCache_accounting {s : State} (h : Reachable size s) :
    s.manager.numFreeSlots = s.manager.cacheSize - s.manager.totalSize size ∧ s.manager.numFreeableSlots =
        s.manager.numFreeSlots + s.manager.freeable.sum (fun _ n => n) ∧
      (∀ mmHash n, s.manager.freeable.get? mmHash = some n ↔ s.manager.cached.get? mmHash = some ∅ ∧ n = size mmHash) ∧
      0 ≤ s.manager.numFreeSlots ∧ s.manager.numFreeSlots ≤ s.manager.numFreeableSlots ∧
      s.manager.numFreeableSlots ≤ s.manager.cacheSize ∧ (∀ op, Enabled size s op → ∃ s', step s op = .ok s') ∧
      ∀ mmHash, s.evicted.count mmHash = (s.reported ++ s.manager.freed).count mmHash := by
  have hok := h.ok
  refine ⟨hok.accounts.free_slots, hok.accounts.freeable_sum, hok.accounts.freeable,
    hok.accounts.nonneg, hok.accounts.free_le_freeable, hok.accounts.freeable_le, ?_, hok.evicted⟩
  intro op henabled
  obtain ⟨s', hrun, -⟩ := step_ok hok henabled
  exact ⟨s', hrun⟩

/-- An item of four embeddings is promised room in a cache of five, and allocated. -/
theorem encoderCache_accounting_allocate :
    let size : String → Nat := fun _ => 4
    let image : MultiModalFeatureSpec := ⟨"image", ⟨2, 4, none⟩⟩
    ∃ s, step ⟨.init 5, [image], [], []⟩ (.allocate 0 image) = .ok s ∧
      s.manager.numFreeSlots = s.manager.cacheSize - s.manager.totalSize size := by
  intro size image
  have hroom : Reachable size ⟨.init 5, [image], [], []⟩ := by
    refine .step (.init 5) (show Enabled size _ (.canAllocate image 8 true) from ?_) rfl
    exact ⟨rfl, fun _ => by simp [EncoderCacheManager.init]⟩
  have henabled : Enabled size ⟨.init 5, [image], [], []⟩ (.allocate 0 image) := by
    simp [Enabled]
  obtain ⟨s, hstep⟩ := (encoderCache_accounting hroom).2.2.2.2.2.2.1 _ henabled
  exact ⟨s, hstep, (encoderCache_accounting (.step hroom henabled hstep)).1⟩

end Yuan.Core.EncoderCacheRuns
