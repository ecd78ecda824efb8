import Yuan.Core.LRUOffloadingManager
import Yuan.Core.ARCOffloadingManager

/-!
# What can be looked up is what was stored and not evicted

A ledger is kept from what the manager returns: a prepared store makes hashes pending and takes those
listed as evicted away, a completed store makes pending hashes present. The events tell the same
story. Over every run of either manager the hashes that `lookup` finds are those present in the
ledger, except where the ARC manager evicts blocks for a store that it then refuses, or forgets ready
blocks when a store fails.
-/

namespace Yuan.Core

variable {α σ : Type}

inductive OffloadOp (α : Type) where
  | lookup (blockHashes : List α)
  | touch (blockHashes : List α)
  | prepareLoad (blockHashes : List α)
  | completeLoad (blockHashes : List α)
  | prepareStore (blockHashes : List α)
  | completeStore (blockHashes : List α) (success : Bool)
  | takeEvents

/-- What the caller knows of a hash. -/
inductive BlockState where
  | absent
  | pending
  | present
  deriving DecidableEq, Repr

/-- A manager in use: next to its state the caller's ledger, and the events taken so far. -/
structure OffloadRun (α σ : Type) where
  manager : σ
  ledger : α → BlockState := fun _ => .absent
  taken : List (OffloadingEvent α) := []

namespace OffloadRun

variable [DecidableEq α]

def recordPrepared (ledger : α → BlockState) (out : PrepareStoreOutput α) : α → BlockState :=
  fun h =>
    if h ∈ out.blockHashesToStore then .pending
    else if h ∈ out.blockHashesEvicted then .absent
    else ledger h

def recordCompleted (ledger : α → BlockState) (blockHashes : List α) (success : Bool) :
    α → BlockState :=
  fun h =>
    if h ∈ blockHashes ∧ ledger h = .pending then if success then .present else .absent
    else ledger h

def step (m : OffloadingManager α σ) (run : OffloadRun α σ) :
    OffloadOp α → Except PyError (OffloadRun α σ)
  | .lookup _ => return run
  | .touch blockHashes => return { run with manager := m.touch run.manager blockHashes }
  | .prepareLoad blockHashes => do
    let (_, s) ← m.prepareLoad run.manager blockHashes
    return { run with manager := s }
  | .completeLoad blockHashes => do
    let s ← m.completeLoad run.manager blockHashes
    return { run with manager := s }
  | .prepareStore blockHashes => do
    let (out, s) ← m.prepareStore run.manager blockHashes
    return { run with
      manager := s
      ledger := match out with
        | none => run.ledger
        | some out => recordPrepared run.ledger out }
  | .completeStore blockHashes success => do
    let s ← m.completeStore run.manager blockHashes success
    return { run with manager := s, ledger := recordCompleted run.ledger blockHashes success }
  | .takeEvents =>
    let (events, s) := m.takeEvents run.manager
    return { run with manager := s, taken := run.taken ++ events }

/-- What a step can do. -/
inductive Stepped (m : OffloadingManager α σ) (run : OffloadRun α σ) : OffloadOp α → OffloadRun α σ → Prop where
  | lookup (hs) : Stepped m run (.lookup hs) run
  | touch (hs) : Stepped m run (.touch hs) { run with manager := m.touch run.manager hs }
  | prepareLoad {hs ids s} (h : m.prepareLoad run.manager hs = .ok (ids, s)) :
    Stepped m run (.prepareLoad hs) { run with manager := s }
  | completeLoad {hs s} (h : m.completeLoad run.manager hs = .ok s) :
    Stepped m run (.completeLoad hs) { run with manager := s }
  | refused {hs s} (h : m.prepareStore run.manager hs = .ok (none, s)) :
    Stepped m run (.prepareStore hs) { run with manager := s }
  | prepared {hs out s} (h : m.prepareStore run.manager hs = .ok (some out, s)) :
    Stepped m run (.prepareStore hs) { run with manager := s, ledger := recordPrepared run.ledger out }
  | stored {hs s} (h : m.completeStore run.manager hs true = .ok s) :
    Stepped m run (.completeStore hs true) { run with manager := s, ledger := recordCompleted run.ledger hs true }
  | failed {hs s} (h : m.completeStore run.manager hs false = .ok s) :
    Stepped m run (.completeStore hs false) { run with manager := s, ledger := recordCompleted run.ledger hs false }
  | takeEvents : Stepped m run .takeEvents { run with
      manager := (m.takeEvents run.manager).2, taken := run.taken ++ (m.takeEvents run.manager).1 }

theorem stepped {m : OffloadingManager α σ} {run run' : OffloadRun α σ} {op : OffloadOp α}
    (hstep : run.step m op = .ok run') : Stepped m run op run' := by
  cases op with
  | lookup hs =>
    cases hstep
    exact .lookup hs
  | touch hs =>
    cases hstep
    exact .touch hs
  | prepareLoad hs =>
    obtain ⟨⟨ids, s⟩, hload, hstep⟩ := bind_eq_ok.mp hstep
    cases hstep
    exact .prepareLoad hload
  | completeLoad hs =>
    obtain ⟨s, hload, hstep⟩ := bind_eq_ok.mp hstep
    cases hstep
    exact .completeLoad hload
  | prepareStore hs =>
    obtain ⟨⟨out, s⟩, hstore, hstep⟩ := bind_eq_ok.mp hstep
    cases hstep
    cases out with
    | none => exact .refused hstore
    | some out => exact .prepared hstore
  | completeStore hs success =>
    obtain ⟨s, hstore, hstep⟩ := bind_eq_ok.mp hstep
    cases hstep
    cases success with
    | true => exact .stored hstore
    | false => exact .failed hstore
  | takeEvents =>
    cases hstep
    exact .takeEvents

/-- The states of runs from `start` whose operations all meet a condition. -/
inductive Reachable (m : OffloadingManager α σ) (Meets : σ → OffloadOp α → Prop) (start : σ) :
    OffloadRun α σ → Prop where
  | start : Reachable m Meets start { manager := start }
  | step {run run' : OffloadRun α σ} (h : Reachable m Meets start run) (op : OffloadOp α)
    (hmeets : Meets run.manager op) (hstep : run.step m op = .ok run') :
    Reachable m Meets start run'

/-- The hashes present by the events alone. -/
def replay (events : List (OffloadingEvent α)) : α → Bool :=
  events.foldl (fun present e h => if h ∈ e.blockHashes then !e.removed else present h) fun _ => false

theorem replay_append_singleton (events : List (OffloadingEvent α)) (e : OffloadingEvent α) (h : α) :
    replay (events ++ [e]) h = if h ∈ e.blockHashes then !e.removed else replay events h := by
  rw [replay, List.foldl_append]
  rfl

/-! ## The books of a view -/

/-- The ledger is right about every hash. -/
structure Books (entries : List (α × CPUBlockStatus)) (ledger : α → BlockState) : Prop where
  present : ∀ h, ledger h = .present ↔ ∃ id, (h, id, true) ∈ entries.map signature
  pending : ∀ h, ledger h = .pending ↔ ∃ id, (h, id, false) ∈ entries.map signature

/-- The events, those taken and those not taken, are right about every hash. -/
def EventBooks (taken : List (OffloadingEvent α)) (events : Option (List (OffloadingEvent α)))
    (ledger : α → BlockState) : Prop :=
  ∀ evs, events = some evs → ∀ h, replay (taken ++ evs) h = true ↔ ledger h = .present

omit [DecidableEq α] in
theorem mem_signature {entries : List (α × CPUBlockStatus)} {h : α} {ready : Bool} :
    (∃ id, (h, id, ready) ∈ entries.map signature) ↔ ∃ b, (h, b) ∈ entries ∧ b.isReady = ready := by
  constructor
  · rintro ⟨id, hmem⟩
    obtain ⟨e, he, heq⟩ := List.mem_map.mp hmem
    obtain ⟨rfl, hrest⟩ := Prod.mk.inj heq
    exact ⟨e.2, he, (Prod.mk.inj hrest).2⟩
  · rintro ⟨b, hb, rfl⟩
    exact ⟨b.blockId, List.mem_map.mpr ⟨_, hb, rfl⟩⟩

namespace Books

variable {entries entries' : List (α × CPUBlockStatus)} {ledger : α → BlockState}

section

omit [DecidableEq α]

theorem same (h : Books entries ledger) (hsame : SameBlocks entries entries') : Books entries' ledger := by
  refine ⟨?_, ?_⟩
  · intro hash
    rw [h.present]
    exact exists_congr fun id => hsame.mem_iff.symm
  · intro hash
    rw [h.pending]
    exact exists_congr fun id => hsame.mem_iff.symm

theorem present_iff (h : Books entries ledger) {hash : α} :
    ledger hash = .present ↔ ∃ b, (hash, b) ∈ entries ∧ b.isReady = true := by
  rw [h.present, mem_signature]

theorem pending_iff (h : Books entries ledger) {hash : α} :
    ledger hash = .pending ↔ ∃ b, (hash, b) ∈ entries ∧ b.isReady = false := by
  rw [h.pending, mem_signature]

theorem of_iff (hpresent : ∀ h, ledger h = .present ↔ ∃ b, (h, b) ∈ entries ∧ b.isReady = true)
    (hpending : ∀ h, ledger h = .pending ↔ ∃ b, (h, b) ∈ entries ∧ b.isReady = false) : Books entries ledger :=
  ⟨fun h => (hpresent h).trans mem_signature.symm, fun h => (hpending h).trans mem_signature.symm⟩

/-- A hash without entry is absent. -/
theorem absent (h : Books entries ledger) {hash : α} (hnot : ∀ b, (hash, b) ∉ entries) : ledger hash = .absent := by
  cases hstate : ledger hash with
  | absent => rfl
  | pending =>
    obtain ⟨b, hb, -⟩ := h.pending_iff.mp hstate
    exact absurd hb (hnot b)
  | present =>
    obtain ⟨b, hb, -⟩ := h.present_iff.mp hstate
    exact absurd hb (hnot b)

end

end Books

variable {v v' : OffloadView α} {ledger : α → BlockState} {taken : List (OffloadingEvent α)} {hashes : List α}
  {run : OffloadRun α σ}

/-- A prepared store: its hashes get entries that are not ready, and those evicted lose theirs. -/
theorem books_prepared (hnodup : (v.entries.map Prod.fst).Nodup) (h : Books v.entries ledger)
    {out : PrepareStoreOutput α} (hprepared : v.Prepared v' hashes out) :
    Books v'.entries (recordPrepared ledger out) := by
  obtain ⟨removed, kept, added, blocks, hperm, -, hevicted, hstore, -, -, hperm', hadded, hunready,
    -, -⟩ := hprepared
  have hkeys : ((removed ++ kept).map Prod.fst).Nodup := (hperm.map Prod.fst).nodup_iff.mp hnodup
  rw [List.map_append, List.nodup_append] at hkeys
  have hmem' : ∀ e, e ∈ v'.entries ↔ e ∈ kept ∨ e ∈ added := by
    intro e
    rw [hperm'.mem_iff, List.mem_append]
  have hmem : ∀ e, e ∈ v.entries ↔ e ∈ removed ∨ e ∈ kept := by
    intro e
    rw [hperm.mem_iff, List.mem_append]
  -- a hash to store has no entry but the new one
  have hnew : ∀ hash ∈ out.blockHashesToStore, ∀ b, (hash, b) ∉ kept := by
    intro hash hhash b hb
    rw [hstore, List.mem_filter, decide_eq_true_eq] at hhash
    exact hhash.2 (List.mem_map.mpr ⟨_, (hmem _).mpr (Or.inr hb), rfl⟩)
  have hstate : ∀ b : CPUBlockStatus, b.refCnt = -1 → b.isReady = false := by
    intro b hb
    rw [CPUBlockStatus.isReady, hb]
    rfl
  have hentry : ∀ hash, hash ∉ out.blockHashesToStore → ∀ b,
      (hash, b) ∈ v'.entries ↔ (hash, b) ∈ v.entries ∧ hash ∉ out.blockHashesEvicted := by
    intro hash hnot b
    have hnot' : (hash, b) ∉ added := fun hb => hnot ((hadded hash).mp (List.mem_map.mpr ⟨_, hb, rfl⟩))
    rw [hmem', or_iff_left hnot', hmem, hevicted]
    constructor
    · intro hb
      refine ⟨Or.inr hb, ?_⟩
      intro hev
      exact hkeys.2.2 hash hev hash (List.mem_map.mpr ⟨_, hb, rfl⟩) rfl
    · rintro ⟨hb | hb, hev⟩
      · exact absurd (List.mem_map.mpr ⟨_, hb, rfl⟩) hev
      · exact hb
  apply Books.of_iff
  · intro hash
    unfold recordPrepared
    split
    case isTrue hstored =>
      refine iff_of_false (by simp) ?_
      rintro ⟨b, hb, hready⟩
      rcases (hmem' _).mp hb with hb | hb
      · exact hnew hash hstored b hb
      · rw [hstate b (hunready _ hb)] at hready
        cases hready
    case isFalse hnot =>
      split
      case isTrue hev =>
        refine iff_of_false (by simp) ?_
        rintro ⟨b, hb, -⟩
        exact ((hentry hash hnot b).mp hb).2 hev
      case isFalse hev =>
        rw [h.present_iff]
        refine exists_congr fun b => ?_
        rw [hentry hash hnot b, and_iff_left hev]
  · intro hash
    unfold recordPrepared
    split
    case isTrue hstored =>
      refine iff_of_true rfl ?_
      obtain ⟨e, he, rfl⟩ := List.mem_map.mp ((hadded hash).mpr hstored)
      exact ⟨e.2, (hmem' _).mpr (Or.inr he), hstate _ (hunready e he)⟩
    case isFalse hnot =>
      split
      case isTrue hev =>
        refine iff_of_false (by simp) ?_
        rintro ⟨b, hb, -⟩
        exact ((hentry hash hnot b).mp hb).2 hev
      case isFalse hev =>
        rw [h.pending_iff]
        refine exists_congr fun b => ?_
        rw [hentry hash hnot b, and_iff_left hev]

theorem eventBooks_prepared (h : Books v.entries ledger) (hev : EventBooks taken v.events ledger)
    {out : PrepareStoreOutput α} (hprepared : v.Prepared v' hashes out) :
    EventBooks taken v'.events (recordPrepared ledger out) := by
  obtain ⟨removed, kept, added, blocks, -, -, -, hstore, -, -, -, -, -, -, hevents⟩ := hprepared
  -- a hash to store was absent
  have habsent : ∀ hash ∈ out.blockHashesToStore, ledger hash = .absent := by
    intro hash hhash
    rw [hstore, List.mem_filter, decide_eq_true_eq] at hhash
    exact h.absent fun b hb => hhash.2 (List.mem_map.mpr ⟨_, hb, rfl⟩)
  intro evs' hevs' hash
  rw [hevents, addEvent] at hevs'
  unfold recordPrepared
  split at hevs'
  case isTrue hnil =>
    rw [hev evs' hevs' hash, hnil]
    split
    case isTrue hstored =>
      rw [habsent hash hstored]
      simp
    case isFalse => simp
  case isFalse =>
    obtain ⟨evs, hevs, rfl⟩ := Option.map_eq_some_iff.mp hevs'
    rw [← List.append_assoc, replay_append_singleton]
    have hold := hev evs hevs hash
    by_cases hevicted : hash ∈ out.blockHashesEvicted
    · rw [if_pos hevicted]
      split <;> simp
    · rw [if_neg hevicted, hold]
      split
      case isTrue hstored =>
        rw [habsent hash hstored]
        simp
      case isFalse => exact .rfl

theorem books_stored (h : Books v.entries ledger) (hstored : v.Stored v' hashes) :
    Books v'.entries (recordCompleted ledger hashes true) := by
  obtain ⟨hentries, -⟩ := hstored
  have hmem : ∀ hash ready, (∃ id, (hash, id, ready) ∈ v'.entries.map signature) ↔
      ∃ b, (hash, b) ∈ v.entries ∧ (b.isReady || decide (hash ∈ hashes)) = ready := by
    intro hash ready
    constructor
    · rintro ⟨id, hid⟩
      obtain ⟨e, he, heq⟩ := List.mem_map.mp (hentries.mem_iff.mp hid)
      obtain ⟨rfl, hrest⟩ := Prod.mk.inj heq
      exact ⟨e.2, he, (Prod.mk.inj hrest).2⟩
    · rintro ⟨b, hb, rfl⟩
      exact ⟨b.blockId, hentries.mem_iff.mpr (List.mem_map.mpr ⟨_, hb, rfl⟩)⟩
  refine ⟨?_, ?_⟩
  · intro hash
    rw [hmem]
    unfold recordCompleted
    by_cases hlisted : hash ∈ hashes
    · simp only [hlisted, true_and, decide_true, Bool.or_true, and_true]
      split
      case isTrue hpending =>
        obtain ⟨b, hb, -⟩ := h.pending_iff.mp hpending
        exact iff_of_true rfl ⟨b, hb⟩
      case isFalse hnot =>
        rw [h.present_iff]
        constructor
        · rintro ⟨b, hb, -⟩
          exact ⟨b, hb⟩
        · rintro ⟨b, hb⟩
          cases hready : b.isReady with
          | true => exact ⟨b, hb, hready⟩
          | false => exact absurd (h.pending_iff.mpr ⟨b, hb, hready⟩) hnot
    · simp [hlisted, h.present_iff]
  · intro hash
    rw [hmem]
    unfold recordCompleted
    by_cases hlisted : hash ∈ hashes
    · simp only [hlisted, true_and]
      refine iff_of_false ?_ (by simp)
      split
      case isTrue => simp
      case isFalse hnot => exact hnot
    · simp [hlisted, h.pending_iff]

theorem eventBooks_stored (h : Books v.entries ledger) (hev : EventBooks taken v.events ledger)
    (hstored : v.Stored v' hashes) : EventBooks taken v'.events (recordCompleted ledger hashes true) := by
  obtain ⟨-, -, stored, hmem, hevents⟩ := hstored
  have hmem' : ∀ hash, hash ∈ stored ↔ hash ∈ hashes ∧ ledger hash = .pending := by
    intro hash
    rw [hmem, h.pending_iff]
  intro evs' hevs' hash
  rw [hevents, addEvent] at hevs'
  unfold recordCompleted
  simp only [← hmem' hash]
  split at hevs'
  case isTrue hnil =>
    rw [hev evs' hevs' hash, hnil]
    simp
  case isFalse =>
    obtain ⟨evs, hevs, rfl⟩ := Option.map_eq_some_iff.mp hevs'
    rw [← List.append_assoc, replay_append_singleton]
    have hold := hev evs hevs hash
    by_cases hin : hash ∈ stored
    · simp [hin]
    · rw [if_neg hin, if_neg hin, hold]

theorem books_failed (h : Books v.entries ledger) (hfailed : v.Failed v' hashes) :
    Books v'.entries (recordCompleted ledger hashes false) ∧
      ∀ hash, recordCompleted ledger hashes false hash = .present ↔ ledger hash = .present := by
  obtain ⟨removed, hperm, hremoved, hkept, -⟩ := hfailed
  have hmem : ∀ e, e ∈ v.entries ↔ e ∈ removed ∨ e ∈ v'.entries := by
    intro e
    rw [hperm.mem_iff, List.mem_append]
  have hready : ∀ hash b, b.isReady = true →
      ((hash, b) ∈ v'.entries ↔ (hash, b) ∈ v.entries) := by
    intro hash b hb
    rw [hmem]
    constructor
    · exact Or.inr
    · rintro (hin | hin)
      · rw [(hremoved _ hin).2] at hb
        cases hb
      · exact hin
  have hunready : ∀ hash b, b.isReady = false →
      ((hash, b) ∈ v'.entries ↔ (hash, b) ∈ v.entries ∧ hash ∉ hashes) := by
    intro hash b hb
    rw [hmem]
    constructor
    · intro hin
      refine ⟨Or.inr hin, ?_⟩
      intro hlisted
      rw [hkept _ hin hlisted] at hb
      cases hb
    · rintro ⟨hin | hin, hnot⟩
      · exact absurd (hremoved _ hin).1 hnot
      · exact hin
  have hpresent : ∀ hash, recordCompleted ledger hashes false hash = .present ↔
      ledger hash = .present := by
    intro hash
    unfold recordCompleted
    split
    case isTrue hboth =>
      rw [hboth.2]
      simp
    case isFalse => exact .rfl
  refine ⟨Books.of_iff ?_ ?_, hpresent⟩
  · intro hash
    rw [hpresent, h.present_iff]
    refine exists_congr fun b => ?_
    rw [and_congr_left_iff]
    exact fun hb => (hready hash b hb).symm
  · intro hash
    unfold recordCompleted
    by_cases hlisted : hash ∈ hashes
    · refine iff_of_false ?_ ?_
      · split
        case isTrue => simp
        case isFalse hnot => exact fun hpending => hnot ⟨hlisted, hpending⟩
      · rintro ⟨b, hb, hstate⟩
        exact ((hunready hash b hstate).mp hb).2 hlisted
    · rw [if_neg (fun hboth => hlisted hboth.1), h.pending_iff]
      refine exists_congr fun b => ?_
      rw [and_congr_left_iff]
      intro hb
      rw [hunready hash b hb, and_iff_left hlisted]

/-! ## Runs -/

/-- Invariant of the runs of a manager. -/
structure Agrees (view : σ → OffloadView α) (Ok : σ → Prop) (run : OffloadRun α σ) : Prop where
  ok : Ok run.manager
  books : Books (view run.manager).entries run.ledger
  events : EventBooks run.taken (view run.manager).events run.ledger

variable {m : OffloadingManager α σ} {view : σ → OffloadView α} {Ok : σ → Prop}
  {MayFail MayRefuse : σ → List α → Prop}

/-- Steps that load, refuse and fail only where they may. -/
def MeetsAll (view : σ → OffloadView α) (MayFail MayRefuse : σ → List α → Prop) (s : σ) : OffloadOp α → Prop
  | .prepareLoad blockHashes => (view s).MayLoad blockHashes
  | .prepareStore blockHashes => MayRefuse s blockHashes
  | .completeStore blockHashes false => MayFail s blockHashes
  | _ => True

theorem Agrees.kept (h : Agrees view Ok run) {s : σ} (hok : Ok s) (hkept : (view run.manager).Kept (view s)) :
    Agrees view Ok { run with manager := s } := by
  obtain ⟨hsame, -, hevents⟩ := hkept
  refine ⟨hok, h.books.same hsame, ?_⟩
  rw [hevents]
  exact h.events

section

variable (hm : m.Refines view Ok MayFail MayRefuse)
include hm

theorem Agrees.step {run' : OffloadRun α σ} (h : Agrees view Ok run) {op : OffloadOp α}
    (hmeets : MeetsAll view MayFail MayRefuse run.manager op) (hstep : run.step m op = .ok run') :
    Agrees view Ok run' := by
  cases stepped hstep with
  | lookup blockHashes => exact h
  | touch blockHashes =>
    obtain ⟨hok, hkept⟩ := hm.touch run.manager blockHashes h.ok
    exact h.kept hok hkept
  | prepareLoad hload =>
    obtain ⟨hok, -, hkept⟩ := hm.prepareLoad _ _ _ _ h.ok hload
    exact h.kept hok (hkept hmeets)
  | completeLoad hload =>
    obtain ⟨hok, hkept⟩ := hm.completeLoad _ _ _ h.ok hload
    exact h.kept hok hkept
  | @refused _ s hstore =>
    have hsame : s = run.manager := (hm.prepareStore _ _ _ _ h.ok hstore).2.2 hmeets
    subst hsame
    exact ⟨h.ok, h.books, h.events⟩
  | prepared hstore =>
    obtain ⟨hok, hspec⟩ := hm.prepareStore _ _ _ _ h.ok hstore
    exact ⟨hok, books_prepared (hm.nodup _ h.ok) h.books hspec, eventBooks_prepared h.books h.events hspec⟩
  | stored hstore =>
    obtain ⟨hok, hstored⟩ := hm.stored _ _ _ h.ok hstore
    exact ⟨hok, books_stored h.books hstored, eventBooks_stored h.books h.events hstored⟩
  | failed hstore =>
    obtain ⟨hok, hfailed⟩ := hm.failed _ _ _ h.ok hmeets hstore
    obtain ⟨hbooks, hpresent⟩ := books_failed h.books hfailed
    refine ⟨hok, hbooks, ?_⟩
    obtain ⟨removed, -, -, -, -, hevents⟩ := hfailed
    intro evs hevs hash
    rw [hevents] at hevs
    rw [h.events evs hevs hash]
    exact (hpresent hash).symm
  | takeEvents =>
    obtain ⟨hok, hentries, -, htaken, hevents⟩ := hm.takeEvents run.manager h.ok
    refine ⟨hok, ?_, ?_⟩
    · show Books (view (m.takeEvents run.manager).2).entries run.ledger
      rw [hentries]
      exact h.books
    · intro evs hevs hash
      rw [hevents] at hevs
      obtain ⟨old, hold, rfl⟩ := Option.map_eq_some_iff.mp hevs
      rw [htaken, hold, List.append_nil]
      exact h.events old hold hash

theorem Reachable.agrees {start : σ} (hstart : Agrees view Ok ({ manager := start } : OffloadRun α σ))
    (h : Reachable m (MeetsAll view MayFail MayRefuse) start run) : Agrees view Ok run := by
  induction h with
  | start => exact hstart
  | step _ op hmeets hstep ih => exact ih.step hm hmeets hstep

/-- `lookup` finds a hash exactly if the ledger has it present. -/
theorem Agrees.lookup (h : Agrees view Ok run) (hash : α) :
    m.lookup run.manager [hash] = 1 ↔ run.ledger hash = .present := by
  rw [hm.lookup _ _ h.ok, h.books.present_iff, List.takeWhile_cons]
  constructor
  · intro hone
    split at hone
    case isTrue hready =>
      obtain ⟨e, he, hboth⟩ := List.any_eq_true.mp hready
      obtain ⟨hkey, hstate⟩ := Bool.and_eq_true_iff.mp hboth
      obtain rfl : e.1 = hash := of_decide_eq_true hkey
      exact ⟨e.2, he, hstate⟩
    case isFalse => cases hone
  · rintro ⟨b, hb, hready⟩
    rw [OffloadView.isReady_eq (hm.nodup _ h.ok) hb, hready]
    rfl

end

/-- An empty cache has an empty ledger. -/
theorem agrees_start {start : σ} (hok : Ok start) (hentries : (view start).entries = [])
    (hevents : ∀ evs, (view start).events = some evs → evs = []) :
    Agrees view Ok ({ manager := start } : OffloadRun α σ) := by
  refine ⟨hok, ⟨?_, ?_⟩, ?_⟩
  · intro hash
    rw [hentries]
    simp
  · intro hash
    rw [hentries]
    simp
  · intro evs hevs hash
    obtain rfl := hevents evs hevs
    simp [replay]

theorem Reachable.mono {Meets Meets' : σ → OffloadOp α → Prop} {start : σ} (hmono : ∀ s op, Meets s op → Meets' s op)
    (h : Reachable m Meets start run) : Reachable m Meets' start run := by
  induction h with
  | start => exact .start
  | step _ op hmeets hstep ih => exact ih.step op (hmono _ _ hmeets) hstep

/-- The same hashes are cached and ready, in the same blocks, and the backend has the same free. -/
def Unchanged (v v' : OffloadView α) : Prop := SameBlocks v.entries v'.entries ∧ v'.backend = v.backend

end OffloadRun

open OffloadRun

namespace ARCOffloadingManager

variable [DecidableEq α]

/-- A refused store changes nothing exactly if there were enough blocks to evict, or none. -/
theorem unchanged_iff {s s' : ARCOffloadingManager α} (hapart : s.Apart) {blockHashes : List α}
    {r : Option (PrepareStoreOutput α)} (h : s.prepareStore blockHashes = .ok (r, s')) :
    (r = none → Unchanged s.view s'.view) ↔ s.MayRefuse blockHashes := by
  have hspec := prepareStore_spec hapart h
  constructor
  · intro hunchanged
    unfold prepareStore at h
    dsimp only at h
    split at h
    case isTrue hnil => exact Or.inl hnil
    case isFalse =>
      split at h
      case h_1 toEvict s₁ hloop =>
        cases h
        obtain ⟨henough, hlen⟩ := evictLoop_enough hloop
        obtain ⟨-, removed, rfl, hperm, -⟩ := evictLoop_spec hapart hloop
        -- what was evicted is missing, so nothing was
        have hsame := (hunchanged rfl).1.length_eq
        have hsplit := hperm.length_eq
        rw [List.length_map, List.length_map] at hsame
        rw [List.length_append] at hsplit
        rw [List.length_map] at hlen
        exact Or.inr (by omega)
      case h_2 toEvict s₁ hloop =>
        exact Or.inr (Or.inl ((evictLoop_enough hloop).1.mp rfl))
  · rintro hmay rfl
    have hsame : s' = s := hspec.2.2 hmay
    subst hsame
    exact ⟨.refl _, rfl⟩

/-- No hash is in two lists, in any run. -/
theorem apart_of_reachable (round : ℚ → ℚ) {start : ARCOffloadingManager α} (hstart : start.Apart)
    {run : OffloadRun α (ARCOffloadingManager α)}
    (h : Reachable (manager round) (fun _ _ => True) start run) : run.manager.Apart := by
  have hm := refines (α := α) round
  induction h with
  | start => exact hstart
  | @step run run' _ op _ hstep ih =>
    cases stepped hstep with
    | lookup hs => exact ih
    | touch hs => exact (hm.touch run.manager hs ih).1
    | prepareLoad hload => exact (hm.prepareLoad _ _ _ _ ih hload).1
    | completeLoad hload => exact (hm.completeLoad _ _ _ ih hload).1
    | refused hstore => exact (hm.prepareStore _ _ _ _ ih hstore).1
    | prepared hstore => exact (hm.prepareStore _ _ _ _ ih hstore).1
    | stored hstore => exact (hm.stored _ _ _ ih hstore).1
    | @failed hs s hstore =>
      cases hstore
      exact apart_dropBlocks ih hs
    | takeEvents => exact (hm.takeEvents run.manager ih).1

omit [DecidableEq α] in
theorem apart_init (backend : CPUBackend) (enableEvents : Bool) :
    (init backend enableEvents : ARCOffloadingManager α).Apart :=
  ⟨by simp [init], by simp [init], by simp [init]⟩

end ARCOffloadingManager

section

variable [DecidableEq α] (blockSize numBlocks : Nat) (enableEvents : Bool) (round : ℚ → ℚ)

/-- A refused store changes nothing: always in the LRU manager; in the ARC manager, in every reachable state,
exactly if there are enough blocks to evict, or none. And `lookup` finds exactly the hashes of completed
stores that were not reported as evicted since, in the returned outputs and in the events: in every run of
the LRU manager in which no count of loads overflows, and in every such run of the ARC manager whose stores
evict enough or nothing, and whose failed stores list no block that is ready. -/
theorem offload_all_or_nothing :
    (∀ (m : LRUOffloadingManager α) blockHashes s, m.prepareStore blockHashes = .ok (none, s) → s = m) ∧
    (∀ run : OffloadRun α (LRUOffloadingManager α), Reachable LRUOffloadingManager.manager
        (MeetsAll LRUOffloadingManager.view (fun _ _ => True) fun _ _ => True)
        (LRUOffloadingManager.init { blockSize := blockSize, numBlocks := numBlocks } enableEvents) run →
      (∀ h, run.manager.lookup [h] = 1 ↔ run.ledger h = .present) ∧
      EventBooks run.taken run.manager.events run.ledger) ∧ (∀ run : OffloadRun α (ARCOffloadingManager α),
      Reachable (ARCOffloadingManager.manager round) (fun _ _ => True)
        (ARCOffloadingManager.init { blockSize := blockSize, numBlocks := numBlocks } enableEvents) run →
      ∀ blockHashes r s, run.manager.prepareStore blockHashes = .ok (r, s) →
        ((r = none → Unchanged run.manager.view s.view) ↔ run.manager.MayRefuse blockHashes)) ∧
    (∀ run : OffloadRun α (ARCOffloadingManager α), Reachable (ARCOffloadingManager.manager round)
        (MeetsAll ARCOffloadingManager.view ARCOffloadingManager.MayFail ARCOffloadingManager.MayRefuse)
        (ARCOffloadingManager.init { blockSize := blockSize, numBlocks := numBlocks } enableEvents) run →
      (∀ h, run.manager.lookup [h] = 1 ↔ run.ledger h = .present) ∧
      EventBooks run.taken run.manager.events run.ledger) := by
  have hnone : ∀ evs, (if enableEvents then some [] else none : Option (List (OffloadingEvent α))) = some evs →
      evs = [] := by
    intro evs hevs
    cases enableEvents with
    | false => cases hevs
    | true => exact (Option.some.inj hevs).symm
  refine ⟨fun m blockHashes s hrefused => LRUOffloadingManager.prepareStore_spec hrefused, fun run hrun => ?_,
    fun run hrun blockHashes r s hstore => ?_, fun run hrun => ?_⟩
  · have hagrees : Agrees LRUOffloadingManager.view (fun _ => True) run := by
      refine Reachable.agrees LRUOffloadingManager.refines ?_ hrun
      exact agrees_start trivial rfl fun evs => hnone evs
    exact ⟨hagrees.lookup LRUOffloadingManager.refines, hagrees.events⟩
  · exact ARCOffloadingManager.unchanged_iff
      (ARCOffloadingManager.apart_of_reachable round (ARCOffloadingManager.apart_init _ _) hrun) hstore
  · have hagrees : Agrees ARCOffloadingManager.view ARCOffloadingManager.Apart run :=
      Reachable.agrees (ARCOffloadingManager.refines round)
        (agrees_start (ARCOffloadingManager.apart_init _ _) rfl fun evs => hnone evs) hrun
    exact ⟨hagrees.lookup (ARCOffloadingManager.refines round), hagrees.events⟩

end

/-- An ARC manager for two blocks. -/
def smallARC : ARCOffloadingManager Nat :=
  ARCOffloadingManager.init { blockSize := 16, numBlocks := 2 } true

/-- Blocks 1 and 2 are stored, 2 is being read, and 1 makes room for 3. While 3 is read too, a store of 4 is
refused. -/
theorem offload_all_or_nothing_two_reads :
    ∃ run : OffloadRun Nat (ARCOffloadingManager Nat), run.ledger 1 = .absent ∧ run.manager.lookup [1] ≠ 1 ∧
      run.ledger 3 = .present ∧ run.manager.lookup [3] = 1 ∧
      ∃ s, run.manager.prepareStore [4] = .ok (none, s) ∧ Unchanged run.manager.view s.view := by
  have hstart : Reachable (ARCOffloadingManager.manager id)
      (MeetsAll ARCOffloadingManager.view ARCOffloadingManager.MayFail ARCOffloadingManager.MayRefuse) smallARC
      { manager := smallARC } := .start
  have hprepared := hstart.step (.prepareStore [1, 2]) (Or.inr (Or.inl (by decide))) rfl
  have hstored := hprepared.step (.completeStore [1, 2] true) trivial rfl
  have hloading := hstored.step (.prepareLoad [2]) (show OffloadView.MayLoad _ _ from by decide) rfl
  have hevicting := hloading.step (.prepareStore [3]) (Or.inr (Or.inl (by decide))) rfl
  have hreplaced := hevicting.step (.completeStore [3] true) trivial rfl
  have hreading := hreplaced.step (.prepareLoad [3]) (show OffloadView.MayLoad _ _ from by decide) rfl
  obtain ⟨-, -, hrefused, hruns⟩ := offload_all_or_nothing (α := Nat) 16 2 true id
  have hlookup := (hruns _ hreading).1
  refine ⟨_, rfl, fun hone => ?_, rfl, (hlookup 3).mpr rfl, _, rfl, ?_⟩
  · cases (hlookup 1).mp hone
  · exact (hrefused _ (hreading.mono fun _ _ _ => trivial) [4] none _ rfl).mpr (Or.inr (Or.inr (by decide))) rfl

/-- Blocks 1 and 2 are stored, and 2 is being read. A store of two more is refused after block 1 has
been evicted for it. -/
theorem offload_all_or_nothing_not_always :
    ¬ ∀ run : OffloadRun Nat (ARCOffloadingManager Nat),
      Reachable (ARCOffloadingManager.manager id) (fun _ _ => True) smallARC run →
      ∀ blockHashes s, run.manager.prepareStore blockHashes = .ok (none, s) → Unchanged run.manager.view s.view := by
  intro h
  have hstart : Reachable (ARCOffloadingManager.manager id) (fun _ _ => True) smallARC
      { manager := smallARC } := .start
  have hprepared := hstart.step (.prepareStore [1, 2]) trivial rfl
  have hstored := hprepared.step (.completeStore [1, 2] true) trivial rfl
  have hloading := hstored.step (.prepareLoad [2]) trivial rfl
  have hlen := (h _ hloading [3, 4] _ rfl).1.length_eq
  revert hlen
  decide

end Yuan.Core
