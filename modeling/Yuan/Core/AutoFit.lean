import Yuan.Core.KVCacheConfigs
import Yuan.Lib.Steady
import Mathlib.Order.Bounds.Basic

/-!
# The largest model length that fits

The memory that a request needs grows with its length, whatever the specs are, and asking for it fails for every
length or for none. So the binary search finds the largest length that fits. The search tries lengths by writing them
into the shared configuration; it puts the length back that was there, also when it raises.
-/

namespace Yuan.Core

/-! ## The memory grows with the length -/

section Memory

/-- A computation of the configuration whose result grows with the maximal length. -/
def GrowsWithLength (need : VllmConfig → Except PyError Int) : Prop :=
  ∀ config : VllmConfig, Steady (· ≤ ·) (· ≤ ·) fun modelLen : Nat => need { config with maxModelLen := modelLen }

theorem cdiv_le_cdiv {a b q : Int} (hq : 0 ≤ q) (h : a ≤ b) : cdiv a q ≤ cdiv b q := by
  rcases hq.eq_or_lt with rfl | hq
  · exact le_of_eq (by simp [cdiv])
  · rw [cdiv_eq hq, cdiv_eq hq]
    exact Int.ediv_le_ediv hq (by omega)

theorem steady_ceilDiv {q : Int} (hq : 0 ≤ q) : Steady (· ≤ ·) (· ≤ ·) fun a => ceilDiv a q := by
  unfold ceilDiv
  split
  · exact .const le_refl _
  · exact .ok fun _ _ h => cdiv_le_cdiv hq h

theorem steady_pagesFor (s : LayerKVCacheSpec) (extraPages : Nat) {numTokens : Nat → Nat}
    (hmono : ∀ m n, m ≤ n → numTokens m ≤ numTokens n) :
    Steady (· ≤ ·) (· ≤ ·) fun modelLen => s.pagesFor (numTokens modelLen) extraPages := by
  have hpages : Steady (· ≤ ·) (· ≤ ·) fun modelLen : Nat => ceilDiv (numTokens modelLen) s.blockSize :=
    Steady.bind (.ok fun m n h => Int.ofNat_le.mpr (hmono m n h)) (steady_ceilDiv (Int.natCast_nonneg _))
  refine hpages.bind (.bindConst fun pageSize _ => .ok fun a b h => ?_)
  exact mul_le_mul_of_nonneg_right (by omega) (Int.natCast_nonneg _)

/-- Whatever the spec, a layer needs more for longer requests. -/
theorem LayerKVCacheSpec.growsWithLength (s : LayerKVCacheSpec) : GrowsWithLength s.maxMemoryUsageBytes := by
  intro config
  have hlength : ∀ m n : Nat, m ≤ n → m ≤ n := fun _ _ h => h
  have hfull : Steady (· ≤ ·) (· ≤ ·) fun modelLen : Nat =>
      if config.decodeContextParallelSize * config.prefillContextParallelSize > 1 then
        s.pagesFor (cdiv modelLen (config.decodeContextParallelSize * config.prefillContextParallelSize : Nat)).toNat 0
      else s.pagesFor modelLen 0 := by
    split
    · refine steady_pagesFor s 0 fun m n h => Int.toNat_le_toNat (cdiv_le_cdiv (Int.natCast_nonneg _) ?_)
      exact Int.ofNat_le.mpr h
    · exact steady_pagesFor s 0 hlength
  have hcap : ∀ cap m n : Nat, m ≤ n → min cap m ≤ min cap n := fun cap m n h => min_le_min_left cap h
  cases s with
  | fullAttention spec => exact hfull
  | mlaAttention spec cacheDtypeStr => exact hfull
  | sinkFullAttention spec sinkLen => exact hfull
  | chunkedLocalAttention spec chunk => exact steady_pagesFor _ 0 (hcap (chunk + config.maxNumBatchedTokens))
  | slidingWindow spec window =>
    have hchecked : Steady (· ≤ ·) (· ≤ ·) fun modelLen : Nat =>
        pyAssert (config.decodeContextParallelSize = 1) "DCP not support sliding window." >>= fun _ =>
          (LayerKVCacheSpec.slidingWindow spec window).pagesFor
            (min (window + config.maxNumBatchedTokens - 1) modelLen) 1 :=
      .bindConst fun _ _ => steady_pagesFor _ 1 (hcap (window + config.maxNumBatchedTokens - 1))
    exact hchecked
  | mamba spec =>
    unfold LayerKVCacheSpec.maxMemoryUsageBytes
    dsimp only
    split
    · exact steady_pagesFor _ 0 hlength
    · exact .const le_refl _
    · exact .const le_refl _
  | encoderOnlyAttention spec => exact .const le_refl _
  | crossAttention spec => exact .const le_refl ((LayerKVCacheSpec.crossAttention spec).maxMemoryUsageBytes config)

theorem UniformTypeKVCacheSpecs.growsWithLength (spec : UniformTypeKVCacheSpecs) :
    GrowsWithLength spec.maxMemoryUsageBytes := by
  intro config
  have hpages : Steady (· ≤ ·) (List.Forall₂ (· ≤ ·)) fun modelLen =>
      spec.kvCacheSpecs.values.mapM (UniformTypeKVCacheSpecs.maxNumPages { config with maxModelLen := modelLen }) := by
    refine .mapM fun s _ => (s.growsWithLength config).bind (.bindConst fun pageSize _ => ?_)
    exact steady_ceilDiv (Int.natCast_nonneg _)
  refine hpages.bindOn fun numPages hgrows hrun => ?_
  cases hspecs : spec.kvCacheSpecs.values with
  | nil =>
    -- the largest of no numbers
    refine .inl ⟨.valueError "max() arg is an empty sequence", fun modelLen => ?_⟩
    have hnil := hrun modelLen
    rw [hspecs] at hnil
    dsimp only
    rw [← Except.ok.inj hnil]
    rfl
  | cons s specs =>
    have hsome : ∀ modelLen, ∃ m, (numPages modelLen).max? = some m := by
      intro modelLen
      have hlength := (mapM_eq_ok.mp (hrun modelLen)).length_eq
      rw [hspecs, List.length_cons] at hlength
      refine Option.isSome_iff_exists.mp (List.isSome_max?_of_ne_nil ?_)
      exact List.ne_nil_of_length_pos (by omega)
    choose largest hlargest using hsome
    simp only [hlargest]
    refine .bindConst fun pageSize _ => .ok fun m n h => ?_
    exact mul_le_mul_of_nonneg_right (max?_le_of_forall₂ (hgrows m n h) (hlargest m) (hlargest n))
      (Int.natCast_nonneg _)

theorem GroupKVCacheSpec.growsWithLength (spec : GroupKVCacheSpec) : GrowsWithLength spec.maxMemoryUsageBytes := by
  cases spec with
  | layer spec => exact spec.growsWithLength
  | uniformType spec => exact spec.growsWithLength

/-- `max_memory_usage_bytes`. -/
def maxMemoryUsageBytes (kvCacheSpecs : List LayerKVCacheSpec) (config : VllmConfig) : Except PyError Int := do
  let memory ← kvCacheSpecs.mapM (LayerKVCacheSpec.maxMemoryUsageBytes config)
  return memory.sum

theorem growsWithLength_maxMemoryUsageBytes (kvCacheSpecs : List LayerKVCacheSpec) :
    GrowsWithLength (maxMemoryUsageBytes kvCacheSpecs) := by
  intro config
  have hmemory : Steady (· ≤ ·) (List.Forall₂ (· ≤ ·)) fun modelLen =>
      kvCacheSpecs.mapM (LayerKVCacheSpec.maxMemoryUsageBytes { config with maxModelLen := modelLen }) :=
    .mapM fun s _ => s.growsWithLength config
  exact hmemory.bind (.ok fun _ _ h => sum_le_sum_of_forall₂ h)

/-- What the groups of a worker need grows with the length. -/
theorem growsWithLength_fromGroups (groups : List KVCacheGroupSpec) :
    GrowsWithLength fun config => maxMemoryUsageBytesFromGroups config groups := by
  intro config
  unfold maxMemoryUsageBytesFromGroups
  split
  · exact .const le_refl _
  · next spec => exact growsWithLength_maxMemoryUsageBytes spec.kvCacheSpecs.values config
  · next anyGroup groups _ =>
      refine .bindConst fun pageSize _ => ?_
      refine (anyGroup.kvCacheSpec.growsWithLength config).bind ?_
      refine (steady_ceilDiv (Int.natCast_nonneg _)).bind (.ok fun a b h => ?_)
      exact mul_le_mul_of_nonneg_left h (by positivity)

end Memory

/-! ## The search -/

section Search

/-- A request of this length fits. -/
def FitsLength (need : VllmConfig → Except PyError Int) (config : VllmConfig) (availableMemory : Int)
    (modelLen : Nat) : Prop :=
  ∃ memory, need { config with maxModelLen := modelLen } = .ok memory ∧ memory ≤ availableMemory

/-- `fits`, for any computation of the memory. -/
def fits (need : VllmConfig → Except PyError Int) (config : VllmConfig) (availableMemory : Int) (modelLen : Nat) :
    Except PyError Bool := do
  let memory ← need { config with maxModelLen := modelLen }
  return memory ≤ availableMemory

/-- The search for the largest length that fits, for any computation of the memory. -/
def estimate (need : VllmConfig → Except PyError Int) (config : VllmConfig) (availableMemory : Int) :
    Except PyError Nat := do
  if ← fits need config availableMemory 1 then
    estimateLoop (fits need config availableMemory) config.maxModelLen 1 config.maxModelLen 1
  else return 0

/-- `n` bounds the lengths up to `top` that fit, and the length 0 besides. -/
def BoundsFits (p : Nat → Prop) (top n : Nat) : Prop :=
  n ≤ top ∧ ∀ modelLen ≤ top, modelLen = 0 ∨ p modelLen ↔ modelLen ≤ n

section Loop

variable {probe : Nat → Except PyError Bool} {p : Nat → Prop} {top left right result : Nat}

/-- When the interval is empty, the result is the bound. -/
theorem boundsFits_of_empty (hdown : ∀ m n, m ≤ n → p n → p m) (hempty : right < left) (hnext : left ≤ result + 1)
    (hresult : p result) (hle : result ≤ top) (hbehind : ∀ n ≤ top, right < n → ¬ p n) : BoundsFits p top result := by
  refine ⟨hle, fun n hn => ⟨?_, fun h => .inr (hdown n result h hresult)⟩⟩
  rintro (rfl | hp)
  · exact Nat.zero_le _
  · by_contra hlt
    exact hbehind n hn (by omega) hp

/-- The binary search of a property that is lost for good somewhere: the lengths behind `right` have lost it, the
result and all before it have it. -/
theorem estimateLoop_spec [DecidablePred p] (hprobe : ∀ n, probe n = .ok (decide (p n)))
    (hdown : ∀ m n, m ≤ n → p n → p m) {turns : Nat} (hturns : right + 1 ≤ left + turns) (hleft : 0 < left)
    (hnext : left ≤ result + 1) (hresult : p result) (hle : result ≤ top) (hright : right ≤ top)
    (hbehind : ∀ n ≤ top, right < n → ¬ p n) :
    ∃ n, estimateLoop probe turns left right result = .ok n ∧ BoundsFits p top n := by
  induction turns generalizing left right result with
  | zero => exact ⟨result, rfl, boundsFits_of_empty hdown (by omega) hnext hresult hle hbehind⟩
  | succ turns ih =>
    unfold estimateLoop
    by_cases hempty : left ≤ right
    · rw [if_pos hempty]
      dsimp only
      rw [hprobe]
      by_cases hp : p ((left + right) / 2)
      · rw [decide_eq_true hp]
        exact ih (by omega) (by omega) (by omega) hp (by omega) hright hbehind
      · rw [decide_eq_false hp]
        refine ih (by omega) hleft hnext hresult hle (by omega) fun n _ hlt hpn => ?_
        exact hp (hdown _ n (by omega) hpn)
    · rw [if_neg hempty]
      exact ⟨result, rfl, boundsFits_of_empty hdown (by omega) hnext hresult hle hbehind⟩

end Loop

variable {need : VllmConfig → Except PyError Int} {config : VllmConfig} {availableMemory : Int}
  {workers : List (List KVCacheGroupSpec × Int)}

/-- The estimate is the largest length that fits, and 0 if none does; it fails if the memory cannot be computed, and
then no length fits. -/
theorem estimate_spec (hgrows : GrowsWithLength need) (hmax : 0 < config.maxModelLen) :
    (∃ e, estimate need config availableMemory = .error e ∧ ∀ n, ¬ FitsLength need config availableMemory n) ∨
      ∃ n, estimate need config availableMemory = .ok n ∧
        BoundsFits (FitsLength need config availableMemory) config.maxModelLen n := by
  obtain ⟨e, he⟩ | ⟨f, hf, hrun⟩ := hgrows config
  · left
    dsimp only at he
    refine ⟨e, ?_, fun n ⟨memory, hmemory, _⟩ => ?_⟩
    · unfold estimate fits
      rw [he]
      rfl
    · rw [he] at hmemory
      cases hmemory
  · right
    dsimp only at hrun
    have hfits : ∀ n, FitsLength need config availableMemory n ↔ f n ≤ availableMemory := by
      intro n
      constructor
      · rintro ⟨memory, hmemory, hle⟩
        rw [hrun] at hmemory
        rwa [Except.ok.inj hmemory]
      · exact fun h => ⟨f n, hrun n, h⟩
    have hprobe : ∀ n, fits need config availableMemory n = .ok (decide (f n ≤ availableMemory)) := by
      intro n
      unfold fits
      rw [hrun]
      rfl
    have hdown : ∀ m n, m ≤ n → f n ≤ availableMemory → f m ≤ availableMemory := fun m n h hn => (hf m n h).trans hn
    unfold estimate
    rw [hprobe]
    by_cases hone : f 1 ≤ availableMemory
    · rw [decide_eq_true hone]
      obtain ⟨n, hn, hle, hbounds⟩ := estimateLoop_spec (p := fun n => f n ≤ availableMemory) hprobe hdown
        (by omega : config.maxModelLen + 1 ≤ 1 + config.maxModelLen) Nat.one_pos (by omega) hone hmax le_rfl
        fun n hn hlt => by omega
      refine ⟨n, hn, hle, fun m hm => ?_⟩
      rw [hfits]
      exact hbounds m hm
    · rw [decide_eq_false hone]
      refine ⟨0, rfl, Nat.zero_le _, fun m _ => ?_⟩
      rw [hfits, Nat.le_zero]
      constructor
      · rintro (rfl | hm)
        · rfl
        · by_contra hne
          exact hone (hdown 1 m (by omega) hm)
      · exact .inl

/-- A request of this length fits on every worker that has groups. -/
def FitsEverywhere (config : VllmConfig) (workers : List (List KVCacheGroupSpec × Int)) (modelLen : Nat) : Prop :=
  ∀ worker ∈ workers, worker.1 ≠ [] →
    FitsLength (fun config => maxMemoryUsageBytesFromGroups config worker.1) config worker.2 modelLen

theorem fitsEverywhere_cons {groups : List KVCacheGroupSpec} {modelLen : Nat} :
    FitsEverywhere config ((groups, availableMemory) :: workers) modelLen ↔
      (groups ≠ [] →
        FitsLength (fun config => maxMemoryUsageBytesFromGroups config groups) config availableMemory modelLen) ∧
        FitsEverywhere config workers modelLen :=
  List.forall_mem_cons

/-- A shorter request fits where a longer one does. -/
theorem FitsLength.of_le {m n : Nat} (hgrows : GrowsWithLength need) (hmn : m ≤ n)
    (h : FitsLength need config availableMemory n) : FitsLength need config availableMemory m := by
  obtain ⟨memory, hmemory, hle⟩ := h
  obtain ⟨e, he⟩ | ⟨f, hf, hrun⟩ := hgrows config
  · rw [show need { config with maxModelLen := n } = .error e from he n] at hmemory
    cases hmemory
  · have hn : Except.ok (f n) = Except.ok memory := (hrun n).symm.trans hmemory
    refine ⟨f m, hrun m, (hf m n hmn).trans ?_⟩
    rwa [Except.ok.inj hn]

theorem FitsEverywhere.of_le {m n : Nat} (hmn : m ≤ n) (h : FitsEverywhere config workers n) :
    FitsEverywhere config workers m :=
  fun worker hworker hgroups => (h worker hworker hgroups).of_le (growsWithLength_fromGroups worker.1) hmn

theorem autoFitLoop_le {autoFitMax n : Nat} (h : autoFitLoop config autoFitMax workers = .ok n) : n ≤ autoFitMax := by
  induction workers generalizing autoFitMax with
  | nil => exact le_of_eq (Except.ok.inj h).symm
  | cons worker workers ih =>
    obtain ⟨groups, availableMemory⟩ := worker
    cases groups with
    | nil => exact ih h
    | cons group groups =>
      obtain ⟨workerMax, -, hrest⟩ := bind_eq_ok.mp h
      exact (ih hrest).trans (min_le_right _ _)

/-- The smallest estimate of all workers bounds the lengths that fit everywhere. -/
theorem autoFitLoop_spec (hmax : 0 < config.maxModelLen) (workers : List (List KVCacheGroupSpec × Int))
    {autoFitMax : Nat} (hle : autoFitMax ≤ config.maxModelLen) :
    (∃ e, autoFitLoop config autoFitMax workers = .error e ∧ ∀ n, ¬ FitsEverywhere config workers n) ∨
      ∃ n, autoFitLoop config autoFitMax workers = .ok n ∧ BoundsFits (FitsEverywhere config workers) autoFitMax n := by
  induction workers generalizing autoFitMax with
  | nil =>
    refine .inr ⟨autoFitMax, rfl, le_rfl, fun n hn => ⟨fun _ => hn, fun _ => .inr ?_⟩⟩
    exact fun worker hworker => absurd hworker List.not_mem_nil
  | cons worker workers ih =>
    obtain ⟨groups, availableMemory⟩ := worker
    cases groups with
    | nil =>
      -- a worker without groups is left out
      have hsame : FitsEverywhere config (([], availableMemory) :: workers) = FitsEverywhere config workers := by
        funext n
        rw [fitsEverywhere_cons]
        simp
      rw [hsame]
      exact ih hle
    | cons group groups =>
      have hsplit : ∀ n, FitsEverywhere config ((group :: groups, availableMemory) :: workers) n ↔
          FitsLength (fun config => maxMemoryUsageBytesFromGroups config (group :: groups)) config
            availableMemory n ∧ FitsEverywhere config workers n := by
        intro n
        rw [fitsEverywhere_cons]
        simp
      have hstep : autoFitLoop config autoFitMax ((group :: groups, availableMemory) :: workers) =
          estimate (fun config => maxMemoryUsageBytesFromGroups config (group :: groups)) config availableMemory >>=
            fun workerMax => autoFitLoop config (min workerMax autoFitMax) workers := rfl
      rw [hstep]
      obtain ⟨e, he, hnone⟩ | ⟨workerMax, hworker, _, hbounds⟩ :=
        @estimate_spec _ config availableMemory (growsWithLength_fromGroups (group :: groups)) hmax
      · refine .inl ⟨e, by rw [he]; rfl, fun n hn => ?_⟩
        exact hnone n ((hsplit n).mp hn).1
      · rw [hworker]
        obtain ⟨e, he, hnone⟩ | ⟨n, hn, hnle, hrest⟩ := ih ((min_le_right workerMax autoFitMax).trans hle)
        · exact .inl ⟨e, he, fun n hn => hnone n ((hsplit n).mp hn).2⟩
        · refine .inr ⟨n, hn, hnle.trans (min_le_right _ _), fun m hm => ?_⟩
          have hworkerFits := hbounds m (hm.trans hle)
          rw [hsplit]
          constructor
          · rintro (rfl | ⟨hfits, heverywhere⟩)
            · exact Nat.zero_le _
            · exact (hrest m (le_min (hworkerFits.mp (.inr hfits)) hm)).mp (.inr heverywhere)
          · intro hmn
            have hmin := hmn.trans hnle
            rcases (hrest m hmin).mpr hmn with hzero | heverywhere
            · exact .inl hzero
            · rcases hworkerFits.mpr (hmin.trans (min_le_left _ _)) with hzero | hfits
              · exact .inl hzero
              · exact .inr ⟨hfits, heverywhere⟩

/-- Auto-fit takes the largest length that fits everywhere, and fails if there is none of at least 1. -/
theorem autoFitMaxModelLen_spec (hmax : 0 < config.maxModelLen) (projected : List (List KVCacheGroupSpec))
    (availableMemory : List Int) :
    (∃ e, autoFitMaxModelLen config projected availableMemory = .error e ∧
        ¬ ∃ n, 1 ≤ n ∧ FitsEverywhere config (projected.zip availableMemory) n) ∨
      ∃ n, autoFitMaxModelLen config projected availableMemory = .ok { config with maxModelLen := n } ∧ 1 ≤ n ∧
        IsGreatest (fun n => n ≤ config.maxModelLen ∧ FitsEverywhere config (projected.zip availableMemory) n) n := by
  unfold autoFitMaxModelLen
  by_cases hempty : projected.all List.isEmpty = true
  · -- every length fits
    right
    refine ⟨config.maxModelLen, by rw [if_pos hempty], hmax, ⟨le_rfl, fun worker hworker hgroups => ?_⟩,
      fun n hn => hn.1⟩
    have hnil := List.all_eq_true.mp hempty worker.1 (List.of_mem_zip hworker).1
    exact absurd (List.isEmpty_iff.mp hnil) hgroups
  · rw [if_neg hempty]
    obtain ⟨e, he, hnone⟩ | ⟨n, hn, hle, hbounds⟩ := autoFitLoop_spec hmax (projected.zip availableMemory) le_rfl
    · left
      exact ⟨e, by rw [he]; rfl, fun ⟨n, _, hn⟩ => hnone n hn⟩
    · rw [hn, ok_bind]
      by_cases hzero : n = 0
      · left
        refine ⟨_, by rw [if_pos hzero], fun ⟨m, hm, hfits⟩ => ?_⟩
        have hone := (hbounds 1 hmax).mp (.inr (hfits.of_le hm))
        omega
      · right
        refine ⟨n, by rw [if_neg hzero]; rfl, by omega, ⟨hle, ?_⟩, fun m hm => (hbounds m hm.1).mp (.inr hm.2)⟩
        exact ((hbounds n hle).mpr le_rfl).resolve_left hzero

end Search

/-! ## The search in place -/

/-- The shared configuration is changed in place, also by what raises in the end. -/
abbrev ConfigM : Type → Type := EStateM PyError VllmConfig

namespace InPlace

/-- A computation that reads the configuration. -/
def reading {α : Type} (need : VllmConfig → Except PyError α) : ConfigM α := fun config =>
  match need config with
  | .ok a => .ok a config
  | .error e => .error e config

def setMaxModelLen (modelLen : Nat) : ConfigM Unit :=
  modify fun config => { config with maxModelLen := modelLen }

/-- `fits`: the length is tried by writing it into the configuration. -/
def fits (need : VllmConfig → Except PyError Int) (availableMemory : Int) (modelLen : Nat) : ConfigM Bool := do
  setMaxModelLen modelLen
  let memory ← reading need
  return memory ≤ availableMemory

/-- `while left <= right`; the search starts at 1, so that `mid - 1` is no less than 0. -/
def searchLoop (probe : Nat → ConfigM Bool) (left right result : Nat) (hleft : 0 < left) : ConfigM Nat :=
  if hempty : left ≤ right then do
    if ← probe ((left + right) / 2) then
      searchLoop probe ((left + right) / 2 + 1) right ((left + right) / 2) (Nat.succ_pos _)
    else searchLoop probe left ((left + right) / 2 - 1) result hleft
  else return result
termination_by right + 1 - left
decreasing_by all_goals omega

/-- The binary search, which is inside `try`. -/
def search (need : VllmConfig → Except PyError Int) (availableMemory : Int) (originalMax : Nat) : ConfigM Nat := do
  if ← fits need availableMemory 1 then searchLoop (fits need availableMemory) 1 originalMax 1 Nat.one_pos
  else return 0

/-- The binary search, which puts the length back that was there. -/
def estimate (need : VllmConfig → Except PyError Int) (availableMemory : Int) : ConfigM Nat := do
  let config ← get
  let originalMax := config.maxModelLen
  try
    search need availableMemory originalMax
  finally
    setMaxModelLen originalMax

/-- `estimate_max_model_len`. -/
def estimateMaxModelLen (kvCacheSpec : Dict String LayerKVCacheSpec) (availableMemory : Int) : ConfigM Nat :=
  estimate (maxMemoryUsageBytes kvCacheSpec.values) availableMemory

/-- `_estimate_max_model_len_from_groups`. -/
def estimateMaxModelLenFromGroups (groups : List KVCacheGroupSpec) (availableMemory : Int) : ConfigM Nat :=
  estimate (fun config => maxMemoryUsageBytesFromGroups config groups) availableMemory

/-- The loop over the workers. -/
def autoFitLoop : Nat → List (List KVCacheGroupSpec × Int) → ConfigM Nat
  | autoFitMax, [] => return autoFitMax
  | autoFitMax, (groups, availableMemory) :: workers => do
    if groups.isEmpty then autoFitLoop autoFitMax workers
    else
      let workerMax ← estimateMaxModelLenFromGroups groups availableMemory
      autoFitLoop (if workerMax < autoFitMax then workerMax else autoFitMax) workers

/-- `_auto_fit_max_model_len`. -/
def autoFitMaxModelLen (projectedGroupsPerWorker : List (List KVCacheGroupSpec)) (availableMemory : List Int) :
    ConfigM Unit := do
  let config ← get
  let originalMax := config.maxModelLen
  if projectedGroupsPerWorker.all List.isEmpty then return
  -- `available_memory[0]`, for a message
  else if availableMemory.isEmpty then throw (.indexError "list index out of range")
  else
    let autoFitMax ← autoFitLoop originalMax (projectedGroupsPerWorker.zip availableMemory)
    if autoFitMax ≤ 0 then
      throw (.valueError ("Cannot auto-fit max_model_len: not enough GPU memory available " ++
        "to serve even a single token. Try increasing `gpu_memory_utilization`."))
    else if autoFitMax ≥ originalMax then return
    else setMaxModelLen autoFitMax

/-! ### What the search leaves behind -/

/-- The outcome of a computation, next to a configuration. -/
def outcome {α : Type} (config : VllmConfig) : Except PyError α → EStateM.Result PyError VllmConfig α
  | .ok a => .ok a config
  | .error e => .error e config

/-- `action` computes `x` whatever length the configuration has, and may change the length. -/
def Probes {α : Type} (config : VllmConfig) (action : ConfigM α) (x : Except PyError α) : Prop :=
  ∀ m, ∃ n, action { config with maxModelLen := m } = outcome { config with maxModelLen := n } x

section

variable {α β : Type} {config : VllmConfig} {need : VllmConfig → Except PyError Int} {availableMemory : Int}

theorem Probes.pure (a : α) : Probes config (pure a) (.ok a) := fun m => ⟨m, rfl⟩

theorem Probes.bind {action : ConfigM α} {x : Except PyError α} {next : α → ConfigM β} {next' : α → Except PyError β}
    (h : Probes config action x) (hnext : ∀ a, Probes config (next a) (next' a)) :
    Probes config (action >>= next) (x >>= next') := by
  intro m
  obtain ⟨n, hn⟩ := h m
  cases x with
  | error e =>
    refine ⟨n, ?_⟩
    show EStateM.bind action next _ = _
    unfold EStateM.bind
    rw [hn]
    rfl
  | ok a =>
    obtain ⟨k, hk⟩ := hnext a n
    refine ⟨k, ?_⟩
    show EStateM.bind action next _ = _
    unfold EStateM.bind
    rw [hn]
    exact hk

theorem probes_fits (modelLen : Nat) :
    Probes config (fits need availableMemory modelLen) (Core.fits need config availableMemory modelLen) := by
  intro m
  refine ⟨modelLen, ?_⟩
  unfold Core.fits
  show EStateM.bind (reading need) _ { config with maxModelLen := modelLen } = _
  unfold EStateM.bind reading
  cases need { config with maxModelLen := modelLen } with
  | error e => rfl
  | ok memory => rfl

/-- The loop computes what the one with a bound on its turns does. -/
theorem probes_searchLoop {probe : Nat → ConfigM Bool} {probe' : Nat → Except PyError Bool}
    (hprobe : ∀ n, Probes config (probe n) (probe' n)) {left right result : Nat} (hleft : 0 < left) {turns : Nat}
    (hturns : right + 1 ≤ left + turns) :
    Probes config (searchLoop probe left right result hleft) (estimateLoop probe' turns left right result) := by
  induction turns generalizing left right result with
  | zero =>
    unfold searchLoop
    rw [dif_neg (by omega)]
    exact .pure result
  | succ turns ih =>
    unfold searchLoop estimateLoop
    by_cases hempty : left ≤ right
    · rw [dif_pos hempty, if_pos hempty]
      refine (hprobe _).bind fun ok => ?_
      cases ok with
      | true => exact ih (Nat.succ_pos _) (by omega)
      | false => exact ih hleft (by omega)
    · rw [dif_neg hempty, if_neg hempty]
      exact .pure result

/-- Whatever becomes of the search, the configuration is as it was. -/
theorem estimate_eq (need : VllmConfig → Except PyError Int) (availableMemory : Int) (config : VllmConfig) :
    estimate need availableMemory config = outcome config (Core.estimate need config availableMemory) := by
  have hsearch : Probes config (search need availableMemory config.maxModelLen)
      (Core.estimate need config availableMemory) := by
    refine (probes_fits 1).bind fun ok => ?_
    cases ok with
    | true => exact probes_searchLoop probes_fits Nat.one_pos (by omega)
    | false => exact .pure 0
  obtain ⟨n, hn⟩ := hsearch config.maxModelLen
  have hrun : estimate need availableMemory config =
      (tryFinally (search need availableMemory config.maxModelLen) (setMaxModelLen config.maxModelLen)) config := rfl
  rw [hrun]
  generalize Core.estimate need config availableMemory = x at hn ⊢
  simp only [tryFinally, tryFinally', Functor.map, EStateM.map]
  rw [hn]
  cases x with
  | ok a => rfl
  | error e => rfl

/-- The loop over the workers leaves the configuration as it is. -/
theorem autoFitLoop_eq (config : VllmConfig) (workers : List (List KVCacheGroupSpec × Int)) (autoFitMax : Nat) :
    autoFitLoop autoFitMax workers config = outcome config (Core.autoFitLoop config autoFitMax workers) := by
  induction workers generalizing autoFitMax with
  | nil => rfl
  | cons worker workers ih =>
    obtain ⟨groups, availableMemory⟩ := worker
    cases groups with
    | nil => exact ih autoFitMax
    | cons group groups =>
      have hstep : Core.autoFitLoop config autoFitMax ((group :: groups, availableMemory) :: workers) =
          Core.estimate (fun config => maxMemoryUsageBytesFromGroups config (group :: groups)) config
            availableMemory >>= fun workerMax => Core.autoFitLoop config (min workerMax autoFitMax) workers := rfl
      show EStateM.bind (estimate _ availableMemory) (fun workerMax =>
        autoFitLoop (if workerMax < autoFitMax then workerMax else autoFitMax) workers) config = _
      unfold EStateM.bind
      rw [hstep, estimate_eq]
      cases Core.estimate (fun config => maxMemoryUsageBytesFromGroups config (group :: groups)) config
          availableMemory with
      | error e => rfl
      | ok workerMax =>
        have hmin : (if workerMax < autoFitMax then workerMax else autoFitMax) = min workerMax autoFitMax := by
          split <;> omega
        show autoFitLoop (if workerMax < autoFitMax then workerMax else autoFitMax) workers config = _
        rw [hmin, ih, ok_bind]

/-- What auto-fit does in place is what `get_kv_cache_configs` goes on with. -/
theorem autoFitMaxModelLen_eq (config : VllmConfig) {projected : List (List KVCacheGroupSpec)}
    {availableMemory : List Int} (hlength : projected.length = availableMemory.length) :
    (∀ config', Core.autoFitMaxModelLen config projected availableMemory = .ok config' →
      autoFitMaxModelLen projected availableMemory config = .ok () config') ∧
    ∀ e, Core.autoFitMaxModelLen config projected availableMemory = .error e →
      autoFitMaxModelLen projected availableMemory config = .error e config := by
  unfold Core.autoFitMaxModelLen
  by_cases hempty : projected.all List.isEmpty = true
  · -- no worker has groups
    have hrun : autoFitMaxModelLen projected availableMemory config = .ok () config := by
      show (if projected.all List.isEmpty = true then pure () else _ : ConfigM Unit) config = _
      rw [if_pos hempty]
      rfl
    rw [if_pos hempty, hrun]
    exact ⟨fun config' h => by rw [Except.ok.inj h], fun e h => by cases h⟩
  · have hmemory : ¬ availableMemory.isEmpty = true := by
      intro hnil
      rw [List.isEmpty_iff.mp hnil, List.length_nil, List.length_eq_zero_iff] at hlength
      exact hempty (by rw [hlength]; rfl)
    have hrun : autoFitMaxModelLen projected availableMemory config =
        EStateM.bind (autoFitLoop config.maxModelLen (projected.zip availableMemory)) (fun autoFitMax =>
          if autoFitMax ≤ 0 then
            throw (.valueError ("Cannot auto-fit max_model_len: not enough GPU memory available " ++
              "to serve even a single token. Try increasing `gpu_memory_utilization`."))
          else if autoFitMax ≥ config.maxModelLen then pure () else setMaxModelLen autoFitMax) config := by
      show (if projected.all List.isEmpty = true then pure ()
        else if availableMemory.isEmpty = true then _ else _ : ConfigM Unit) config = _
      rw [if_neg hempty, if_neg hmemory]
      rfl
    rw [if_neg hempty, hrun]
    unfold EStateM.bind
    rw [autoFitLoop_eq]
    cases hloop : Core.autoFitLoop config config.maxModelLen (projected.zip availableMemory) with
    | error e => exact ⟨fun config' h => (by cases h), fun e' h => (by cases h; rfl)⟩
    | ok autoFitMax =>
      rw [ok_bind]
      show (∀ config', _ → (if autoFitMax ≤ 0 then _ else _ : ConfigM Unit) config = _) ∧
        ∀ e, _ → (if autoFitMax ≤ 0 then _ else _ : ConfigM Unit) config = _
      by_cases hzero : autoFitMax = 0
      · rw [if_pos hzero, if_pos (by omega)]
        exact ⟨fun config' h => (by cases h), fun e' h => (by cases h; rfl)⟩
      · rw [if_neg hzero, if_neg (by omega)]
        refine ⟨fun config' h => ?_, fun e h => by cases h⟩
        rw [← Except.ok.inj h]
        by_cases hfull : autoFitMax ≥ config.maxModelLen
        · have hsame : autoFitMax = config.maxModelLen := Nat.le_antisymm (autoFitLoop_le hloop) hfull
          rw [if_pos hfull, hsame]
          rfl
        · rw [if_neg hfull]
          rfl

end

end InPlace

/-! ## Auto-fit -/

/-- A run of an estimate: the configuration is as it was; the result is the largest length up to the configured one
that fits, or 0 if none does; or the memory cannot be computed, and no length fits. -/
structure Estimates (need : VllmConfig → Except PyError Int) (config : VllmConfig) (availableMemory : Int)
    (run : EStateM.Result PyError VllmConfig Nat) : Prop where
  ok : ∀ n config', run = .ok n config' →
    config' = config ∧ BoundsFits (FitsLength need config availableMemory) config.maxModelLen n
  error : ∀ e config', run = .error e config' →
    config' = config ∧ ∀ n, ¬ FitsLength need config availableMemory n

theorem estimates {need : VllmConfig → Except PyError Int} (hgrows : GrowsWithLength need) (config : VllmConfig)
    (hmax : 0 < config.maxModelLen) (availableMemory : Int) :
    Estimates need config availableMemory (InPlace.estimate need availableMemory config) := by
  rw [InPlace.estimate_eq]
  obtain ⟨e, he, hnone⟩ | ⟨n, hn, hbounds⟩ := @estimate_spec _ config availableMemory hgrows hmax
  · rw [he]
    refine ⟨fun n config' h => (by cases h), fun e' config' h => ?_⟩
    cases h
    exact ⟨rfl, hnone⟩
  · rw [hn]
    refine ⟨fun n' config' h => ?_, fun e' config' h => (by cases h)⟩
    cases h
    exact ⟨rfl, hbounds⟩

/-- A run of auto-fit: it raises exactly if no length of at least 1 fits everywhere, and leaves the configuration as
it was; otherwise it changes the length to the largest one up to the configured one that fits everywhere. -/
structure AutoFits (config : VllmConfig) (workers : List (List KVCacheGroupSpec × Int))
    (run : EStateM.Result PyError VllmConfig Unit) : Prop where
  raises : (∃ e config', run = .error e config') ↔ ¬ ∃ n, 1 ≤ n ∧ FitsEverywhere config workers n
  error : ∀ e config', run = .error e config' → config' = config
  ok : ∀ config', run = .ok () config' → config' = { config with maxModelLen := config'.maxModelLen } ∧
    1 ≤ config'.maxModelLen ∧
    IsGreatest (fun n => n ≤ config.maxModelLen ∧ FitsEverywhere config workers n) config'.maxModelLen

/-- On any workers auto-fit finds the largest length that fits everywhere, and no probe leaves a trace. -/
theorem auto_fit_max_model_len (config : VllmConfig) (hmax : 0 < config.maxModelLen) :
    (∀ (projected : List (List KVCacheGroupSpec)) (availableMemory : List Int),
      projected.length = availableMemory.length → AutoFits config (projected.zip availableMemory)
          (InPlace.autoFitMaxModelLen projected availableMemory config)) ∧
    (∀ (groups : List KVCacheGroupSpec) (availableMemory : Int),
      Estimates (fun config => maxMemoryUsageBytesFromGroups config groups) config availableMemory
        (InPlace.estimateMaxModelLenFromGroups groups availableMemory config)) ∧
    ∀ (kvCacheSpec : Dict String LayerKVCacheSpec) (availableMemory : Int),
      Estimates (maxMemoryUsageBytes kvCacheSpec.values) config availableMemory
        (InPlace.estimateMaxModelLen kvCacheSpec availableMemory config) := by
  refine ⟨fun projected availableMemory hlength => ?_,
    fun groups => estimates (growsWithLength_fromGroups groups) _ hmax,
    fun kvCacheSpec => estimates (growsWithLength_maxMemoryUsageBytes _) _ hmax⟩
  obtain ⟨hok, herror⟩ := InPlace.autoFitMaxModelLen_eq config hlength
  obtain ⟨e, he, hnone⟩ | ⟨n, hn, hone, hgreatest⟩ := autoFitMaxModelLen_spec hmax projected availableMemory
  · rw [herror e he]
    refine ⟨⟨fun _ => hnone, fun _ => ⟨e, config, rfl⟩⟩, fun e' config' h => ?_, fun config' h => (by cases h)⟩
    cases h
    rfl
  · rw [hok _ hn]
    refine ⟨⟨?_, fun hnone => ?_⟩, fun e' config' h => (by cases h), fun config' h => ?_⟩
    · rintro ⟨e, config', h⟩
      cases h
    · exact absurd ⟨n, hone, hgreatest.1.2⟩ hnone
    · cases h
      exact ⟨rfl, hone, hgreatest⟩

/-- One layer of full attention, with blocks of two tokens and eight bytes: three blocks fit into 24 bytes. -/
theorem auto_fit_max_model_len_one_layer :
    let layer : LayerKVCacheSpec := .fullAttention
      { blockSize := 2, numKVHeads := 1, headSize := 1, dtype := ⟨"float16", 2⟩, headSizeV := 1 }
    let config : VllmConfig := { maxModelLen := 100, maxNumBatchedTokens := 16 }
    ∃ config', InPlace.autoFitMaxModelLen [[⟨["layer"], .layer layer⟩]] [24] config = .ok () config' ∧
      config'.maxModelLen = 6 := by
  intro layer config
  have hauto := (auto_fit_max_model_len config (by decide)).1 [[⟨["layer"], .layer layer⟩]] [24] rfl
  have hsix : FitsEverywhere config [([⟨["layer"], .layer layer⟩], 24)] 6 := by
    intro worker hworker _
    rw [List.mem_singleton.mp hworker]
    exact ⟨24, rfl, le_rfl⟩
  have hseven : ¬ FitsEverywhere config [([⟨["layer"], .layer layer⟩], 24)] 7 := by
    intro h
    obtain ⟨memory, hmemory, hle⟩ := h _ List.mem_cons_self (List.cons_ne_nil _ _)
    have hneeded : memory = 32 := (Except.ok.inj hmemory).symm
    omega
  cases hrun : InPlace.autoFitMaxModelLen [[⟨["layer"], .layer layer⟩]] [24] config with
  | error e config' => exact absurd ⟨6, by omega, hsix⟩ (hauto.raises.mp ⟨e, config', hrun⟩)
  | ok u config' =>
    refine ⟨config', rfl, ?_⟩
    obtain ⟨-, -, ⟨-, hfits⟩, hgreatest⟩ := hauto.ok config' hrun
    have hge := hgreatest ⟨by decide, hsix⟩
    by_contra hne
    exact hseven (hfits.of_le (by omega))

end Yuan.Core
