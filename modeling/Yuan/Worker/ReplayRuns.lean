import Yuan.Worker.BatchReplay

/-!
# Logits processors over runs of the batch

The batch of a generation model, a dictionary processor and the min-p processor in step. When no
positive min-p of an added request rounds to zero, the processors' states after every step are the ones
computed from the batch.
-/

namespace Yuan.Worker

open InputBatch

variable {E G T : Type}

/-- What `MinPLogitsProcessor` keeps for a request: its min-p in single precision. -/
def minPValue (float32 : Rat → Rat) : RequestValue Rat := fun params _ _ => float32 params.minP

/-- A run of the batch, with the processors that are given its batch updates. -/
structure ReplayRun (E G T : Type) where
  run : BatchRun E G
  reqEntries : Dict Nat T := .empty
  minP : MinPLogitsProcessor := {}

/-- What the processors do with a batch update. -/
structure Processors (T : Type) where
  newState : RequestValue (Option T)
  truthy : T → Bool
  /-- Rounding to single precision. -/
  float32 : Rat → Rat

namespace ReplayRun

def step (procs : Processors T) (r : ReplayRun E G T) (op : BatchOp E G) :
    Except PyError (ReplayRun E G T) := do
  let run ← r.run.step op
  match op with
  | .refresh =>
    let batchUpdate := r.run.batch.refreshMetadata.1
    return { run
             reqEntries := (processDictUpdates procs.truthy (valueOf procs.newState) r.reqEntries
               batchUpdate).1
             minP := r.minP.updateState procs.float32 batchUpdate }
  | _ => return { r with run }

/-- No positive min-p of an added request is lost in single precision. -/
def KeepsMinP (float32 : Rat → Rat) : BatchOp E G → Prop
  | .add request => ∀ params ∈ request.samplingParams, float32 params.minP = 0 → params.minP = 0
  | _ => True

inductive Reachable (procs : Processors T) (Meets : BatchOp E G → Prop) (start : InputBatch E G) :
    ReplayRun E G T → Prop where
  | start : Reachable procs Meets start { run := { batch := start } }
  | step {r r' : ReplayRun E G T} (h : Reachable procs Meets start r) (op : BatchOp E G)
      (hallowed : r.run.Allowed op) (hmeets : Meets op) (hstep : r.step procs op = .ok r') :
      Reachable procs Meets start r'

/-- In the middle of a step, the log replayed on the processors' states gives the slots' values. -/
structure Follows (procs : Processors T) (r : ReplayRun E G T) : Prop where
  ordered : r.run.Ordered
  book : LogBook r.run.batch
  noMoves : r.run.phase ≠ .swapping → r.run.batch.batchUpdateBuilder.moved = []
  entries : Tracks procs.newState none r.run.batch r.run.requests r.reqEntries.get?
  minP : Tracks (minPValue procs.float32) 0 r.run.batch r.run.requests r.minP.minPCpu
  counted : r.minP.Counted r.run.batch.maxNumReqs
  keepsMinP : ∀ a ∈ r.run.batch.batchUpdateBuilder.added,
    procs.float32 a.params.minP = 0 ↔ a.params.minP = 0

variable {procs : Processors T} {r r' : ReplayRun E G T} {op : BatchOp E G}

theorem step_eq_ok (h : r.step procs op = .ok r') (hop : op ≠ .refresh) :
    r.run.step op = .ok r'.run ∧ r'.reqEntries = r.reqEntries ∧ r'.minP = r.minP := by
  obtain ⟨run, hrun, hok⟩ := bind_eq_ok.mp h
  cases op with
  | refresh => exact absurd rfl hop
  | _ =>
    cases hok
    exact ⟨hrun, rfl, rfl⟩

/-- An operation before the end of the step changes neither processor. -/
theorem Follows.ofRun {run : BatchRun E G} (h : Follows procs r) (hordered : run.Ordered)
    (hbook : LogBook run.batch)
    (hnoMoves : run.phase ≠ .swapping → run.batch.batchUpdateBuilder.moved = [])
    (htracks : ∀ {β : Type} {value : RequestValue β} {blank : β} {col : Nat → β},
      Tracks value blank r.run.batch r.run.requests col → Tracks value blank run.batch run.requests col)
    (hmax : run.batch.maxNumReqs = r.run.batch.maxNumReqs)
    (hkeeps : ∀ a ∈ run.batch.batchUpdateBuilder.added,
      procs.float32 a.params.minP = 0 ↔ a.params.minP = 0) : Follows procs { r with run } :=
  ⟨hordered, hbook, hnoMoves, htracks h.entries, htracks h.minP, hmax ▸ h.counted, hkeeps⟩

/-- A request that is added to a generation model's batch has sampling parameters. -/
theorem Follows.params {request : CachedRequestState E G} (h : Follows procs r)
    (hallowed : r.run.Allowed (.add request)) : ∃ params, request.samplingParams = some params := by
  apply Option.isSome_iff_exists.mp
  rw [hallowed.2.2, h.book.generation]
  rfl

theorem Follows.effect {run : BatchRun E G} (h : Follows procs r) (hzero : procs.float32 0 = 0)
    (hallowed : r.run.Allowed op) (hmeets : KeepsMinP procs.float32 op) (hop : op ≠ .refresh)
    (heffect : BatchRun.Effect r.run op run) : Follows procs { r with run } := by
  have hordered := h.ordered.step hallowed heffect
  cases heffect with
  | removeAbsent hnone =>
    have hphase : r.run.phase ≠ .swapping := by
      rcases hallowed with hphase | hphase
      · rw [hphase]
        nofun
      · rw [hphase]
        nofun
    exact h.ofRun hordered h.book (fun _ => h.noMoves hphase) id rfl h.keepsMinP
  | @remove reqId batch i hremoved =>
    have hphase : r.run.phase ≠ .swapping := by
      rcases hallowed with hphase | hphase
      · rw [hphase]
        nofun
      · rw [hphase]
        nofun
    obtain ⟨hwell, hfree, -⟩ := h.ordered.removing hallowed
    obtain ⟨-, -, -, hadded, hmoved⟩ := hfree.removedAt h.ordered.indexed hwell hremoved
    have hnil := h.noMoves hphase
    apply h.ofRun hordered
    · exact h.book.removedAt h.ordered.indexed hwell hfree hnil hremoved
    · intro _
      exact hmoved.trans hnil
    · intro β value blank col htracks
      exact htracks.removedAt h.ordered.indexed hwell hfree hremoved
    · exact hremoved.config.maxNumReqs
    · show ∀ a ∈ batch.batchUpdateBuilder.added, _
      rw [hadded]
      exact h.keepsMinP
  | @add request batch hadded =>
    obtain ⟨hphase, hnew, -⟩ := id hallowed
    obtain ⟨params, hparams⟩ := h.params hallowed
    obtain ⟨hwell, hfree⟩ := h.ordered.books.freeListed hphase
    obtain ⟨-, -, -, -, -, hlog, hmoved⟩ := hfree.next hwell
    have hnil := h.noMoves hphase
    apply h.ofRun hordered
    · exact h.book.addedAt hwell hfree hnil hadded
    · intro _
      rw [hadded.builder]
      exact hmoved.trans hnil
    · intro β value blank col htracks
      apply htracks.addedAt hwell hfree hnil hadded _ hparams
      intro k hk
      rw [(h.ordered.indexed _ k).mpr hk] at hnew
      cases hnew
    · exact hadded.config.maxNumReqs
    · intro a ha
      have ha' : a ∈ (r.run.batch.registered request).added := hadded.builder ▸ ha
      rcases mem_registered ha' with hmem | ⟨params', hparams', rfl⟩
      · rw [hlog] at hmem
        exact h.keepsMinP a hmem
      · constructor
        · exact hmeets params' hparams'
        · intro hminP
          rw [hminP]
          exact hzero
  | @condense batch hcondensed =>
    obtain ⟨b0, hmoves, htrim⟩ := hcondensed.moves
    have hkept := hmoves.kept ⟨h.ordered.shape.1, h.ordered.shape.2, h.ordered.shape.3⟩
      h.ordered.indexed
    have hadded : batch.batchUpdateBuilder.added = r.run.batch.batchUpdateBuilder.added := by
      rw [htrim.builder, hkept.added]
      exact BatchUpdateBuilder.added_ensureRemovedSorted _
    apply h.ofRun hordered (h.book.condensed hcondensed)
    · exact fun hphase => absurd rfl hphase
    · intro β value blank col htracks
      exact htracks.condensed h.book hcondensed
    · exact htrim.config.maxNumReqs.trans hkept.config.maxNumReqs
    · show ∀ a ∈ batch.batchUpdateBuilder.added, _
      rw [hadded]
      exact h.keepsMinP
  | @swap i j batch hswapped =>
    have hphase : r.run.phase = .swapping := hallowed
    obtain ⟨-, hremoved⟩ := h.ordered.swapping hphase
    apply h.ofRun hordered (h.book.swapped hremoved hswapped)
    · exact fun hne => absurd hphase hne
    · intro β value blank col htracks
      exact htracks.swapped h.book.generation hremoved hswapped
    · exact hswapped.config.maxNumReqs
    · show ∀ a ∈ batch.batchUpdateBuilder.added, _
      rw [hswapped.moved h.book.generation]
      exact h.keepsMinP
  | refresh => exact absurd rfl hop
  | @update reqId u batch hupdate hsame hshape =>
    apply h.ofRun hordered (h.book.same hsame)
    · intro hphase
      rw [hsame.batchUpdateBuilder]
      exact h.noMoves hphase
    · intro β value blank col htracks
      exact htracks.same hsame
    · exact hsame.config.maxNumReqs
    · show ∀ a ∈ batch.batchUpdateBuilder.added, _
      rw [hsame.batchUpdateBuilder]
      exact h.keepsMinP

/-- What the processors' states are, computed from the batch. -/
structure UpToDate (procs : Processors T) (r : ReplayRun E G T) : Prop where
  reqEntries : ∀ i, r.reqEntries.get? i = slotValue procs.newState none r.run.batch r.run.requests i
  minPCpu : ∀ i, r.minP.minPCpu i =
    slotValue (minPValue procs.float32) 0 r.run.batch r.run.requests i
  minPCount : r.minP.minPCount = nonzero r.run.batch.maxNumReqs r.minP.minPCpu

/-- At the end of a step both processors have caught up. -/
theorem Follows.refresh (h : Follows procs r) (hphase : r.run.phase = .swapping)
    (hstep : r.step procs .refresh = .ok r') : UpToDate procs r' ∧ r'.minP.Counted r'.run.batch.maxNumReqs := by
  obtain ⟨-, hremoved⟩ := h.ordered.swapping hphase
  have hgeneration := h.book.generation
  have hbatch : r'.run.batch = { r.run.batch with batchUpdateBuilder := {} } ∧
      r'.run.requests = r.run.requests := by
    cases hstep
    exact ⟨refreshMetadata_snd _, rfl⟩
  have hmax : r'.run.batch.maxNumReqs = r.run.batch.maxNumReqs := by
    rw [hbatch.1]
  have hslot : ∀ {β : Type} (value : RequestValue β) (blank : β) (i : Nat),
      slotValue value blank r'.run.batch r'.run.requests i =
        slotValue value blank r.run.batch r.run.requests i := by
    intro β value blank i
    rw [hbatch.1, hbatch.2]
    rfl
  suffices hstates : (∀ i, r'.reqEntries.get? i =
        slotValue procs.newState none r.run.batch r.run.requests i) ∧
      (∀ i, r'.minP.minPCpu i =
        slotValue (minPValue procs.float32) 0 r.run.batch r.run.requests i) ∧
      r'.minP.Counted r.run.batch.maxNumReqs by
    obtain ⟨hentries, hminP, hcounted⟩ := hstates
    rw [← hmax] at hcounted
    refine ⟨⟨?_, ?_, hcounted.count⟩, hcounted⟩
    · intro i
      rw [hslot]
      exact hentries i
    · intro i
      rw [hslot]
      exact hminP i
  cases hstep
  cases hupdate : r.run.batch.refreshMetadata.1 with
  | none => exact ⟨h.entries.unchanged hgeneration hupdate, h.minP.unchanged hgeneration hupdate,
      h.counted⟩
  | some u =>
    obtain ⟨hr, ha, hm⟩ := refreshMetadata_eq_some hgeneration hupdate
    have hne : ∀ m ∈ u.moved, m.direction = .unidirectional → m.fromIndex ≠ m.toIndex := by
      rw [hm]
      exact h.book.distinct
    have hzero : ∀ a ∈ u.added, procs.float32 a.params.minP = 0 ↔ a.params.minP = 0 := by
      rw [ha]
      exact h.keepsMinP
    obtain ⟨hcounted, hcpu⟩ := MinPLogitsProcessor.updateState_spec hzero
      (by rw [ha]; exact h.book.added) (by rw [hr]; exact h.book.removed)
      (by rw [hm]; exact h.book.moved) hne h.counted
    refine ⟨?_, ?_, hcounted⟩
    · intro i
      rw [get?_processDictUpdates procs.truthy _ _ hne]
      exact h.entries.replayed h.book hremoved hupdate i
    · intro i
      rw [hcpu]
      exact h.minP.replayed h.book hremoved hupdate i

theorem Follows.step (h : Follows procs r) (hzero : procs.float32 0 = 0) (hallowed : r.run.Allowed op)
    (hmeets : KeepsMinP procs.float32 op) (hstep : r.step procs op = .ok r') : Follows procs r' := by
  by_cases hop : op = .refresh
  · subst hop
    obtain ⟨hupToDate, hcounted⟩ := h.refresh hallowed hstep
    obtain ⟨run, hrun, hok⟩ := bind_eq_ok.mp hstep
    have hordered : r'.run.Ordered := by
      cases hok
      exact h.ordered.step hallowed (h.ordered.effect hallowed hrun)
    have hbatch : r'.run.batch = r.run.batch.refreshMetadata.2 := by
      cases hstep
      rfl
    have hbuilder : r'.run.batch.batchUpdateBuilder = {} := by
      rw [hbatch, refreshMetadata_snd]
    refine ⟨hordered, ?_, ?_, ?_, ?_, hcounted, ?_⟩
    · rw [hbatch]
      exact h.book.refreshed
    · intro _
      rw [hbuilder]
    · exact Tracks.ofBuilder hbuilder hupToDate.reqEntries
    · exact Tracks.ofBuilder hbuilder hupToDate.minPCpu
    · rw [hbuilder]
      nofun
  · obtain ⟨hrun, hentries, hminP⟩ := step_eq_ok hstep hop
    have hfollows := h.effect hzero hallowed hmeets hop (h.ordered.effect hallowed hrun)
    have hr' : r' = { r with run := r'.run } := by
      rw [← hentries, ← hminP]
    rw [hr']
    exact hfollows

variable {maxNumReqs vocabSize : Nat} {blockTable : MultiGroupBlockTable}

theorem follows_new (procs : Processors T) : Follows (E := E) (G := G) procs
    { run := { batch := .new false maxNumReqs vocabSize blockTable } } := by
  refine ⟨BatchRun.ordered_new false maxNumReqs vocabSize blockTable, ?_, fun _ => rfl, ?_, ?_, ?_,
    nofun⟩
  · exact ⟨rfl, Nat.zero_le _, nofun, nofun, nofun, nofun, nofun⟩
  · exact fun k _ => rfl
  · exact fun k _ => rfl
  · refine ⟨?_, fun _ _ => rfl⟩
    simp [nonzero]

theorem Reachable.follows (hzero : procs.float32 0 = 0)
    (h : Reachable procs (KeepsMinP procs.float32) (.new false maxNumReqs vocabSize blockTable) r) :
    Follows procs r := by
  induction h with
  | start => exact follows_new procs
  | step h op hallowed hmeets hstep ih => exact ih.step hzero hallowed hmeets hstep

/-- Removals come first in a step, when the removed indices were not yet read. -/
theorem Follows.removeRequest_ok (h : Follows procs r)
    (hallowed : r.run.phase = .idle ∨ r.run.phase = .removing) (reqId : String) :
    ∃ removed, r.run.batch.removeRequest reqId = .ok removed := by
  obtain ⟨-, -, hsorted⟩ := h.ordered.removing hallowed
  unfold removeRequest BatchUpdateBuilder.removedAppend
  rw [hsorted]
  split
  · exact ⟨_, rfl⟩
  · rw [if_neg (by decide)]
    dsimp only
    rw [h.book.generation]
    exact ⟨_, rfl⟩

/-- When no positive min-p is lost in single precision, both processors' states are after every step the
ones computed from the batch, and a request can always be removed at the start of a step. -/
theorem batch_updates_replay (hzero : procs.float32 0 = 0)
    (h : Reachable procs (KeepsMinP procs.float32) (.new false maxNumReqs vocabSize blockTable) r) :
    (r.run.phase = .idle → UpToDate procs r) ∧
      (r.run.phase = .idle ∨ r.run.phase = .removing → ∀ reqId, ∃ removed,
        r.run.batch.removeRequest reqId = .ok removed) := by
  have hfollows := h.follows hzero
  refine ⟨?_, hfollows.removeRequest_ok⟩
  intro hphase
  have hbooks := hfollows.ordered.books
  rw [hphase] at hbooks
  exact ⟨hfollows.entries.ofIdle hbooks.1, hfollows.minP.ofIdle hbooks.1, hfollows.counted.count⟩

/-- Rounding to single precision of powers of two: those from `2 ^ (-150)` down become zero. -/
def flushTiny (x : Rat) : Rat := if x.num.natAbs * 2 ^ 150 ≤ x.den then 0 else x

/-- A processor that keeps the `top_k` of every request, next to the min-p processor. -/
def topKProcessors : Processors Int where
  newState := fun params _ _ => some params.topK
  truthy := fun topK => topK ≠ 0
  float32 := flushTiny

/-- A request with the min-p `2 ^ (-exponent)`. -/
def minPRequest (reqId : String) (exponent : Nat) : CachedRequestState Nat Nat :=
  { reqId, promptTokenIds := some [7], blockIds := [[4]]
    samplingParams := some { minP := mkRat 1 (2 ^ exponent) } }

/-- A request with a tiny min-p takes the slot of one with a larger min-p: the entry becomes zero, and
the count stays. -/
theorem tiny_min_p_stays_counted : ∃ r : ReplayRun Nat Nat Int,
    Reachable topKProcessors (fun _ => True) BatchRun.smallBatch r ∧ r.run.phase = .idle ∧
      ¬ UpToDate topKProcessors r := by
  have h0 : Reachable topKProcessors (fun _ => True) BatchRun.smallBatch _ := .start
  have h1 := h0.step (.add (minPRequest "a" 1)) ⟨nofun, rfl, rfl⟩ trivial rfl
  have h2 := h1.step .condense (fun h => nomatch h) trivial rfl
  have h3 := h2.step .refresh rfl trivial rfl
  have h4 := h3.step (.remove "a") (Or.inl rfl) trivial rfl
  have h5 := h4.step (.add (minPRequest "b" 160)) ⟨nofun, rfl, rfl⟩ trivial rfl
  have h6 := h5.step .condense (fun h => nomatch h) trivial rfl
  have h7 := h6.step .refresh rfl trivial rfl
  refine ⟨_, h7, rfl, ?_⟩
  rintro ⟨-, -, hcount⟩
  revert hcount
  decide

/-- Two requests are added, exchanged, and the one in front leaves. -/
theorem min_p_replayed : ∃ r : ReplayRun Nat Nat Int,
    Reachable topKProcessors (KeepsMinP topKProcessors.float32) BatchRun.smallBatch r ∧
      r.run.batch.reqIds = [some "a"] ∧ UpToDate topKProcessors r := by
  have hkeeps : ∀ reqId, KeepsMinP topKProcessors.float32
      (.add (minPRequest reqId 1) : BatchOp Nat Nat) := by
    intro reqId params hparams
    cases hparams
    decide
  have h0 : Reachable topKProcessors (KeepsMinP topKProcessors.float32) BatchRun.smallBatch _ := .start
  have h1 := h0.step (.add (minPRequest "a" 1)) ⟨nofun, rfl, rfl⟩ (hkeeps _) rfl
  have h2 := h1.step (.add (minPRequest "b" 1)) ⟨nofun, rfl, rfl⟩ (hkeeps _) rfl
  have h3 := h2.step .condense (fun h => nomatch h) trivial rfl
  have h4 := h3.step (.swap 0 1) rfl trivial rfl
  have h5 := h4.step .refresh rfl trivial rfl
  have h6 := h5.step (.remove "b") (Or.inl rfl) trivial rfl
  have h7 := h6.step .condense (fun h => nomatch h) trivial rfl
  have h8 := h7.step .refresh rfl trivial rfl
  exact ⟨_, h8, rfl, (batch_updates_replay (by decide) h8).1 rfl⟩

end ReplayRun

end Yuan.Worker
