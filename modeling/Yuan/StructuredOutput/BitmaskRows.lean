import Yuan.StructuredOutput.StructuredOutputManager

/-!
# The rows that the manager fills

The buffer splits into the rows that are done and the rest, whatever it held before. The loop over the drafts of a
request adds the expected rows to the first part and leaves the grammar ahead by the tokens it accepted; the rollback
takes exactly these back.
-/

namespace Yuan.StructuredOutput

open Yuan.Core

theorem writeRow_append (done rest : List Bitmask) (old row : Bitmask) :
    writeRow (done ++ old :: rest) done.length row = .ok (done ++ row :: rest) := by
  have hlt : done.length < (done ++ old :: rest).length := by simp
  rw [writeRow, if_pos hlt, List.set_append_right _ _ le_rfl, Nat.sub_self, List.set_cons_zero]

namespace StructuredOutputManager

variable {σ β : Type} {manager : StructuredOutputManager σ} {request : Nat → Request β}

/-! ## One request -/

section Drafts

variable {s : FillState σ} {done rest : List Bitmask} {old : Bitmask} {token : Int}

section

variable (hbitmask : s.bitmask = done ++ old :: rest) (hindex : s.cumulativeIndex = done.length)
include hbitmask hindex

theorem fillBitmasks_one :
    manager.fillBitmasks [⟨s.grammar, s.cumulativeIndex, s.applyBitmask⟩] s.bitmask =
      .ok (done ++ s.grammar.maskRow manager.matcher s.applyBitmask :: rest) := by
  rw [fillBitmasks, List.foldlM_cons, hbitmask, hindex, writeRow_append]
  rfl

/-- A token that does not advance the grammar. -/
theorem fillToken_stay (hstay : ((s.applyBitmask && decide (token ≠ -1)) && !s.grammar.isTerminated) = false) :
    manager.fillToken s token = .ok { s with
      applyBitmask := s.applyBitmask && decide (token ≠ -1)
      bitmask := done ++ s.grammar.maskRow manager.matcher s.applyBitmask :: rest
      cumulativeIndex := s.cumulativeIndex + 1 } := by
  rw [fillToken, fillBitmasks_one hbitmask hindex]
  simp only [hstay, Bool.false_eq_true]
  rfl

/-- A token that the grammar accepts. -/
theorem fillToken_advance (hgo : ((s.applyBitmask && decide (token ≠ -1)) && !s.grammar.isTerminated) = true)
    (haccept : (s.grammar.acceptTokens manager.matcher [token]).1 = true) : manager.fillToken s token = .ok {
      grammar := (s.grammar.acceptTokens manager.matcher [token]).2
      applyBitmask := s.applyBitmask && decide (token ≠ -1)
      stateAdvancements := s.stateAdvancements + 1
      cumulativeIndex := s.cumulativeIndex + 1
      bitmask := done ++ s.grammar.maskRow manager.matcher s.applyBitmask :: rest } := by
  rw [fillToken, fillBitmasks_one hbitmask hindex]
  simp only [hgo, haccept, pyAssert_true]
  rfl

end

theorem accepts_of_terminated {m : GrammarMatcher σ} {g : XgrammarGrammar σ} (h : g.isTerminated = true)
    (tokens : List Int) : g.Accepts m tokens := by
  cases tokens with
  | nil => trivial
  | cons token tokens => exact .inr (.inl h)

/-- The loop over the drafts of a request and the padding behind them. -/
theorem foldlM_fillToken {drafts : List Int} (hbitmask : s.bitmask = done ++ rest)
    (hindex : s.cumulativeIndex = done.length) (hfit : drafts.length < rest.length)
    (hvalid : s.applyBitmask = true → s.grammar.Accepts manager.matcher drafts) :
    ∃ s' n, (drafts ++ [-1]).foldlM manager.fillToken s = .ok s' ∧
      s'.bitmask = done ++ expectedRows manager.matcher s.grammar s.applyBitmask drafts ++
        rest.drop (drafts.length + 1) ∧
      s'.cumulativeIndex = done.length + (drafts.length + 1) ∧ s'.stateAdvancements = s.stateAdvancements + n ∧
      XgrammarGrammar.Ahead manager.matcher s.grammar s'.grammar n := by
  induction drafts generalizing s done rest with
  | nil =>
    obtain ⟨old, rest, rfl⟩ := List.exists_cons_of_ne_nil (List.ne_nil_of_length_pos hfit)
    have hstay : ((s.applyBitmask && decide ((-1 : Int) ≠ -1)) && !s.grammar.isTerminated) = false := by simp
    have hrun : ([] ++ [-1] : List Int).foldlM manager.fillToken s = .ok { s with
        applyBitmask := s.applyBitmask && decide ((-1 : Int) ≠ -1)
        bitmask := done ++ s.grammar.maskRow manager.matcher s.applyBitmask :: rest
        cumulativeIndex := s.cumulativeIndex + 1 } := by
      rw [List.nil_append, List.foldlM_cons, fillToken_stay hbitmask hindex hstay]
      rfl
    exact ⟨_, 0, hrun, by simp [expectedRows_nil], by simp [hindex], rfl, .refl _⟩
  | cons token drafts ih =>
    obtain ⟨old, rest, rfl⟩ := List.exists_cons_of_ne_nil (List.ne_nil_of_length_pos (by omega : 0 < rest.length))
    have hfit' : drafts.length < rest.length := by simpa using hfit
    have hlength : (done ++ [s.grammar.maskRow manager.matcher s.applyBitmask]).length = done.length + 1 := by simp
    have hbuffer : done ++ s.grammar.maskRow manager.matcher s.applyBitmask :: rest =
        (done ++ [s.grammar.maskRow manager.matcher s.applyBitmask]) ++ rest := by simp
    -- the rows behind the first one, from the state after it
    have hrows : ∀ g : XgrammarGrammar σ,
        expectedRows manager.matcher g (s.applyBitmask && decide (token ≠ -1)) drafts =
          expectedRows manager.matcher (s.grammar.acceptTokens manager.matcher [token]).2
            (s.applyBitmask && decide (token ≠ -1)) drafts →
        (done ++ [s.grammar.maskRow manager.matcher s.applyBitmask]) ++
            expectedRows manager.matcher g (s.applyBitmask && decide (token ≠ -1)) drafts ++
            rest.drop (drafts.length + 1) =
          done ++ expectedRows manager.matcher s.grammar s.applyBitmask (token :: drafts) ++
            (old :: rest).drop ((token :: drafts).length + 1) := by
      intro g hg
      rw [hg, expectedRows_cons]
      simp
    rw [List.cons_append, List.foldlM_cons]
    cases hgo : ((s.applyBitmask && decide (token ≠ -1)) && !s.grammar.isTerminated) with
    | true =>
      have hparts : (s.applyBitmask = true ∧ token ≠ -1) ∧ s.grammar.isTerminated = false := by simpa using hgo
      have haccept : (s.grammar.acceptTokens manager.matcher [token]).1 = true ∧
          XgrammarGrammar.Accepts manager.matcher (s.grammar.acceptTokens manager.matcher [token]).2 drafts := by
        rcases hvalid hparts.1.1 with hpad | hterm | hok
        · exact absurd hpad hparts.1.2
        · rw [hparts.2] at hterm
          cases hterm
        · exact hok
      rw [fillToken_advance hbitmask hindex hgo haccept.1, ok_bind, hbuffer]
      obtain ⟨s', n, hrun, hbitmask', hindex', hadv, hahead⟩ := @ih
        { grammar := (s.grammar.acceptTokens manager.matcher [token]).2
          applyBitmask := s.applyBitmask && decide (token ≠ -1)
          stateAdvancements := s.stateAdvancements + 1
          cumulativeIndex := s.cumulativeIndex + 1
          bitmask := (done ++ [s.grammar.maskRow manager.matcher s.applyBitmask]) ++ rest }
        (done ++ [s.grammar.maskRow manager.matcher s.applyBitmask]) rest rfl (by simp [hindex]) hfit'
        (fun _ => haccept.2)
      refine ⟨s', n + 1, hrun, hbitmask'.trans (hrows _ rfl), ?_, ?_, hahead.step haccept.1⟩
      · rw [hindex', hlength, List.length_cons]
        omega
      · have hadv : s'.stateAdvancements = s.stateAdvancements + 1 + n := hadv
        omega
    | false =>
      rw [fillToken_stay hbitmask hindex hgo, ok_bind, hbuffer]
      have hvalid' : (s.applyBitmask && decide (token ≠ -1)) = true →
          s.grammar.Accepts manager.matcher drafts := by
        intro happly
        rw [happly, Bool.true_and, Bool.not_eq_false'] at hgo
        exact accepts_of_terminated hgo drafts
      obtain ⟨s', n, hrun, hbitmask', hindex', hadv, hahead⟩ := @ih
        { s with
          applyBitmask := s.applyBitmask && decide (token ≠ -1)
          bitmask := (done ++ [s.grammar.maskRow manager.matcher s.applyBitmask]) ++ rest
          cumulativeIndex := s.cumulativeIndex + 1 }
        (done ++ [s.grammar.maskRow manager.matcher s.applyBitmask]) rest rfl (by simp [hindex]) hfit' hvalid'
      refine ⟨s', n, hrun, hbitmask'.trans (hrows _ ?_), ?_, hadv, hahead⟩
      · cases happly : s.applyBitmask && decide (token ≠ -1) with
        | false => exact expectedRows_false _
        | true =>
          rw [happly, Bool.true_and, Bool.not_eq_false'] at hgo
          rw [XgrammarGrammar.acceptTokens_of_terminated hgo]
      · rw [hindex', hlength, List.length_cons]
        omega

end Drafts

theorem shouldFillBitmask_grammar (r : Request β) (q : StructuredOutputRequest σ) :
    (manager.shouldFillBitmask r q).2.grammar = q.grammar := by
  unfold shouldFillBitmask
  split
  · rfl
  · split
    · rfl
    · split <;> rfl

/-- The rows that a request should get. -/
def requestRows (manager : StructuredOutputManager σ) (request : Nat → Request β)
    (scheduledSpecDecodeTokens : Dict Nat (List Int)) (structured : Nat → StructuredOutputRequest σ) (reqId : Nat) :
    List Bitmask :=
  expectedRows manager.matcher (structured reqId).grammar
    (manager.shouldFillBitmask (request reqId) (structured reqId)).1 (reqTokens scheduledSpecDecodeTokens reqId)

/-- The requests `ids` with their flags set. Their grammars are the same. -/
def setFlags (manager : StructuredOutputManager σ) (request : Nat → Request β) (ids : List Nat)
    (structured : Nat → StructuredOutputRequest σ) (reqId : Nat) : StructuredOutputRequest σ :=
  if reqId ∈ ids then (manager.shouldFillBitmask (request reqId) (structured reqId)).2 else structured reqId

/-- The drafts of the requests, up to padding or the end of a grammar, are accepted where grammars are applied. -/
def ValidDrafts (manager : StructuredOutputManager σ) (request : Nat → Request β)
    (scheduledSpecDecodeTokens : Dict Nat (List Int)) (structured : Nat → StructuredOutputRequest σ)
    (ids : List Nat) : Prop :=
  ∀ reqId ∈ ids, (manager.shouldFillBitmask (request reqId) (structured reqId)).1 = true →
    (structured reqId).grammar.Accepts manager.matcher (reqTokens scheduledSpecDecodeTokens reqId)

variable {scheduledSpecDecodeTokens : Dict Nat (List Int)} {structured : Nat → StructuredOutputRequest σ}
  {done rest : List Bitmask} {ids : List Nat} {reqId : Nat}

theorem setFlags_grammar (reqId : Nat) :
    (manager.setFlags request ids structured reqId).grammar = (structured reqId).grammar := by
  unfold setFlags
  split
  · exact shouldFillBitmask_grammar _ _
  · rfl

theorem requestRows_length : (manager.requestRows request scheduledSpecDecodeTokens structured reqId).length =
    (reqTokens scheduledSpecDecodeTokens reqId).length + 1 := expectedRows_length

/-- Setting the flags of one request and then of others. -/
theorem setFlags_update (hnot : reqId ∉ ids) :
    manager.setFlags request ids
        (Function.update structured reqId (manager.shouldFillBitmask (request reqId) (structured reqId)).2) =
      manager.setFlags request (reqId :: ids) structured := by
  funext id
  by_cases hid : id = reqId
  · subst hid
    simp [setFlags, hnot]
  · simp [setFlags, hid]

theorem fillRequest_eq (hm : manager.matcher.Lawful)
    (hfit : (reqTokens scheduledSpecDecodeTokens reqId).length < rest.length)
    (hvalid : (manager.shouldFillBitmask (request reqId) (structured reqId)).1 = true →
      (structured reqId).grammar.Accepts manager.matcher (reqTokens scheduledSpecDecodeTokens reqId)) :
    manager.fillRequest request scheduledSpecDecodeTokens
        { cumulativeIndex := done.length, bitmask := done ++ rest, structured } reqId =
      .ok {
        cumulativeIndex := (done ++ manager.requestRows request scheduledSpecDecodeTokens structured reqId).length
        bitmask := (done ++ manager.requestRows request scheduledSpecDecodeTokens structured reqId) ++
          rest.drop ((reqTokens scheduledSpecDecodeTokens reqId).length + 1)
        structured := Function.update structured reqId
          (manager.shouldFillBitmask (request reqId) (structured reqId)).2 } := by
  have hgrammar := @shouldFillBitmask_grammar σ β manager (request reqId) (structured reqId)
  obtain ⟨s', n, hrun, hbitmask, hindex, hadv, hahead⟩ := @foldlM_fillToken σ manager
    { grammar := (manager.shouldFillBitmask (request reqId) (structured reqId)).2.grammar
      applyBitmask := (manager.shouldFillBitmask (request reqId) (structured reqId)).1
      cumulativeIndex := done.length
      bitmask := done ++ rest } done rest (reqTokens scheduledSpecDecodeTokens reqId) rfl rfl hfit
    (fun happly => hgrammar ▸ hvalid happly)
  have hback : (if 0 < s'.stateAdvancements then s'.grammar.rollback manager.matcher s'.stateAdvancements
      else s'.grammar) = (manager.shouldFillBitmask (request reqId) (structured reqId)).2.grammar := by
    have hadv : s'.stateAdvancements = n := hadv.trans (Nat.zero_add n)
    rw [hadv]
    split
    · rename_i hpos
      exact hahead.rollback hm hpos
    · rename_i hzero
      exact hahead.same (Nat.eq_zero_of_not_pos hzero)
  rw [hgrammar] at hbitmask
  rw [fillRequest, hrun, ok_bind]
  simp only [hback, hindex, hbitmask, List.length_append, requestRows_length]
  rfl

/-! ## All requests -/

/-- The serial filling, from some row on. -/
theorem foldlM_fillRequest (hm : manager.matcher.Lawful) (hnodup : ids.Nodup)
    (hfit : ((ids.map (manager.requestRows request scheduledSpecDecodeTokens structured)).flatten).length ≤ rest.length)
    (hvalid : manager.ValidDrafts request scheduledSpecDecodeTokens structured ids) :
    ids.foldlM (manager.fillRequest request scheduledSpecDecodeTokens)
        { cumulativeIndex := done.length, bitmask := done ++ rest, structured } =
      .ok {
        cumulativeIndex :=
          (done ++ (ids.map (manager.requestRows request scheduledSpecDecodeTokens structured)).flatten).length
        bitmask := (done ++ (ids.map (manager.requestRows request scheduledSpecDecodeTokens structured)).flatten) ++
          rest.drop ((ids.map (manager.requestRows request scheduledSpecDecodeTokens structured)).flatten).length
        structured := manager.setFlags request ids structured } := by
  induction ids generalizing done rest structured with
  | nil =>
    have hsame : manager.setFlags request [] structured = structured := funext fun id => by simp [setFlags]
    simp [hsame, pure, Except.pure]
  | cons reqId ids ih =>
    obtain ⟨hnot, hnodup⟩ := List.nodup_cons.mp hnodup
    have hothers : ∀ id ∈ ids, Function.update structured reqId
        (manager.shouldFillBitmask (request reqId) (structured reqId)).2 id = structured id := fun id hid =>
      Function.update_of_ne (fun heq : id = reqId => hnot (heq ▸ hid)) _ _
    have hrows : ids.map (manager.requestRows request scheduledSpecDecodeTokens (Function.update structured reqId
        (manager.shouldFillBitmask (request reqId) (structured reqId)).2)) =
        ids.map (manager.requestRows request scheduledSpecDecodeTokens structured) :=
      List.map_congr_left fun id hid => by rw [requestRows, hothers id hid, requestRows]
    rw [List.map_cons, List.flatten_cons, List.length_append, requestRows_length] at hfit
    rw [List.foldlM_cons, fillRequest_eq hm (by omega) (hvalid reqId (by simp)), ok_bind]
    rw [ih hnodup (by rw [hrows, List.length_drop]; omega) fun id hid => by
      rw [hothers id hid]
      exact hvalid id (by simp [hid])]
    have hlength : (manager.requestRows request scheduledSpecDecodeTokens structured reqId ++
        (ids.map (manager.requestRows request scheduledSpecDecodeTokens structured)).flatten).length =
        (reqTokens scheduledSpecDecodeTokens reqId).length + 1 +
          (ids.map (manager.requestRows request scheduledSpecDecodeTokens structured)).flatten.length := by
      rw [List.length_append, requestRows_length]
    rw [hrows, setFlags_update hnot, List.map_cons, List.flatten_cons, List.drop_drop, hlength, List.append_assoc]

/-- The fills that are collected, and the flags. -/
theorem collectFills_eq (hnodup : ids.Nodup) (index : Nat) :
    manager.collectFills request index ids structured =
      ((ids.zipIdx index).map fun p => ⟨(structured p.1).grammar, p.2,
        (manager.shouldFillBitmask (request p.1) (structured p.1)).1⟩, manager.setFlags request ids structured) := by
  induction ids generalizing index structured with
  | nil =>
    rfl
  | cons reqId ids ih =>
    obtain ⟨hnot, hnodup⟩ := List.nodup_cons.mp hnodup
    rw [collectFills, ih hnodup, setFlags_update hnot, shouldFillBitmask_grammar, List.zipIdx_cons]
    refine congrArg (fun fills => (_ :: fills, _)) (List.map_congr_left fun p hp => ?_)
    have hmem : p.1 ∈ ids := List.fst_mem_of_mem_zipIdx hp
    rw [Function.update_of_ne fun heq : p.1 = reqId => hnot (heq ▸ hmem)]

theorem flatten_submitFills (batchSize : Nat) (batch fills : List (Fill σ)) :
    (submitFills batchSize batch fills).flatten = batch ++ fills := by
  induction fills generalizing batch with
  | nil =>
    cases batch with
    | nil => rfl
    | cons fill batch => simp [submitFills]
  | cons fill fills ih =>
    rw [submitFills]
    split
    · rw [List.flatten_cons, ih, List.nil_append, List.append_assoc, List.singleton_append]
    · rw [ih, List.append_assoc, List.singleton_append]

/-- Fills of different rows, in any order. -/
theorem fillBitmasks_spec {fills : List (Fill σ)} {bitmask : List Bitmask} (hnodup : (fills.map (·.index)).Nodup)
    (hbound : ∀ fill ∈ fills, fill.index < bitmask.length) :
    ∃ bitmask', manager.fillBitmasks fills bitmask = .ok bitmask' ∧
      (∀ fill ∈ fills, bitmask'[fill.index]? = some (fill.grammar.maskRow manager.matcher fill.applyBitmask)) ∧
      ∀ x, x ∉ fills.map (·.index) → bitmask'[x]? = bitmask[x]? := by
  induction fills generalizing bitmask with
  | nil => exact ⟨bitmask, rfl, fun _ h => (by cases h), fun _ _ => rfl⟩
  | cons fill fills ih =>
    rw [List.map_cons, List.nodup_cons] at hnodup
    have hwrite : writeRow bitmask fill.index (fill.grammar.maskRow manager.matcher fill.applyBitmask) =
        .ok (bitmask.set fill.index (fill.grammar.maskRow manager.matcher fill.applyBitmask)) := by
      rw [writeRow, if_pos (hbound fill (by simp))]
    obtain ⟨bitmask', hrun, hrows, hothers⟩ := @ih
      (bitmask.set fill.index (fill.grammar.maskRow manager.matcher fill.applyBitmask)) hnodup.2
      fun fill' hfill' => by simpa using hbound fill' (by simp [hfill'])
    refine ⟨bitmask', ?_, fun fill' hfill' => ?_, fun x hx => ?_⟩
    · rw [fillBitmasks, List.foldlM_cons, hwrite]
      exact hrun
    · rcases List.mem_cons.mp hfill' with rfl | hmem
      · rw [hothers _ hnodup.1, List.getElem?_set_self (hbound _ (by simp))]
      · exact hrows fill' hmem
    · rw [List.map_cons, List.mem_cons, not_or] at hx
      rw [hothers x hx.2, List.getElem?_set_ne (Ne.symm hx.1)]

/-- The first rows of the buffer are written. -/
def filledRun (rows bitmask : List Bitmask) (structured : Nat → StructuredOutputRequest σ) : FillRun σ where
  cumulativeIndex := rows.length
  bitmask := rows ++ bitmask.drop rows.length
  structured

/-- The parallel filling of requests without drafts, in any order of the worker threads. -/
theorem parallelFill_eq {bitmask : List Bitmask} (hnodup : ids.Nodup)
    (hdrafts : ∀ reqId ∈ ids, reqTokens scheduledSpecDecodeTokens reqId = []) (hfit : ids.length ≤ bitmask.length) :
    manager.parallelFill request ids bitmask structured =
      .ok (filledRun (ids.map (manager.requestRows request scheduledSpecDecodeTokens structured)).flatten bitmask
        (manager.setFlags request ids structured)) := by
  let row := fun reqId => (structured reqId).grammar.maskRow manager.matcher
    (manager.shouldFillBitmask (request reqId) (structured reqId)).1
  have hflatten : (ids.map (manager.requestRows request scheduledSpecDecodeTokens structured)).flatten =
      ids.map row := by
    have hsingle : ids.map (manager.requestRows request scheduledSpecDecodeTokens structured) =
        ids.map fun reqId => [row reqId] :=
      List.map_congr_left fun reqId hid => by rw [requestRows, hdrafts reqId hid, expectedRows_nil]
    rw [hsingle]
    exact List.map_eq_flatMap.symm
  have hperm : (manager.interleave (submitFills manager.fillBitmaskParallelBatchSize []
      (manager.collectFills request 0 ids structured).1).flatten).Perm
      (manager.collectFills request 0 ids structured).1 := by
    rw [flatten_submitFills]
    exact manager.interleave_perm _
  have hindices : (manager.collectFills request 0 ids structured).1.map (·.index) = List.range ids.length := by
    rw [collectFills_eq hnodup, List.map_map, List.range_eq_range', ← List.zipIdx_map_snd 0 ids]
    rfl
  obtain ⟨bitmask', hrun, hrows, hothers⟩ := @fillBitmasks_spec σ manager _ bitmask
    ((hperm.map (·.index)).nodup_iff.mpr (hindices ▸ List.nodup_range))
    (fun fill hfill => by
      have hmem := List.mem_map_of_mem (f := (·.index)) (hperm.mem_iff.mp hfill)
      rw [hindices, List.mem_range] at hmem
      exact hmem.trans_le hfit)
  have hbitmask : bitmask' = ids.map row ++ bitmask.drop ids.length := by
    apply List.ext_getElem?
    intro x
    by_cases hx : x < ids.length
    · have hmem : (⟨(structured ids[x]).grammar, x,
          (manager.shouldFillBitmask (request ids[x]) (structured ids[x])).1⟩ : Fill σ) ∈
          manager.interleave (submitFills manager.fillBitmaskParallelBatchSize []
            (manager.collectFills request 0 ids structured).1).flatten := by
        rw [hperm.mem_iff, collectFills_eq hnodup]
        refine List.mem_map.mpr ⟨(ids[x], x), ?_, rfl⟩
        rw [List.mem_zipIdx_iff_getElem?]
        exact List.getElem?_eq_getElem hx
      rw [hrows _ hmem, List.getElem?_append_left (by simpa using hx), List.getElem?_map,
        List.getElem?_eq_getElem hx]
      rfl
    · have hnot : x ∉ (manager.interleave (submitFills manager.fillBitmaskParallelBatchSize []
          (manager.collectFills request 0 ids structured).1).flatten).map (·.index) := by
        rw [(hperm.map _).mem_iff, hindices, List.mem_range]
        exact hx
      rw [hothers x hnot, List.getElem?_append_right (by simpa using hx), List.length_map, List.getElem?_drop,
        Nat.add_sub_cancel' (not_lt.mp hx)]
  rw [parallelFill, hrun, ok_bind, filledRun, hflatten, hbitmask, List.length_map, collectFills_eq hnodup]
  rfl

/-- The rows of the scheduled requests fit the buffer. -/
structure Fits (manager : StructuredOutputManager σ) (scheduledSpecDecodeTokens : Dict Nat (List Int))
    (ids : List Nat) (state : MaskState σ) : Prop where
  numSeqs : ids.length ≤ manager.maxNumSeqs
  numDrafts : ∀ reqId ∈ ids,
    (reqTokens scheduledSpecDecodeTokens reqId).length ≤ manager.numSpeculativeTokens.getD 0
  allocated : ∀ bitmask, state.grammarBitmask = some bitmask → bitmask.length = manager.numRows

theorem Fits.rows_length {state : MaskState σ} (h : manager.Fits scheduledSpecDecodeTokens ids state) :
    (ids.map (manager.requestRows request scheduledSpecDecodeTokens structured)).flatten.length ≤ manager.numRows := by
  have hsum : (ids.map (manager.requestRows request scheduledSpecDecodeTokens structured)).flatten.length ≤
      ids.length * (1 + manager.numSpeculativeTokens.getD 0) := by
    have hdrafts := h.numDrafts
    clear h
    induction ids with
    | nil => simp
    | cons reqId ids ih =>
      have hrest := ih fun id hid => hdrafts id (by simp [hid])
      have hfirst := hdrafts reqId (by simp)
      rw [List.map_cons, List.flatten_cons, List.length_append, requestRows_length, List.length_cons, Nat.add_mul]
      omega
  exact hsum.trans (Nat.mul_le_mul_right _ h.numSeqs)

/-- Both fillings write the same rows. -/
theorem fillRows_eq (hm : manager.matcher.Lawful) {state : MaskState σ} {bitmask : List Bitmask} (hnodup : ids.Nodup)
    (hfits : manager.Fits scheduledSpecDecodeTokens ids state)
    (hvalid : manager.ValidDrafts request scheduledSpecDecodeTokens structured ids)
    (hlength : bitmask.length = manager.numRows) :
    manager.fillRows request ids scheduledSpecDecodeTokens bitmask structured =
      .ok (filledRun (ids.map (manager.requestRows request scheduledSpecDecodeTokens structured)).flatten bitmask
        (manager.setFlags request ids structured)) := by
  unfold fillRows
  split
  · rename_i h
    refine parallelFill_eq hnodup (fun reqId hid => List.eq_nil_of_length_eq_zero ?_) ?_
    · exact Nat.le_zero.mp (h.2 ▸ hfits.numDrafts reqId hid)
    · rw [hlength, numRows, h.2, Nat.add_zero, Nat.mul_one]
      exact hfits.numSeqs
  · have hrows : (ids.map (manager.requestRows request scheduledSpecDecodeTokens structured)).flatten.length ≤
        bitmask.length := by
      rw [hlength]
      exact hfits.rows_length
    exact @foldlM_fillRequest σ β manager request scheduledSpecDecodeTokens structured [] bitmask ids hm hnodup hrows
      hvalid

/-- `grammar_bitmask` gives the rows of the requests, one request after the other. -/
theorem grammarBitmask_eq (hm : manager.matcher.Lawful) {state : MaskState σ} (hids : ids ≠ []) (hnodup : ids.Nodup)
    (hfits : manager.Fits scheduledSpecDecodeTokens ids state)
    (hvalid : manager.ValidDrafts request scheduledSpecDecodeTokens state.structured ids) :
    ∃ bitmask, manager.grammarBitmask request ids scheduledSpecDecodeTokens state =
      .ok (some (ids.map (manager.requestRows request scheduledSpecDecodeTokens state.structured)).flatten,
        { grammarBitmask := some bitmask, structured := manager.setFlags request ids state.structured }) ∧
      bitmask.length = manager.numRows := by
  have hlength : (state.grammarBitmask.getD (List.replicate manager.numRows fullMask)).length = manager.numRows := by
    cases hstate : state.grammarBitmask with
    | none => rw [Option.getD_none, List.length_replicate]
    | some bitmask => exact hfits.allocated bitmask hstate
  have hfill := fillRows_eq hm hnodup hfits hvalid hlength
  have hrows : (ids.map (manager.requestRows request scheduledSpecDecodeTokens state.structured)).flatten.length ≤
      manager.numRows := hfits.rows_length
  have htake : ∀ rows rest : List Bitmask,
      (if rows.length < (rows ++ rest).length then (rows ++ rest).take rows.length else rows ++ rest) = rows := by
    intro rows rest
    split
    · exact List.take_left
    · rename_i h
      have hnil : rest = [] := by
        rw [List.length_append] at h
        exact List.eq_nil_of_length_eq_zero (by omega)
      rw [hnil, List.append_nil]
  rw [grammarBitmask, if_neg (by simpa using hids)]
  simp only [hfill, ok_bind, filledRun, htake]
  generalize state.grammarBitmask.getD (List.replicate manager.numRows fullMask) = buffer at hlength
  refine ⟨_, rfl, ?_⟩
  rw [List.length_append, List.length_drop]
  omega

end StructuredOutputManager
end Yuan.StructuredOutput
