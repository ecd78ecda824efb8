import Yuan.SharedMemory.MessageQueue

/-!
# Every reader gets every message

Message `m` lies in chunk `m % max_chunks`. The last messages, as many as there are chunks, are all in
their chunks, with the read flags of those readers set that have dequeued them. Only the chunk that the
writer is at may be in between; once the writer has decided to use it, every reader has read the
message that was in it.
-/

namespace Yuan.SharedMemory

variable {Obj : Type} {params : QueueParams Obj}

/-- Messages of one lap lie in different chunks. -/
theorem eq_of_mod_eq {chunks m m' : Nat} (h : m % chunks = m' % chunks) (hle : m ≤ m')
    (hlap : m' < m + chunks) : m = m' := by
  have hmod : (m' - m) % chunks = 0 := Nat.sub_mod_eq_zero_of_mod_eq h.symm
  have hzero := Nat.eq_zero_of_dvd_of_lt (Nat.dvd_of_mod_eq_zero hmod) (by omega)
  omega

theorem mod_ne_of_lap {chunks m m' : Nat} (hlt : m < m') (hlap : m' < m + chunks) : m % chunks ≠ m' % chunks := by
  intro h
  have := eq_of_mod_eq h (Nat.le_of_lt hlt) hlap
  omega

/-- A prefix grows by the element behind it. -/
theorem prefix_concat {l l' : List Obj} {obj : Obj} (h : l <+: l') (hnext : l'[l.length]? = some obj) :
    l ++ [obj] <+: l' := by
  obtain ⟨rest, rfl⟩ := h
  rw [List.getElem?_append_right (Nat.le_refl _), Nat.sub_self] at hnext
  cases rest with
  | nil => cases hnext
  | cons head rest =>
    cases hnext
    exact ⟨rest, by simp⟩

/-! ## The ring -/

section Ring

variable (params : QueueParams Obj) (b : ShmRingBuffer) (enqueued : List Obj) (count : Nat → Nat)

/-- Message `m` is in its chunk. -/
def Shows (m : Nat) : Prop :=
  ∃ obj, enqueued[m]? = some obj ∧
    readMessage (b.data (m % params.maxChunks)) = some (params.pickle.allBuffers obj)

/-- Reader `rank` has dequeued the message in the chunk that the next message goes to. -/
def Passed (rank : Nat) : Prop := enqueued.length < count rank + params.maxChunks

instance (rank : Nat) : Decidable (Passed params enqueued count rank) := by
  unfold Passed
  infer_instance

/-- The read flag of reader `rank` at that chunk. -/
def oldFlag (rank : Nat) : Bool :=
  decide (params.maxChunks ≤ enqueued.length ∧ Passed params enqueued count rank)

/-- The chunk that the next message goes to, before the writer decides to use it. -/
structure Settled : Prop where
  flags : ∀ rank, rank < params.nReader →
    b.readFlag (enqueued.length % params.maxChunks) rank = oldFlag params enqueued count rank
  shows_old : b.writtenFlag (enqueued.length % params.maxChunks) = true →
    params.maxChunks ≤ enqueued.length ∧
      Shows params b enqueued (enqueued.length - params.maxChunks)
  passed : b.writtenFlag (enqueued.length % params.maxChunks) = false →
    ∀ rank, rank < params.nReader → Passed params enqueued count rank

/-- That chunk, in each phase of the writer. -/
def WriterOk : WriterPhase Obj → Prop
  | .idle => Settled params b enqueued count
  | .summing obj flag readCount =>
    Settled params b enqueued count ∧ Fits params.pickle params.maxChunkBytes obj ∧
      flag ≤ params.nReader ∧ readCount ≤ flag ∧ (readCount = flag → ∀ rank, rank < flag →
        b.readFlag (enqueued.length % params.maxChunks) rank = true)
  | .claiming obj =>
    Settled params b enqueued count ∧ Fits params.pickle params.maxChunkBytes obj ∧
      ∀ rank, rank < params.nReader → Passed params enqueued count rank
  | .writing obj =>
    Fits params.pickle params.maxChunkBytes obj ∧
      b.writtenFlag (enqueued.length % params.maxChunks) = false ∧
      (∀ rank, rank < params.nReader → Passed params enqueued count rank) ∧
      ∀ rank, rank < params.nReader →
        b.readFlag (enqueued.length % params.maxChunks) rank = oldFlag params enqueued count rank
  | .resetting obj flag =>
    readMessage (b.data (enqueued.length % params.maxChunks)) = some (params.pickle.allBuffers obj) ∧
      b.writtenFlag (enqueued.length % params.maxChunks) = false ∧
      (∀ rank, rank < params.nReader → Passed params enqueued count rank) ∧
      flag ≤ params.nReader ∧
      ∀ rank, rank < params.nReader → b.readFlag (enqueued.length % params.maxChunks) rank =
        if rank < flag then false else oldFlag params enqueued count rank

/-- The ring, when `count rank` messages were dequeued by reader `rank`. -/
structure RingOk (writer : WriterPhase Obj) : Prop where
  count_le : ∀ rank, rank < params.nReader → count rank ≤ enqueued.length
  lap : ∀ rank, rank < params.nReader → enqueued.length ≤ count rank + params.maxChunks
  length : ∀ idx, (b.data idx).length = params.maxChunkBytes
  fresh : ∀ idx, idx < params.maxChunks → enqueued.length < idx →
    b.writtenFlag idx = false ∧ ∀ rank, rank < params.nReader → b.readFlag idx rank = false
  live : ∀ m, m < enqueued.length → enqueued.length < m + params.maxChunks →
    b.writtenFlag (m % params.maxChunks) = true ∧ Shows params b enqueued m ∧
      ∀ rank, rank < params.nReader →
        b.readFlag (m % params.maxChunks) rank = decide (m < count rank)
  writer : WriterOk params b enqueued count writer

/-- A reader that has dequeued `numRead` messages, in each of its phases. -/
def PhaseOk (numRead : Nat) : ReaderPhase Obj → Prop
  | .idle => True
  | .polling => True
  | .sawReadFlag true => True
  | .sawReadFlag false =>
    numRead < enqueued.length ∨ b.writtenFlag (numRead % params.maxChunks) = false
  | .reading => numRead < enqueued.length
  | .marking obj => ∃ value, obj = some value ∧ enqueued[numRead]? = some value
  | .receiving => False

structure ReaderOk (reader : Reader Obj) : Prop where
  idx : reader.currentIdx = reader.dequeued.length % params.maxChunks
  dequeued : reader.dequeued <+: enqueued
  phase : PhaseOk params b enqueued reader.dequeued.length reader.phase

end Ring

namespace RingOk

variable {b : ShmRingBuffer} {enqueued : List Obj} {count : Nat → Nat} {writer : WriterPhase Obj}
  {rank : Nat}

section

variable (h : RingOk params b enqueued count writer)
include h

/-- While some reader has not read the message in it, the writer has not touched its chunk. -/
theorem settled (hrank : rank < params.nReader) (hnot : ¬ Passed params enqueued count rank) :
    Settled params b enqueued count := by
  have hwriter := h.writer
  cases writer with
  | idle => exact hwriter
  | summing obj flag readCount => exact hwriter.1
  | claiming obj => exact hwriter.1
  | writing obj => exact absurd (hwriter.2.2.1 rank hrank) hnot
  | resetting obj flag => exact absurd (hwriter.2.2.1 rank hrank) hnot

/-- A message that a reader has not dequeued is in its chunk, with the reader's flag not set. -/
theorem readable (hrank : rank < params.nReader) (hlt : count rank < enqueued.length) :
    b.writtenFlag (count rank % params.maxChunks) = true ∧ Shows params b enqueued (count rank) ∧
      b.readFlag (count rank % params.maxChunks) rank = false := by
  have hlap := h.lap rank hrank
  rcases Nat.lt_or_ge enqueued.length (count rank + params.maxChunks) with hpassed | hnot
  · obtain ⟨hwritten, hshows, hflags⟩ := h.live _ hlt hpassed
    refine ⟨hwritten, hshows, ?_⟩
    rw [hflags rank hrank]
    simp
  · -- the message lies in the chunk that the writer waits for
    have heq : enqueued.length = count rank + params.maxChunks := by omega
    have hnotPassed : ¬ Passed params enqueued count rank := Nat.not_lt.mpr hnot
    have hsettled := h.settled hrank hnotPassed
    have hidx : enqueued.length % params.maxChunks = count rank % params.maxChunks := by
      rw [heq, Nat.add_mod_right]
    have hwritten : b.writtenFlag (enqueued.length % params.maxChunks) = true := by
      by_contra hfalse
      exact hnotPassed (hsettled.passed (by simpa using hfalse) rank hrank)
    obtain ⟨-, hshows⟩ := hsettled.shows_old hwritten
    have hflag := hsettled.flags rank hrank
    rw [hidx] at hwritten hflag
    have hold : oldFlag params enqueued count rank = false := by
      rw [oldFlag, decide_eq_false_iff_not]
      exact fun hboth => hnotPassed hboth.2
    refine ⟨hwritten, ?_, hflag.trans hold⟩
    rwa [show enqueued.length - params.maxChunks = count rank by omega] at hshows

/-- A reader that is up to date sees its flag reset only while the chunk is not written. -/
theorem quiet (hrank : rank < params.nReader) (heq : count rank = enqueued.length)
    (hflag : b.readFlag (count rank % params.maxChunks) rank = false) :
    b.writtenFlag (count rank % params.maxChunks) = false := by
  have hpos := params.maxChunks_pos
  have hwriter := h.writer
  rw [heq] at hflag ⊢
  have hsettled : Settled params b enqueued count →
      b.writtenFlag (enqueued.length % params.maxChunks) = false := by
    intro hs
    by_contra htrue
    have hlap := (hs.shows_old (by simpa using htrue)).1
    rw [hs.flags rank hrank, oldFlag, decide_eq_false_iff_not] at hflag
    apply hflag
    unfold Passed
    omega
  cases writer with
  | idle => exact hsettled hwriter
  | summing obj flag readCount => exact hsettled hwriter.1
  | claiming obj => exact hsettled hwriter.1
  | writing obj => exact hwriter.2.1
  | resetting obj flag => exact hwriter.2.1

/-! ## Steps of the writer -/

/-- Only the chunk that the next message goes to changes. -/
theorem replace {b' : ShmRingBuffer} {writer' : WriterPhase Obj}
    (haway : ∀ idx, idx ≠ enqueued.length % params.maxChunks → b'.data idx = b.data idx ∧
      b'.writtenFlag idx = b.writtenFlag idx ∧ b'.readFlag idx = b.readFlag idx)
    (hlength : (b'.data (enqueued.length % params.maxChunks)).length = params.maxChunkBytes)
    (hwriter : WriterOk params b' enqueued count writer') : RingOk params b' enqueued count writer' := by
  refine ⟨h.count_le, h.lap, ?_, ?_, ?_, hwriter⟩
  · intro idx
    by_cases heq : idx = enqueued.length % params.maxChunks
    · rw [heq]
      exact hlength
    · rw [(haway idx heq).1]
      exact h.length idx
  · intro idx hidx hlt
    have hne : idx ≠ enqueued.length % params.maxChunks := by
      rw [Nat.mod_eq_of_lt (by omega)]
      omega
    obtain ⟨-, hwritten, hread⟩ := haway idx hne
    rw [hwritten, hread]
    exact h.fresh idx hidx hlt
  · intro m hm hlap
    obtain ⟨hdata, hwritten, hread⟩ := haway _ (mod_ne_of_lap hm hlap)
    obtain ⟨hold, hshows, hflags⟩ := h.live m hm hlap
    unfold Shows at hshows ⊢
    rw [hdata, hwritten, hread]
    exact ⟨hold, hshows, hflags⟩

end

variable {obj : Obj} {flag readCount : Nat}

section

variable (h : RingOk params b enqueued count (.summing obj flag readCount))
include h

theorem sum (hlt : flag < params.nReader) : RingOk params b enqueued count (.summing obj (flag + 1)
      (readCount + (b.readFlag (enqueued.length % params.maxChunks) flag).toNat)) := by
  refine h.replace (fun _ _ => ⟨rfl, rfl, rfl⟩) (h.length _) ?_
  obtain ⟨hsettled, hfits, -, hle, hall⟩ := h.writer
  have hbit := Bool.toNat_le (b.readFlag (enqueued.length % params.maxChunks) flag)
  refine ⟨hsettled, hfits, hlt, by omega, ?_⟩
  intro heq rank hrank
  rcases Nat.lt_succ_iff_lt_or_eq.mp hrank with hrank | rfl
  · exact hall (by omega) rank hrank
  · have hone : (b.readFlag (enqueued.length % params.maxChunks) rank).toNat = 1 := by omega
    simpa using hone

theorem sumAgain : RingOk params b enqueued count (.summing obj 0 0) := by
  refine h.replace (fun _ _ => ⟨rfl, rfl, rfl⟩) (h.length _) ?_
  obtain ⟨hsettled, hfits, -⟩ := h.writer
  refine ⟨hsettled, hfits, Nat.zero_le _, Nat.le_refl _, ?_⟩
  intro _ rank hrank
  exact absurd hrank (Nat.not_lt_zero _)

theorem timeout : RingOk params b enqueued count .idle :=
  h.replace (fun _ _ => ⟨rfl, rfl, rfl⟩) (h.length _) h.writer.1

/-- The writer decides: the chunk is not written, or every flag it has read is set. -/
theorem claim (hge : ¬ flag < params.nReader) (hready : ¬ (b.writtenFlag (enqueued.length % params.maxChunks) = true ∧
      readCount ≠ params.nReader)) : RingOk params b enqueued count (.claiming obj) := by
  refine h.replace (fun _ _ => ⟨rfl, rfl, rfl⟩) (h.length _) ?_
  obtain ⟨hsettled, hfits, hflag, hle, hall⟩ := h.writer
  refine ⟨hsettled, hfits, ?_⟩
  by_cases hwritten : b.writtenFlag (enqueued.length % params.maxChunks) = true
  · have hcount : readCount = params.nReader := by
      by_contra hne
      exact hready ⟨hwritten, hne⟩
    intro rank hrank
    have hset := hall (by omega) rank (by omega)
    rw [hsettled.flags rank hrank, oldFlag, decide_eq_true_iff] at hset
    exact hset.2
  · exact hsettled.passed (by simpa using hwritten)

end

theorem markUnwritten (h : RingOk params b enqueued count (.claiming obj)) :
    RingOk params (b.setWritten (enqueued.length % params.maxChunks) false) enqueued count (.writing obj) := by
  obtain ⟨hsettled, hfits, hpassed⟩ := h.writer
  refine h.replace ?_ (h.length _) ?_
  · intro idx hne
    exact ⟨rfl, Function.update_of_ne hne _ _, rfl⟩
  · exact ⟨hfits, Function.update_self _ _ _, hpassed, hsettled.flags⟩

/-- A chunk write that raises leaves the chunk not written. -/
theorem writeFailed (h : RingOk params b enqueued count (.writing obj)) : RingOk params b enqueued count .idle := by
  obtain ⟨-, hwritten, hpassed, hflags⟩ := h.writer
  refine h.replace (fun _ _ => ⟨rfl, rfl, rfl⟩) (h.length _) ⟨hflags, ?_, fun _ => hpassed⟩
  intro htrue
  rw [hwritten] at htrue
  cases htrue

theorem write (h : RingOk params b enqueued count (.writing obj)) {buf : Bytes}
    (hbuf : writeMessage (b.data (enqueued.length % params.maxChunks)) (params.pickle.allBuffers obj) = .ok buf) :
    RingOk params (b.setData (enqueued.length % params.maxChunks) buf) enqueued count (.resetting obj 0) := by
  obtain ⟨-, hwritten, hpassed, hflags⟩ := h.writer
  obtain ⟨hread, hlen⟩ := readMessage_writeMessage hbuf
  have hself : (b.setData (enqueued.length % params.maxChunks) buf).data
      (enqueued.length % params.maxChunks) = buf := Function.update_self _ _ _
  refine h.replace ?_ ?_ ?_
  · intro idx hne
    exact ⟨Function.update_of_ne hne _ _, rfl, rfl⟩
  · rw [hself, hlen]
    exact h.length _
  · refine ⟨?_, hwritten, hpassed, Nat.zero_le _, ?_⟩
    · rw [hself]
      exact hread
    · intro rank hrank
      exact hflags rank hrank

theorem reset (h : RingOk params b enqueued count (.resetting obj flag)) (hlt : flag < params.nReader) :
    RingOk params (b.setRead (enqueued.length % params.maxChunks) flag false) enqueued count
      (.resetting obj (flag + 1)) := by
  obtain ⟨hread, hwritten, hpassed, -, hflags⟩ := h.writer
  refine h.replace ?_ (h.length _) ⟨hread, hwritten, hpassed, hlt, ?_⟩
  · intro idx hne
    exact ⟨rfl, rfl, Function.update_of_ne hne _ _⟩
  · intro rank hrank
    show Function.update b.readFlag _ _ _ rank = _
    rw [Function.update_self]
    rcases eq_or_ne rank flag with rfl | hne
    · rw [Function.update_self, if_pos (Nat.lt_succ_self _)]
    · rw [Function.update_of_ne hne, hflags rank hrank]
      by_cases hbefore : rank < flag
      · rw [if_pos hbefore, if_pos (by omega)]
      · rw [if_neg hbefore, if_neg (by omega)]

/-- The written flag publishes the message: it is the newest one, and the chunk behind it is next. -/
theorem publish (h : RingOk params b enqueued count (.resetting obj flag)) (hge : ¬ flag < params.nReader) :
    RingOk params (b.setWritten (enqueued.length % params.maxChunks) true) (enqueued ++ [obj]) count .idle := by
  have hpos := params.maxChunks_pos
  obtain ⟨hread, hwritten, hpassed, hflag, hflags⟩ := h.writer
  have hlen : (enqueued ++ [obj]).length = enqueued.length + 1 := by
    rw [List.length_append, List.length_singleton]
  -- each message of the lap is in its chunk, the new one included
  have hlive : ∀ m, m < enqueued.length + 1 → enqueued.length + 1 ≤ m + params.maxChunks →
      (b.setWritten (enqueued.length % params.maxChunks) true).writtenFlag (m % params.maxChunks) = true ∧
        Shows params (b.setWritten (enqueued.length % params.maxChunks) true) (enqueued ++ [obj]) m ∧
        ∀ rank, rank < params.nReader →
          b.readFlag (m % params.maxChunks) rank = decide (m < count rank) := by
    intro m hm hlap
    rcases Nat.lt_succ_iff_lt_or_eq.mp hm with hold | rfl
    · obtain ⟨hwrittenOld, ⟨value, hvalue, hshows⟩, hflagsOld⟩ := h.live m hold (by omega)
      refine ⟨?_, ⟨value, ?_, hshows⟩, hflagsOld⟩
      · exact (Function.update_of_ne (mod_ne_of_lap hold (by omega)) _ _).trans hwrittenOld
      · rw [List.getElem?_append_left hold]
        exact hvalue
    · refine ⟨Function.update_self _ _ _, ⟨obj, List.getElem?_concat_length, hread⟩, ?_⟩
      intro rank hrank
      rw [hflags rank hrank, if_pos (by omega)]
      have := h.count_le rank hrank
      exact (decide_eq_false (by omega)).symm
  refine ⟨?_, ?_, h.length, ?_, ?_, ⟨?_, ?_, ?_⟩⟩
  · intro rank hrank
    have := h.count_le rank hrank
    omega
  · intro rank hrank
    have := hpassed rank hrank
    unfold Passed at this
    omega
  · intro idx hidx hlt
    have hne : idx ≠ enqueued.length % params.maxChunks := by
      rw [Nat.mod_eq_of_lt (by omega)]
      omega
    refine ⟨(Function.update_of_ne hne _ _).trans ?_, ?_⟩
    · exact (h.fresh idx hidx (by omega)).1
    · exact (h.fresh idx hidx (by omega)).2
  · intro m hm hlap
    rw [hlen] at hm hlap
    exact hlive m hm (by omega)
  · intro rank hrank
    show b.readFlag _ rank = _
    have hnew : oldFlag params (enqueued ++ [obj]) count rank =
        decide (params.maxChunks ≤ enqueued.length + 1 ∧
          enqueued.length + 1 < count rank + params.maxChunks) := by
      rw [oldFlag, decide_eq_decide, Passed, hlen]
    rw [hnew, hlen]
    by_cases hfull : params.maxChunks ≤ enqueued.length + 1
    · have hmod : (enqueued.length + 1) % params.maxChunks =
          (enqueued.length + 1 - params.maxChunks) % params.maxChunks := Nat.mod_eq_sub_mod hfull
      obtain ⟨-, -, hold⟩ := hlive (enqueued.length + 1 - params.maxChunks) (by omega) (by omega)
      rw [hmod, hold rank hrank, decide_eq_decide]
      omega
    · rw [Nat.mod_eq_of_lt (by omega), (h.fresh _ (by omega) (Nat.lt_succ_self _)).2 rank hrank]
      exact (decide_eq_false fun hboth => hfull hboth.1).symm
  · intro htrue
    rw [hlen] at htrue ⊢
    by_cases hfull : params.maxChunks ≤ enqueued.length + 1
    · obtain ⟨-, hshows, -⟩ := hlive (enqueued.length + 1 - params.maxChunks) (by omega) (by omega)
      exact ⟨hfull, hshows⟩
    · have hne : enqueued.length + 1 ≠ enqueued.length % params.maxChunks := by
        rw [Nat.mod_eq_of_lt (by omega)]
        omega
      rw [Nat.mod_eq_of_lt (by omega : enqueued.length + 1 < params.maxChunks)] at htrue
      have hfresh : (b.setWritten (enqueued.length % params.maxChunks) true).writtenFlag
          (enqueued.length + 1) = false :=
        (Function.update_of_ne hne _ _).trans
          (h.fresh (enqueued.length + 1) (by omega) (Nat.lt_succ_self _)).1
      rw [hfresh] at htrue
      cases htrue
  · intro hfalse rank hrank
    unfold Passed
    rw [hlen] at hfalse ⊢
    by_cases hfull : params.maxChunks ≤ enqueued.length + 1
    · obtain ⟨htrue, -⟩ := hlive (enqueued.length + 1 - params.maxChunks) (by omega) (by omega)
      rw [Nat.mod_eq_sub_mod hfull, htrue] at hfalse
      cases hfalse
    · omega

/-! ## Steps of the readers -/

/-- Dequeuing a message only adds to what a reader has passed. -/
theorem passed_update {rank' : Nat} (h : Passed params enqueued count rank') :
    Passed params enqueued (Function.update count rank (count rank + 1)) rank' := by
  unfold Passed at h ⊢
  rcases eq_or_ne rank' rank with rfl | hne
  · rw [Function.update_self]
    omega
  · rw [Function.update_of_ne hne]
    exact h

theorem oldFlag_update {rank' : Nat} (h : rank' ≠ rank ∨ Passed params enqueued count rank) :
    oldFlag params enqueued (Function.update count rank (count rank + 1)) rank' =
      oldFlag params enqueued count rank' := by
  rcases eq_or_ne rank' rank with rfl | hne
  · have hpassed := h.resolve_left (fun hne => hne rfl)
    rw [oldFlag, oldFlag, decide_eq_decide]
    exact ⟨fun hboth => ⟨hboth.1, hpassed⟩, fun hboth => ⟨hboth.1, passed_update hpassed⟩⟩
  · rw [oldFlag, oldFlag, decide_eq_decide, Passed, Passed, Function.update_of_ne hne]

/-- The reader's own flag at the writer's chunk, when the message it marks lies there. -/
theorem settled_mark (h : Settled params b enqueued count) (hlt : count rank < enqueued.length)
    (hlap : enqueued.length ≤ count rank + params.maxChunks) :
    Settled params (b.setRead (count rank % params.maxChunks) rank true) enqueued
      (Function.update count rank (count rank + 1)) := by
  refine ⟨?_, h.shows_old, fun hfalse rank' hrank' => passed_update (h.passed hfalse rank' hrank')⟩
  intro rank' hrank'
  have hflag := h.flags rank' hrank'
  show Function.update b.readFlag _ _ _ rank' = _
  rcases Nat.lt_or_ge enqueued.length (count rank + params.maxChunks) with hpassed | hnot
  · rw [Function.update_of_ne (mod_ne_of_lap hlt hpassed).symm, hflag, oldFlag_update (Or.inr hpassed)]
  · have hidx : enqueued.length % params.maxChunks = count rank % params.maxChunks := by
      rw [show enqueued.length = count rank + params.maxChunks by omega, Nat.add_mod_right]
    rw [hidx, Function.update_self]
    rcases eq_or_ne rank' rank with rfl | hne
    · have hpassed : Passed params enqueued (Function.update count rank' (count rank' + 1)) rank' := by
        unfold Passed
        rw [Function.update_self]
        omega
      rw [Function.update_self]
      exact (decide_eq_true ⟨by omega, hpassed⟩).symm
    · rw [Function.update_of_ne hne, oldFlag_update (Or.inl hne), ← hidx, hflag]

/-- Where every reader has passed, the flag is set in another chunk. -/
theorem readFlag_mark (hlt : count rank < enqueued.length) (hpassed : Passed params enqueued count rank) (rank' : Nat) :
    (b.setRead (count rank % params.maxChunks) rank true).readFlag (enqueued.length % params.maxChunks) rank' =
        b.readFlag (enqueued.length % params.maxChunks) rank' := by
  show Function.update b.readFlag _ _ _ rank' = _
  rw [Function.update_of_ne (mod_ne_of_lap hlt hpassed).symm]

theorem mark (h : RingOk params b enqueued count writer) (hrank : rank < params.nReader)
    (hlt : count rank < enqueued.length) :
    RingOk params (b.setRead (count rank % params.maxChunks) rank true) enqueued
      (Function.update count rank (count rank + 1)) writer := by
  have hlap := h.lap rank hrank
  refine ⟨?_, ?_, h.length, ?_, ?_, ?_⟩
  · intro rank' hrank'
    rcases eq_or_ne rank' rank with rfl | hne
    · rw [Function.update_self]
      exact hlt
    · rw [Function.update_of_ne hne]
      exact h.count_le rank' hrank'
  · intro rank' hrank'
    rcases eq_or_ne rank' rank with rfl | hne
    · rw [Function.update_self]
      omega
    · rw [Function.update_of_ne hne]
      exact h.lap rank' hrank'
  · intro idx hidx hfresh
    have hne : idx ≠ count rank % params.maxChunks := by
      rw [Nat.mod_eq_of_lt (by omega)]
      omega
    refine ⟨(h.fresh idx hidx hfresh).1, ?_⟩
    intro rank' hrank'
    show Function.update b.readFlag _ _ _ rank' = _
    rw [Function.update_of_ne hne]
    exact (h.fresh idx hidx hfresh).2 rank' hrank'
  · intro m hm hlive
    obtain ⟨hwritten, hshows, hflags⟩ := h.live m hm hlive
    refine ⟨hwritten, hshows, ?_⟩
    intro rank' hrank'
    show Function.update b.readFlag _ _ _ rank' = _
    by_cases hidx : m % params.maxChunks = count rank % params.maxChunks
    · -- the message in that chunk is the one that is marked
      have hm' : m = count rank := by
        rcases Nat.le_total m (count rank) with hle | hle
        · exact eq_of_mod_eq hidx hle (by omega)
        · exact (eq_of_mod_eq hidx.symm hle (by omega)).symm
      rw [hidx, Function.update_self, hm']
      rcases eq_or_ne rank' rank with rfl | hne
      · rw [Function.update_self, Function.update_self]
        exact (decide_eq_true (Nat.lt_succ_self _)).symm
      · rw [Function.update_of_ne hne, Function.update_of_ne hne, ← hm']
        exact hflags rank' hrank'
    · rw [Function.update_of_ne hidx, hflags rank' hrank', decide_eq_decide]
      rcases eq_or_ne rank' rank with rfl | hne
      · rw [Function.update_self]
        have hne : m ≠ count rank' := fun heq => hidx (by rw [heq])
        omega
      · rw [Function.update_of_ne hne]
  · have hwriter := h.writer
    cases writer with
    | idle => exact settled_mark hwriter hlt hlap
    | summing obj flag readCount =>
      obtain ⟨hsettled, hfits, hflag, hle, hall⟩ := hwriter
      refine ⟨settled_mark hsettled hlt hlap, hfits, hflag, hle, ?_⟩
      intro heq rank' hrank'
      have hset := hall heq rank' hrank'
      show Function.update b.readFlag _ _ _ rank' = true
      by_cases hidx : enqueued.length % params.maxChunks = count rank % params.maxChunks
      · rw [hidx, Function.update_self]
        rcases eq_or_ne rank' rank with rfl | hne
        · rw [Function.update_self]
        · rw [Function.update_of_ne hne, ← hidx]
          exact hset
      · rw [Function.update_of_ne hidx]
        exact hset
    | claiming obj =>
      obtain ⟨hsettled, hfits, hpassed⟩ := hwriter
      exact ⟨settled_mark hsettled hlt hlap, hfits,
        fun rank' hrank' => passed_update (hpassed rank' hrank')⟩
    | writing obj =>
      obtain ⟨hfits, hwritten, hpassed, hflags⟩ := hwriter
      refine ⟨hfits, hwritten, fun rank' hrank' => passed_update (hpassed rank' hrank'), ?_⟩
      intro rank' hrank'
      rw [readFlag_mark hlt (hpassed rank hrank), oldFlag_update (Or.inr (hpassed rank hrank))]
      exact hflags rank' hrank'
    | resetting obj flag =>
      obtain ⟨hread, hwritten, hpassed, hflag, hflags⟩ := hwriter
      refine ⟨hread, hwritten, fun rank' hrank' => passed_update (hpassed rank' hrank'), hflag, ?_⟩
      intro rank' hrank'
      rw [readFlag_mark hlt (hpassed rank hrank), oldFlag_update (Or.inr (hpassed rank hrank))]
      exact hflags rank' hrank'

end RingOk

/-! ## Runs -/

namespace MessageQueue

/-- How many messages a reader has dequeued. -/
def count (q : MessageQueue Obj) (rank : Nat) : Nat := (q.readers rank).dequeued.length

/-- What holds in every reached state. -/
structure Delivering (params : QueueParams Obj) (q : MessageQueue Obj) : Prop where
  ring : RingOk params q.buffer q.enqueued q.count q.writer
  writer_idx : q.currentIdx = q.enqueued.length % params.maxChunks
  readers : ∀ rank, rank < params.nReader → ReaderOk params q.buffer q.enqueued (q.readers rank)

theorem delivering_new (params : QueueParams Obj) : Delivering params (new params) := by
  have hpos := params.maxChunks_pos
  have hring : RingOk params (new params).buffer (new params).enqueued (new params).count
      (new params).writer := by
    refine ⟨fun _ _ => Nat.le_refl _, fun _ _ => Nat.zero_le _, fun _ => List.length_replicate,
      fun _ _ _ => ⟨rfl, fun _ _ => rfl⟩, fun m hm => absurd hm (Nat.not_lt_zero _), ?_⟩
    refine ⟨?_, fun htrue => ?_, fun _ _ _ => ?_⟩
    · intro rank _
      exact (decide_eq_false fun hboth => absurd hboth.1 (Nat.not_le_of_lt hpos)).symm
    · cases htrue
    · show 0 < 0 + params.maxChunks
      omega
  refine ⟨hring, (Nat.zero_mod _).symm, ?_⟩
  intro rank _
  exact ⟨(Nat.zero_mod _).symm, List.prefix_rfl, trivial⟩

theorem count_setReader (q : MessageQueue Obj) (rank : Nat) (reader : Reader Obj) :
    (q.setReader rank reader).count = Function.update q.count rank reader.dequeued.length := by
  funext rank'
  show (Function.update q.readers rank reader rank').dequeued.length = _
  rcases eq_or_ne rank' rank with rfl | hne
  · rw [Function.update_self, Function.update_self]
  · rw [Function.update_of_ne hne, Function.update_of_ne hne]
    rfl

theorem readers_setReader {q : MessageQueue Obj} {rank : Nat} {reader : Reader Obj}
    {P : Nat → Reader Obj → Prop} (hself : P rank reader)
    (hothers : ∀ rank', rank' < params.nReader → P rank' (q.readers rank')) :
    ∀ rank', rank' < params.nReader → P rank' ((q.setReader rank reader).readers rank') := by
  intro rank' hrank'
  show P rank' (Function.update q.readers rank reader rank')
  rcases eq_or_ne rank' rank with rfl | hne
  · rw [Function.update_self]
    exact hself
  · rw [Function.update_of_ne hne]
    exact hothers rank' hrank'

namespace Delivering

variable {q : MessageQueue Obj} {rank : Nat}

section

variable (h : Delivering params q)
include h

/-- A reader goes on without writing to the shared memory. -/
theorem setPhase (hrank : rank < params.nReader) {phase : ReaderPhase Obj}
    (hphase : PhaseOk params q.buffer q.enqueued (q.count rank) phase) :
    Delivering params (q.setReader rank { q.readers rank with phase := phase }) := by
  have hcount : (q.setReader rank { q.readers rank with phase := phase }).count = q.count := by
    rw [count_setReader]
    exact Function.update_eq_self rank q.count
  have hreader := h.readers rank hrank
  refine ⟨?_, h.writer_idx, readers_setReader ⟨hreader.idx, hreader.dequeued, hphase⟩ h.readers⟩
  rw [hcount]
  exact h.ring

/-- Where the chunks seen as not written stay so, and messages are only added, a reader's facts
stay. -/
theorem readers_mono {b : ShmRingBuffer} {enqueued : List Obj} (hadded : q.enqueued <+: enqueued)
    (hwritten : ∀ numRead, numRead ≤ q.enqueued.length → q.buffer.writtenFlag (numRead % params.maxChunks) = false →
        numRead < enqueued.length ∨ b.writtenFlag (numRead % params.maxChunks) = false)
    (hrank : rank < params.nReader) : ReaderOk params b enqueued (q.readers rank) := by
  obtain ⟨hidx, hdequeued, hphase⟩ := h.readers rank hrank
  have hlen := hadded.length_le
  refine ⟨hidx, hdequeued.trans hadded, ?_⟩
  cases hcase : (q.readers rank).phase with
  | idle => trivial
  | polling => trivial
  | sawReadFlag readFlag =>
    cases readFlag with
    | true => trivial
    | false =>
      rw [hcase] at hphase
      rcases hphase with hlt | hfalse
      · exact Or.inl (by omega)
      · exact hwritten _ hdequeued.length_le hfalse
  | reading =>
    rw [hcase] at hphase
    exact Nat.lt_of_lt_of_le hphase hlen
  | marking obj =>
    rw [hcase] at hphase
    obtain ⟨value, hobj, hvalue⟩ := hphase
    have hlt := (List.getElem?_eq_some_iff.mp hvalue).1
    obtain ⟨rest, hrest⟩ := hadded
    refine ⟨value, hobj, ?_⟩
    rw [← hrest, List.getElem?_append_left hlt]
    exact hvalue
  | receiving =>
    rw [hcase] at hphase
    exact hphase

/-- The writer goes on, and the readers see no chunk as written that they saw as not written. -/
theorem setWriter {b : ShmRingBuffer} {writer : WriterPhase Obj} (hring : RingOk params b q.enqueued q.count writer)
    (hwritten : ∀ idx, q.buffer.writtenFlag idx = false → b.writtenFlag idx = false) :
    Delivering params { q with buffer := b, writer := writer } :=
  ⟨hring, h.writer_idx, fun _ hrank =>
    h.readers_mono List.prefix_rfl (fun _ _ hfalse => Or.inr (hwritten _ hfalse)) hrank⟩

theorem writerStep {q' : MessageQueue Obj} (hstep : q.writerStep params = some q') : Delivering params q' := by
  have hring := h.ring
  have hidx := h.writer_idx
  unfold MessageQueue.writerStep at hstep
  cases hwriter : q.writer with
  | idle =>
    rw [hwriter] at hstep
    cases hstep
  | summing obj flag readCount =>
    rw [hwriter] at hstep hring
    dsimp only at hstep
    split at hstep
    case isTrue hlt =>
      cases hstep
      exact h.setWriter (by rw [hidx]; exact hring.sum hlt) fun _ hfalse => hfalse
    case isFalse hge =>
      split at hstep
      case isTrue =>
        cases hstep
        exact h.setWriter hring.sumAgain fun _ hfalse => hfalse
      case isFalse hready =>
        cases hstep
        rw [notReady, hidx] at hready
        exact h.setWriter (hring.claim hge (by simpa using hready)) fun _ hfalse => hfalse
  | claiming obj =>
    rw [hwriter] at hstep hring
    cases hstep
    apply h.setWriter (by rw [hidx]; exact hring.markUnwritten)
    intro idx hfalse
    show Function.update q.buffer.writtenFlag _ _ idx = false
    rcases eq_or_ne idx q.currentIdx with rfl | hne
    · rw [Function.update_self]
    · rw [Function.update_of_ne hne]
      exact hfalse
  | writing obj =>
    rw [hwriter] at hstep hring
    dsimp only at hstep
    split at hstep
    case h_1 =>
      cases hstep
      exact h.setWriter hring.writeFailed fun _ hfalse => hfalse
    case h_2 buf hbuf =>
      cases hstep
      rw [hidx] at hbuf
      exact h.setWriter (by rw [hidx]; exact hring.write hbuf) fun _ hfalse => hfalse
  | resetting obj flag =>
    rw [hwriter] at hstep hring
    dsimp only at hstep
    split at hstep
    case isTrue hlt =>
      cases hstep
      exact h.setWriter (by rw [hidx]; exact hring.reset hlt) fun _ hfalse => hfalse
    case isFalse hge =>
      cases hstep
      have hlen : (q.enqueued ++ [obj]).length = q.enqueued.length + 1 := by
        rw [List.length_append, List.length_singleton]
      refine ⟨?_, ?_, ?_⟩
      · show RingOk params (q.buffer.setWritten q.currentIdx true) _ q.count _
        rw [hidx]
        exact hring.publish hge
      · rw [hlen, hidx, Nat.mod_add_mod]
      · intro rank hrank
        refine h.readers_mono (List.prefix_append _ _) ?_ hrank
        intro numRead hle _
        exact Or.inl (by rw [hlen]; omega)

theorem readerStep (hrank : rank < params.nReader) {q' : MessageQueue Obj}
    (hstep : q.readerStep params rank = some q') : Delivering params q' := by
  have hring := h.ring
  obtain ⟨hidx, hdequeued, hphase⟩ := h.readers rank hrank
  have hle : q.count rank ≤ q.enqueued.length := hdequeued.length_le
  unfold MessageQueue.readerStep at hstep
  dsimp only at hstep
  cases hcase : (q.readers rank).phase with
  | idle =>
    rw [hcase] at hstep
    cases hstep
  | polling =>
    rw [hcase] at hstep
    cases hstep
    apply h.setPhase hrank
    cases hflag : q.buffer.readFlag (q.readers rank).currentIdx rank with
    | true => trivial
    | false =>
      rw [hidx] at hflag
      rcases Nat.lt_or_eq_of_le hle with hlt | heq
      · exact Or.inl hlt
      · exact Or.inr (hring.quiet hrank heq hflag)
  | sawReadFlag readFlag =>
    rw [hcase] at hstep hphase
    dsimp only at hstep
    split at hstep
    case isTrue =>
      cases hstep
      exact h.setPhase hrank trivial
    case isFalse hready =>
      cases hstep
      rw [hidx] at hready
      obtain ⟨hwritten, rfl⟩ : q.buffer.writtenFlag
          ((q.readers rank).dequeued.length % params.maxChunks) = true ∧ readFlag = false := by
        simpa using hready
      apply h.setPhase hrank
      rcases hphase with hlt | hfalse
      · exact hlt
      · rw [hfalse] at hwritten
        cases hwritten
  | reading =>
    rw [hcase] at hstep hphase
    obtain ⟨-, ⟨obj, hobj, hread⟩, -⟩ := hring.readable hrank hphase
    have hread : readMessage (q.buffer.data (q.readers rank).currentIdx) =
        some ((params.pickle.dumps obj).1 :: (params.pickle.dumps obj).2) := by
      rw [hidx]
      exact hread
    rw [hread] at hstep
    dsimp only at hstep
    rw [params.pickle.loads_dumps obj] at hstep
    cases hstep
    have hread : PhaseOk params q.buffer q.enqueued (q.count rank) (.marking (some obj)) :=
      ⟨obj, rfl, hobj⟩
    exact h.setPhase hrank hread
  | marking obj =>
    rw [hcase] at hstep hphase
    obtain ⟨value, rfl, hvalue⟩ := hphase
    cases hstep
    have hlt : q.count rank < q.enqueued.length := (List.getElem?_eq_some_iff.mp hvalue).1
    have hmark := hring.mark hrank hlt
    have hlen : ((q.readers rank).dequeued ++ [value]).length = q.count rank + 1 := by
      rw [List.length_append]
      rfl
    have hnext := prefix_concat hdequeued hvalue
    refine ⟨?_, h.writer_idx, ?_⟩
    · rw [count_setReader]
      rw [hlen, hidx]
      exact hmark
    · apply readers_setReader
      · refine ⟨?_, hnext, trivial⟩
        rw [hlen, hidx, Nat.mod_add_mod]
        rfl
      · intro rank' hrank'
        exact h.readers_mono List.prefix_rfl (fun _ _ hfalse => Or.inr hfalse) hrank'
  | receiving =>
    rw [hcase] at hphase
    exact absurd hphase id

theorem step {op : Op Obj} {q' : MessageQueue Obj} (hstep : step params q op = some q') : Delivering params q' := by
  cases op with
  | enqueue obj =>
    unfold MessageQueue.step at hstep
    dsimp only at hstep
    split at hstep
    case h_1 hidle =>
      split at hstep
      case isTrue hfits =>
        cases hstep
        have hring := h.ring
        rw [hidle] at hring
        refine h.setWriter (hring.replace (fun _ _ => ⟨rfl, rfl, rfl⟩) (hring.length _) ?_)
          fun _ hfalse => hfalse
        exact ⟨hring.writer, hfits, Nat.zero_le _, Nat.le_refl _,
          fun _ rank hrank => absurd hrank (Nat.not_lt_zero _)⟩
      case isFalse => cases hstep
    case h_2 => cases hstep
  | writer => exact h.writerStep hstep
  | writerTimeout =>
    simp only [MessageQueue.step, MessageQueue.writerTimeout] at hstep
    split at hstep
    case h_1 obj flag readCount hwriter =>
      split at hstep
      case isTrue =>
        cases hstep
        have hring := h.ring
        rw [hwriter] at hring
        exact h.setWriter hring.timeout fun _ hfalse => hfalse
      case isFalse => cases hstep
    case h_2 => cases hstep
  | dequeue rank =>
    unfold MessageQueue.step at hstep
    dsimp only at hstep
    split at hstep
    case h_1 =>
      split at hstep
      case isTrue hrank =>
        cases hstep
        exact h.setPhase hrank trivial
      case isFalse => cases hstep
    case h_2 => cases hstep
  | reader rank =>
    unfold MessageQueue.step at hstep
    dsimp only at hstep
    split at hstep
    case isTrue hrank => exact h.readerStep hrank hstep
    case isFalse => cases hstep
  | readerTimeout rank =>
    simp only [MessageQueue.step, MessageQueue.readerTimeout] at hstep
    split at hstep
    case isTrue hrank =>
      split at hstep
      case h_1 =>
        split at hstep
        case isTrue =>
          cases hstep
          exact h.setPhase hrank trivial
        case isFalse => cases hstep
      case h_2 => cases hstep
    case isFalse => cases hstep

end

end Delivering

theorem delivering (params : QueueParams Obj) {q : MessageQueue Obj}
    (h : Reached (step params) (new params) q) : Delivering params q := by
  apply ReachedBy.invariant (P := Delivering params) (delivering_new params) _ h
  intro q op q' hq _ hstep
  exact hq.step hstep

theorem data_writerStep {q q' : MessageQueue Obj} (hstep : q.writerStep params = some q') :
    q'.buffer.data = q.buffer.data ∨ (∃ obj, q.writer = .writing obj) ∧
      ∀ idx, idx ≠ q.currentIdx → q'.buffer.data idx = q.buffer.data idx := by
  unfold writerStep at hstep
  cases hwriter : q.writer with
  | writing obj =>
    refine Or.inr ⟨⟨obj, rfl⟩, ?_⟩
    intro idx hne
    rw [hwriter] at hstep
    dsimp only at hstep
    split at hstep
    case h_1 =>
      cases hstep
      rfl
    case h_2 =>
      cases hstep
      exact Function.update_of_ne hne _ _
  | idle =>
    rw [hwriter] at hstep
    cases hstep
  | claiming obj =>
    rw [hwriter] at hstep
    cases hstep
    exact Or.inl rfl
  | summing obj flag readCount =>
    rw [hwriter] at hstep
    dsimp only at hstep
    left
    split at hstep
    case isTrue =>
      cases hstep
      rfl
    case isFalse =>
      split at hstep <;> cases hstep <;> rfl
  | resetting obj flag =>
    rw [hwriter] at hstep
    dsimp only at hstep
    left
    split at hstep <;> cases hstep <;> rfl

theorem data_readerStep {q q' : MessageQueue Obj} {rank : Nat}
    (hstep : q.readerStep params rank = some q') : q'.buffer.data = q.buffer.data := by
  unfold readerStep at hstep
  dsimp only at hstep
  cases hcase : (q.readers rank).phase with
  | idle =>
    rw [hcase] at hstep
    cases hstep
  | polling =>
    rw [hcase] at hstep
    cases hstep
    rfl
  | sawReadFlag readFlag =>
    rw [hcase] at hstep
    dsimp only at hstep
    split at hstep <;> cases hstep <;> rfl
  | reading =>
    rw [hcase] at hstep
    dsimp only at hstep
    split at hstep
    case h_1 =>
      cases hstep
      rfl
    case h_2 =>
      cases hstep
      rfl
    case h_3 =>
      split at hstep <;> cases hstep <;> rfl
  | marking obj =>
    rw [hcase] at hstep
    cases obj <;> cases hstep <;> rfl
  | receiving =>
    rw [hcase] at hstep
    cases hstep

/-- A step writes to no chunk but the writer's, and there only once the writer has claimed it. -/
theorem data_step {q q' : MessageQueue Obj} {op : Op Obj} (hstep : step params q op = some q') :
    q'.buffer.data = q.buffer.data ∨ (∃ obj, q.writer = .writing obj) ∧
      ∀ idx, idx ≠ q.currentIdx → q'.buffer.data idx = q.buffer.data idx := by
  cases op with
  | writer => exact data_writerStep hstep
  | reader rank =>
    left
    unfold step at hstep
    dsimp only at hstep
    split at hstep
    case isTrue => exact data_readerStep hstep
    case isFalse => cases hstep
  | enqueue obj =>
    left
    unfold step at hstep
    dsimp only at hstep
    split at hstep
    case h_1 => split at hstep <;> cases hstep; rfl
    case h_2 => cases hstep
  | writerTimeout =>
    left
    simp only [step, writerTimeout] at hstep
    split at hstep
    case h_1 => split at hstep <;> cases hstep; rfl
    case h_2 => cases hstep
  | dequeue rank =>
    left
    unfold step at hstep
    dsimp only at hstep
    split at hstep
    case h_1 => split at hstep <;> cases hstep; rfl
    case h_2 => cases hstep
  | readerTimeout rank =>
    left
    simp only [step, readerTimeout] at hstep
    split at hstep
    case isTrue =>
      split at hstep
      case h_1 => split at hstep <;> cases hstep; rfl
      case h_2 => cases hstep
    case isFalse => cases hstep

/-- A reader that has decided to read its chunk is behind the writer. -/
theorem Delivering.lt_of_holdsChunk {q : MessageQueue Obj} {rank : Nat} (h : Delivering params q)
    (hrank : rank < params.nReader) (hholds : (q.readers rank).HoldsChunk) : q.count rank < q.enqueued.length := by
  have hphase := (h.readers rank hrank).phase
  unfold Reader.HoldsChunk at hholds
  cases hcase : (q.readers rank).phase with
  | reading =>
    rw [hcase] at hphase
    exact hphase
  | marking obj =>
    rw [hcase] at hphase
    obtain ⟨value, -, hvalue⟩ := hphase
    exact (List.getElem?_eq_some_iff.mp hvalue).1
  | idle =>
    rw [hcase] at hholds
    exact absurd hholds id
  | polling =>
    rw [hcase] at hholds
    exact absurd hholds id
  | sawReadFlag readFlag =>
    rw [hcase] at hholds
    exact absurd hholds id
  | receiving =>
    rw [hcase] at hholds
    exact absurd hholds id

theorem Delivering.passed_of_reusing {q : MessageQueue Obj} (h : Delivering params q)
    (hreusing : q.Reusing) {rank : Nat} (hrank : rank < params.nReader) : Passed params q.enqueued q.count rank := by
  have hwriter := h.ring.writer
  unfold Reusing at hreusing
  cases hcase : q.writer with
  | claiming obj =>
    rw [hcase] at hwriter
    exact hwriter.2.2 rank hrank
  | writing obj =>
    rw [hcase] at hwriter
    exact hwriter.2.2.1 rank hrank
  | resetting obj flag =>
    rw [hcase] at hwriter
    exact hwriter.2.2.1 rank hrank
  | idle =>
    rw [hcase] at hreusing
    exact absurd hreusing id
  | summing obj flag readCount =>
    rw [hcase] at hreusing
    exact absurd hreusing id

/-- In any interleaving each reader dequeues the values in the order in which they were enqueued,
none lost or repeated. A chunk that a reader has decided to read is not written to, and the writer
uses a chunk again only when every reader has dequeued the messages that were in it. What a reader
has not dequeued it finds written and not read, and a message that fits is written. -/
theorem broadcast_delivers (params : QueueParams Obj) {q : MessageQueue Obj}
    (h : Reached (step params) (new params) q) :
    (∀ rank, rank < params.nReader → (q.readers rank).dequeued <+: q.enqueued) ∧
      (∀ rank, rank < params.nReader → (q.readers rank).HoldsChunk → ∀ op q', step params q op = some q' →
          q'.buffer.data (q.readers rank).currentIdx = q.buffer.data (q.readers rank).currentIdx) ∧
      (q.Reusing → ∀ m, m < q.enqueued.length → m % params.maxChunks = q.currentIdx →
        ∀ rank, rank < params.nReader → m < (q.readers rank).dequeued.length) ∧
      (∀ rank, rank < params.nReader → (q.readers rank).dequeued.length < q.enqueued.length →
        q.buffer.writtenFlag (q.readers rank).currentIdx = true ∧
          q.buffer.readFlag (q.readers rank).currentIdx rank = false) ∧
      (∀ obj, q.writer = .writing obj → SizesFit (params.pickle.allBuffers obj) →
        ∃ q', step params q .writer = some q' ∧ q'.writer = .resetting obj 0) := by
  have hq := delivering params h
  refine ⟨fun rank hrank => (hq.readers rank hrank).dequeued, ?_, ?_, ?_, ?_⟩
  · intro rank hrank hholds op q' hstep
    have hlt := hq.lt_of_holdsChunk hrank hholds
    rcases data_step hstep with hsame | ⟨⟨obj, hwriting⟩, haway⟩
    · rw [hsame]
    · apply haway
      have hreusing : q.Reusing := by
        unfold Reusing
        rw [hwriting]
        trivial
      rw [(hq.readers rank hrank).idx, hq.writer_idx]
      exact mod_ne_of_lap hlt (hq.passed_of_reusing hreusing hrank)
  · intro hreusing m hm hidx rank hrank
    have hpassed := hq.passed_of_reusing hreusing hrank
    rw [hq.writer_idx] at hidx
    unfold Passed at hpassed
    by_contra hnot
    have hcount : q.count rank ≤ m := Nat.le_of_not_lt hnot
    exact mod_ne_of_lap hm (by omega) hidx
  · intro rank hrank hlt
    obtain ⟨hwritten, -, hflag⟩ := hq.ring.readable hrank hlt
    rw [(hq.readers rank hrank).idx]
    exact ⟨hwritten, hflag⟩
  · intro obj hwriting hsizes
    have hwriter := hq.ring.writer
    rw [hwriting] at hwriter
    have hfits := hwriter.1
    rw [← hq.ring.length q.currentIdx] at hfits
    obtain ⟨buf, hbuf⟩ := writeMessage_isOk hfits hsizes
    refine ⟨{ q with buffer := q.buffer.setData q.currentIdx buf, writer := .resetting obj 0 }, ?_, rfl⟩
    show q.writerStep params = _
    rw [writerStep, hwriting]
    dsimp only
    rw [hbuf]

/-- Two chunks of 16 bytes and one reader; a value is a byte string. -/
def byteQueue : QueueParams Bytes where
  nReader := 1
  maxChunkBytes := 16
  maxChunks := 2
  pickle :=
    { dumps := fun obj => (obj, [])
      loads := fun main _ => .ok main
      loads_dumps := fun _ => rfl }
  maxChunks_pos := by decide

/-- The reader dequeues the first value while the writer enqueues the second. -/
theorem broadcast_delivers_two_values : ∃ q, Reached (step byteQueue) (new byteQueue) q ∧
    (q.readers 0).dequeued = [[7]] ∧ [[7]] <+: q.enqueued := by
  have hrun : (runAll (step byteQueue) (new byteQueue)
      [.enqueue [7], .dequeue 0, .writer, .reader 0, .writer, .writer, .writer, .writer, .writer,
        .reader 0, .enqueue [8], .writer, .reader 0, .writer, .writer, .writer, .reader 0]).any
          (fun q => decide ((q.readers 0).dequeued = [[7]])) = true := by decide
  obtain ⟨q, hq, hdequeued⟩ := (Option.any_eq_true _ _).mp hrun
  rw [decide_eq_true_iff] at hdequeued
  refine ⟨q, reached_of_runAll hq, hdequeued, ?_⟩
  have h := (broadcast_delivers byteQueue (reached_of_runAll hq)).1 0 (by decide)
  rwa [hdequeued] at h

end MessageQueue

end Yuan.SharedMemory
