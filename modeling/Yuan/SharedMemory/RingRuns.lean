import Yuan.SharedMemory.RingFree
import Yuan.Lib.Runs

/-!
# Runs of the ring buffer

Any calls of `allocate_buf` and `free_buf`, with writes to the data of live chunks between them. There are more bytes
than ids in a large buffer: the ids wrap around to those of live chunks once `ID_MAX` of them are live, and `free_buf`
cannot tell that it freed all of them from that it freed none.
-/

namespace Yuan.SharedMemory

open SingleWriterShmRingBuffer

/-- A buffer with the chunks that were given out and are not freed, oldest first. -/
structure RingRun where
  buffer : SingleWriterShmRingBuffer
  live : List Chunk

inductive RingOp where
  | allocate (size : Int)
  | free (isFreeFn : Nat → Nat → Bytes → Bool) (nbytes : Option Int)
  | write (chunk : Chunk) (data : Bytes)

namespace RingRun

/-- A writer's new buffer. -/
def fresh (dataBufferSize : Int) (sharedMemory : Bytes) : RingRun :=
  ⟨⟨dataBufferSize, sharedMemory, Dict.empty, 0, 0, 0, 0⟩, []⟩

variable (r : RingRun)

/-- How many chunks a call of `free_buf` frees. -/
def freed (isFreeFn : Nat → Nat → Bytes → Bool) (nbytes : Option Int) : Nat :=
  freedCount isFreeFn (nbytes.getD r.buffer.dataBufferSize) (fun address => (r.buffer.accessBuf address).1) 0 0 r.live

def step : RingOp → Option RingRun
  | .allocate size =>
    let (result, buffer) := r.buffer.allocateBuf size
    match result with
    | .ok (address, id) => some ⟨buffer, r.live ++ [⟨id, address, size + MD_SIZE⟩]⟩
    | .error _ => some ⟨buffer, r.live⟩
  | .free isFreeFn nbytes => do
    let (_, buffer) ← r.buffer.freeBuf isFreeFn nbytes
    return ⟨buffer, r.live.drop (r.freed isFreeFn nbytes)⟩
  | .write chunk data =>
    if chunk ∈ r.live ∧ (data.length + MD_SIZE : Int) ≤ chunk.size then
      match r.buffer.writeData chunk.address data with
      | .ok buffer => some ⟨buffer, r.live⟩
      | .error _ => none
    else none

/-- All live chunks may be freed, and the bytes to free are not reached before the last one. -/
def FreesAll (isFreeFn : Nat → Nat → Bytes → Bool) (nbytes : Option Int) : Prop :=
  ∀ live c rest, r.live = live ++ c :: rest →
    isFreeFn live.length c.id (r.buffer.accessBuf c.address).1 = true ∧
      (live.map Chunk.size).sum < nbytes.getD r.buffer.dataBufferSize

/-- No id is given out that a live chunk has, and not all ids are freed at once. -/
def IdsSuffice : RingOp → Prop
  | .allocate size =>
    0 < size → r.buffer.hasRoom (size + MD_SIZE) = true → size + MD_SIZE < 2 ^ 31 → r.live.length < ID_MAX
  | .free isFreeFn nbytes => r.live.length = ID_MAX → ¬ r.FreesAll isFreeFn nbytes
  | .write _ _ => True

/-- The live chunks are those on record, inside the buffer and apart from each other. Their addresses find their
headers, and the data starts at the oldest one. -/
structure Sound : Prop where
  recorded : ∀ id address, r.buffer.metadata.get? id = some address ↔ ∃ c ∈ r.live, c.id = id ∧ c.address = address
  inside : ∀ c ∈ r.live, 0 ≤ c.address % r.buffer.dataBufferSize ∧
    c.address % r.buffer.dataBufferSize + c.size ≤ r.buffer.dataBufferSize
  apart : r.live.Pairwise (Apart r.buffer.dataBufferSize)
  located : ∀ c ∈ r.live, (r.buffer.accessBuf c.address).2 = ((c.id : Int), c.size)
  oldest : ∀ c ∈ r.live.head?,
    r.buffer.dataBufferStart % r.buffer.dataBufferSize = c.address % r.buffer.dataBufferSize
  empty : r.live = [] → r.buffer.dataBufferStart = 0 ∧ r.buffer.dataBufferEnd = 0

end RingRun

/-! ## Steps -/

section Steps

variable {b b' : SingleWriterShmRingBuffer} {r r' : RingRun} {live : List Chunk}

theorem RingRun.step_allocate_of_ok {size address : Int} {id : Nat}
    (h : r.buffer.allocateBuf size = (.ok (address, id), b')) :
    r.step (.allocate size) = some ⟨b', r.live ++ [⟨id, address, size + MD_SIZE⟩]⟩ := by
  rw [RingRun.step, h]

theorem RingRun.step_allocate_of_error {size : Int} {error : RingError}
    (h : r.buffer.allocateBuf size = (.error error, b')) : r.step (.allocate size) = some ⟨b', r.live⟩ := by
  rw [RingRun.step, h]

theorem Holds.sound (h : Holds r.buffer r.live) : r.Sound := by
  obtain ⟨hnumbered, -, placed, hlive, hplaced⟩ := h
  have hmem {c : Chunk} (hc : c ∈ r.live) : ∃ v, (c, v) ∈ placed := by
    rw [← hlive] at hc
    obtain ⟨p, hp, rfl⟩ := List.mem_map.mp hc
    exact ⟨p.2, hp⟩
  constructor
  case recorded => exact hnumbered.metadata
  case inside =>
    intro c hc
    obtain ⟨v, hv⟩ := hmem hc
    have haddress := hplaced.address _ hv
    exact ⟨Int.emod_nonneg _ hplaced.size_pos.ne', haddress ▸ (hplaced.fits _ hv).inside⟩
  case apart => exact hlive ▸ hplaced.disjoint
  case located =>
    intro c hc
    obtain ⟨v, hv⟩ := hmem hc
    exact hplaced.accessBuf_eq hv
  case oldest =>
    intro c hc
    cases placed with
    | nil =>
      rw [← hlive] at hc
      cases hc
    | cons p placed =>
      rw [← hlive] at hc
      obtain rfl : p.1 = c := Option.some.inj hc
      rw [hplaced.address p List.mem_cons_self, hplaced.head p rfl]
  case empty =>
    intro hnil
    rw [hnil] at hlive
    exact hplaced.empty (List.map_eq_nil_iff.mp hlive)

theorem holds_fresh {n : Int} {mem : Bytes} (hn : 0 < n) (hmem : n ≤ mem.length) :
    Holds (RingRun.fresh n mem).buffer [] := by
  refine ⟨⟨rfl, ID_MAX_pos, rfl, Nat.zero_le _, fun id address => ?_⟩, hn, [], rfl, ?_⟩
  · constructor
    · intro hget
      cases hget
    · rintro ⟨c, hc, -⟩
      cases hc
  · refine ⟨hn, hmem, le_rfl, le_rfl, ?_, ?_, List.Pairwise.nil, ?_, ?_, ?_, ?_, ?_, fun _ => ⟨rfl, rfl⟩⟩
    · show (0 : Int) ≤ 0 + n
      linarith
    · show (0 : Int) < 2 * n
      linarith
    all_goals
      intro p hp
      cases hp

/-- What `allocate_buf` does: it refuses, or gives out a chunk behind all others. -/
theorem Holds.allocateBuf (h : Holds b live) (size : Int)
    (hids : 0 < size → b.hasRoom (size + MD_SIZE) = true → size + MD_SIZE < 2 ^ 31 → live.length < ID_MAX) :
    (∃ error b', b.allocateBuf size = (.error error, b') ∧ Holds b' live ∧ b'.dataBufferSize = b.dataBufferSize) ∨
    ∃ b', b.allocateBuf size = (.ok (b.bufferEndReset (size + MD_SIZE), b.monotonicIdEnd), b') ∧
      Holds b' (live ++ [⟨b.monotonicIdEnd, b.bufferEndReset (size + MD_SIZE), size + MD_SIZE⟩]) ∧
      b'.dataBufferSize = b.dataBufferSize := by
  have hkeep := h
  obtain ⟨hnumbered, hstart, placed, rfl, hplaced⟩ := h
  rcases lt_or_ge 0 size with hsize | hsize
  · cases hroom : b.hasRoom (size + MD_SIZE) with
    | false =>
      left
      exact ⟨_, _, allocateBuf_of_full hsize hroom, hkeep, rfl⟩
    | true =>
      rcases lt_or_ge (size + MD_SIZE) (2 ^ 31) with hsmall | hlarge
      · right
        obtain ⟨mem, hallocate, hplaced'⟩ :=
          allocateBuf_of_fits hplaced hstart hnumbered.end_lt hsize hroom hsmall
        refine ⟨_, hallocate, ⟨hnumbered.recordChunk (hids hsize hroom hsmall) mem _ _, hstart, _, ?_, hplaced'⟩, rfl⟩
        rw [List.map_append]
        rfl
      · left
        obtain ⟨mem, hallocate, hplaced'⟩ :=
          allocateBuf_of_large hplaced hstart hnumbered.end_lt hsize hroom hlarge
        refine ⟨_, _, hallocate, ⟨?_, hstart, placed, rfl, hplaced'⟩, rfl⟩
        exact ⟨hnumbered.ids, hnumbered.start_lt, hnumbered.end_eq, hnumbered.bounded, hnumbered.metadata⟩
  · left
    exact ⟨_, _, allocateBuf_of_nonpos hsize, hkeep, rfl⟩

/-- Data that stays within its chunk. -/
theorem Holds.writeData (h : Holds b live) {c : Chunk} (hc : c ∈ live) {data : Bytes}
    (hdata : (data.length + MD_SIZE : Int) ≤ c.size)
    (hwrite : b.writeData c.address data = .ok b') : Holds b' live ∧ b'.dataBufferSize = b.dataBufferSize := by
  obtain ⟨hnumbered, hstart, placed, rfl, hplaced⟩ := h
  obtain ⟨mem, hset, hb'⟩ := bind_eq_ok.mp hwrite
  cases hb'
  refine ⟨⟨⟨hnumbered.ids, hnumbered.start_lt, hnumbered.end_eq, hnumbered.bounded, hnumbered.metadata⟩, hstart, placed,
    rfl, hplaced.of_memory (length_setSlice hset) fun q hq => (hplaced.header q hq).setSlice hset ?_⟩, rfl⟩
  -- the other headers are apart from the chunk, and its own is before its data
  have hmd := MD_SIZE_eq
  have haddress := hplaced.address q hq
  have hc₀ := Int.emod_nonneg c.address hplaced.size_pos.ne'
  have hqpos := (hplaced.fits q hq).pos
  rw [bufIdx]
  by_cases hcq : c = q.1
  · subst hcq
    omega
  · have happart : Apart b.dataBufferSize c q.1 := hplaced.disjoint.forall hc (List.mem_map_of_mem hq) hcq
    rw [Apart] at happart
    omega

/-- Freeing as many chunks as are live asks for all of them. -/
theorem freesAll_of_freedCount {isFreeFn : Nat → Nat → Bytes → Bool} {nbytes : Int} {data : Int → Bytes} {calls : Nat}
    {freedBytes : Int} (h : freedCount isFreeFn nbytes data calls freedBytes live = live.length) :
    ∀ before c rest, live = before ++ c :: rest → isFreeFn (calls + before.length) c.id (data c.address) = true ∧
      freedBytes + (before.map Chunk.size).sum < nbytes := by
  induction live generalizing calls freedBytes with
  | nil => exact fun before c rest heq => absurd heq.symm (List.append_ne_nil_of_right_ne_nil _ (List.cons_ne_nil _ _))
  | cons d live ih =>
    rw [freedCount] at h
    split at h
    · rename_i hfree
      have hrest := ih (Nat.succ.inj h)
      intro before c rest heq
      cases before with
      | nil =>
        obtain ⟨rfl, rfl⟩ := List.cons.inj heq
        rw [List.map_nil, List.sum_nil, add_zero]
        exact ⟨hfree.2, hfree.1⟩
      | cons e before =>
        obtain ⟨rfl, rfl⟩ := List.cons.inj heq
        obtain ⟨hanswer, hbytes⟩ := hrest before c rest rfl
        rw [List.length_cons, List.map_cons, List.sum_cons, ← Int.add_assoc, Nat.add_comm before.length,
          ← Nat.add_assoc]
        exact ⟨hanswer, hbytes⟩
    · cases h

theorem RingRun.freed_ne {isFreeFn : Nat → Nat → Bytes → Bool} {nbytes : Option Int} (hlive : r.live.length ≤ ID_MAX)
    (hallowed : r.IdsSuffice (.free isFreeFn nbytes)) : r.freed isFreeFn nbytes ≠ ID_MAX := by
  intro hall
  have hle : r.freed isFreeFn nbytes ≤ r.live.length := freedCount_le _ _ _ _
  have hlength : r.live.length = ID_MAX := Nat.le_antisymm hlive (hall ▸ hle)
  refine hallowed hlength fun before c rest heq => ?_
  have hfrees := freesAll_of_freedCount (hall.trans hlength.symm) before c rest heq
  rwa [Nat.zero_add, zero_add] at hfrees

/-- One step keeps what holds. -/
theorem Holds.step {op : RingOp} (h : Holds r.buffer r.live) (hallowed : r.IdsSuffice op)
    (hstep : r.step op = some r') : Holds r'.buffer r'.live ∧ r'.buffer.dataBufferSize = r.buffer.dataBufferSize := by
  cases op with
  | allocate size =>
    rcases h.allocateBuf size hallowed with ⟨error, b', hallocate, hb'⟩ | ⟨b', hallocate, hb'⟩
    · rw [RingRun.step_allocate_of_error hallocate] at hstep
      cases hstep
      exact hb'
    · rw [RingRun.step_allocate_of_ok hallocate] at hstep
      cases hstep
      exact hb'
  | free isFreeFn nbytes =>
    obtain ⟨b', hfree, hb'⟩ := freeBuf_eq h (rfl : _ = r.freed isFreeFn nbytes) (r.freed_ne h.1.bounded hallowed)
    rw [RingRun.step, hfree] at hstep
    cases hstep
    exact hb'
  | write chunk data =>
    rw [RingRun.step] at hstep
    split at hstep
    · rename_i hwithin
      cases hwrite : r.buffer.writeData chunk.address data with
      | error e =>
        rw [hwrite] at hstep
        cases hstep
      | ok b' =>
        rw [hwrite] at hstep
        cases hstep
        exact h.writeData hwithin.1 hwithin.2 hwrite
    · cases hstep

theorem Holds.run {n : Int} {mem : Bytes} (hn : 0 < n) (hmem : n ≤ mem.length)
    (h : ReachedBy RingRun.step RingRun.IdsSuffice (RingRun.fresh n mem) r) :
    Holds r.buffer r.live ∧ r.buffer.dataBufferSize = n := by
  refine ReachedBy.invariant (P := fun r => Holds r.buffer r.live ∧ r.buffer.dataBufferSize = n)
    ⟨holds_fresh hn hmem, rfl⟩ ?_ h
  intro r op r' ⟨hr, hsize⟩ hallowed hstep
  obtain ⟨hr', hsize'⟩ := hr.step hallowed hstep
  exact ⟨hr', hsize'.trans hsize⟩

theorem allocateAt_ne_memoryError (b : SingleWriterShmRingBuffer) (address size : Int) (msg : String) :
    (b.allocateAt address size).1 ≠ .error (.memoryError msg) := by
  intro h
  rw [allocateAt] at h
  simp only at h
  split at h
  · cases h
  · split at h
    · cases h
    · cases h

/-- A buffer that is full stays as it is. -/
theorem allocateBuf_of_memoryError {size : Int} {msg : String}
    (h : b.allocateBuf size = (.error (.memoryError msg), b')) : b' = b := by
  rw [allocateBuf] at h
  split at h
  · cases h
  · split at h
    · exact absurd (congrArg Prod.fst h) (allocateAt_ne_memoryError _ _ _ _)
    · exact (congrArg Prod.snd h).symm

end Steps

/-! ## Whole runs -/

/-- While the ids suffice, live chunks never overlap, and `free_buf` gives back the ids that it freed. -/
theorem live_chunks_never_overlap {n : Int} {mem : Bytes} (hn : 0 < n) (hmem : n ≤ mem.length) {r : RingRun}
    (h : ReachedBy RingRun.step RingRun.IdsSuffice (RingRun.fresh n mem) r) :
    r.buffer.dataBufferSize = n ∧ r.Sound ∧
      (∀ isFreeFn nbytes, r.IdsSuffice (.free isFreeFn nbytes) → ∃ b', r.buffer.freeBuf isFreeFn nbytes =
        some ((r.live.take (r.freed isFreeFn nbytes)).map Chunk.id, b')) ∧
      ∀ size msg b', r.buffer.allocateBuf size = (.error (.memoryError msg), b') → b' = r.buffer := by
  obtain ⟨hholds, hsize⟩ := Holds.run hn hmem h
  refine ⟨hsize, hholds.sound, fun isFreeFn nbytes hallowed => ?_, fun size msg b' => allocateBuf_of_memoryError⟩
  obtain ⟨b', hfree, -⟩ := freeBuf_eq hholds (rfl : _ = r.freed isFreeFn nbytes)
    (r.freed_ne hholds.1.bounded hallowed)
  exact ⟨b', hfree⟩

/-- A buffer of 40 bytes: when two chunks of 13 have been freed, one behind the other, the fourth is put in front of
the third, and there is no room for a larger one. -/
theorem live_chunks_never_overlap_forty : ∃ r : RingRun, r.live = [⟨2, 26, 13⟩, ⟨3, 40, 13⟩] ∧ r.Sound ∧
    r.buffer.allocateBuf 6 = (.error (.memoryError
      "Not enough space in the data buffer, try calling free_buf() to free up space"), r.buffer) := by
  have hrun : ReachedBy RingRun.step RingRun.IdsSuffice (RingRun.fresh 40 (List.replicate 40 0)) _ :=
    .step (.allocate 5) (.step (.free (fun _ _ _ => true) (some 1)) (.step (.allocate 5)
      (.step (.free (fun _ _ _ => true) (some 1)) (.step (.allocate 5) (.step (.allocate 5) .start
        (fun _ _ _ => by decide) rfl) (fun _ _ _ => by decide) rfl) (fun hall => absurd hall (by decide)) rfl)
        (fun _ _ _ => by decide) rfl) (fun hall => absurd hall (by decide)) rfl) (fun _ _ _ => by decide) rfl
  exact ⟨_, rfl, (live_chunks_never_overlap (by decide) (by decide) hrun).2.1, rfl⟩

/-! ## More chunks than ids -/

section ManyChunks

/-- Chunks of one byte, as many as there are ids. -/
theorem reached_ones {k : Nat} (hk : k ≤ ID_MAX) {n : Int} (hn : n = 9 * ID_MAX) {mem : Bytes} (hmem : n ≤ mem.length) :
    ∃ r, ReachedBy RingRun.step RingRun.IdsSuffice (RingRun.fresh n mem) r ∧ r.live.length = k ∧
      r.buffer.dataBufferStart = 0 ∧ r.buffer.dataBufferEnd = 9 * k ∧ ∀ c ∈ r.live, c.size = 9 := by
  have hmax := ID_MAX_eq
  have hpos : 0 < n := by omega
  induction k with
  | zero => exact ⟨_, .start, rfl, rfl, rfl, fun c hc => (by cases hc)⟩
  | succ k ih =>
    obtain ⟨r, hreached, hlength, hstart, hend, hsizes⟩ := ih (by omega)
    obtain ⟨⟨hnumbered, hbefore, placed, -, hplaced⟩, hsize⟩ := Holds.run hpos hmem hreached
    have hids : r.IdsSuffice (.allocate 1) := fun _ _ _ => hlength ▸ hk
    have hmd : (1 : Int) + MD_SIZE = 9 := rfl
    have hreset : r.buffer.bufferEndReset (1 + MD_SIZE) = 9 * k := by
      rw [bufferEndReset, hsize, hend, hmd, Int.emod_eq_of_lt (by omega) (by omega), if_neg (by omega)]
    have hroom : r.buffer.hasRoom (1 + MD_SIZE) = true := by
      exact decide_eq_true (by omega)
    obtain ⟨mem', hallocate, -⟩ :=
      allocateBuf_of_fits hplaced hbefore hnumbered.end_lt Int.one_pos hroom (by omega)
    refine ⟨_, .step _ hreached hids (RingRun.step_allocate_of_ok hallocate), ?_, hstart, ?_, ?_⟩
    · rw [List.length_append, hlength, List.length_singleton]
    · show r.buffer.bufferEndReset (1 + MD_SIZE) + (1 + MD_SIZE) = 9 * ((k + 1 : Nat) : Int)
      omega
    · intro c hc
      rcases List.mem_append.mp hc with hc | hc
      · exact hsizes c hc
      · obtain rfl := List.mem_singleton.mp hc
        exact hmd

/-- Every chunk may be freed, and there are enough bytes to free for all of them. -/
theorem freedCount_of_ones {nbytes freedBytes : Int} (data : Int → Bytes) (calls : Nat) {live : List Chunk}
    (hsizes : ∀ c ∈ live, c.size = 9) (hbytes : freedBytes + 9 * live.length ≤ nbytes) :
    freedCount (fun _ _ _ => true) nbytes data calls freedBytes live = live.length := by
  induction live generalizing calls freedBytes with
  | nil => rfl
  | cons c live ih =>
    have hsize := hsizes c List.mem_cons_self
    rw [List.length_cons, Int.natCast_add] at hbytes
    have hrest (d : Chunk) (hd : d ∈ live) : d.size = 9 := hsizes d (List.mem_cons_of_mem _ hd)
    rw [freedCount, if_pos ⟨by omega, rfl⟩, ih (calls + 1) hrest (by omega), List.length_cons]

/-- A call that frees as many chunks as there are ids gives back no id. -/
theorem freed_ids_missing : ¬ ∀ (n : Int) (mem : Bytes) (r : RingRun), 0 < n → n ≤ mem.length →
    Reached RingRun.step (RingRun.fresh n mem) r → ∀ isFreeFn nbytes, (r.buffer.freeBuf isFreeFn nbytes).map Prod.fst =
        some ((r.live.take (r.freed isFreeFn nbytes)).map Chunk.id) := by
  intro h
  have hmax := ID_MAX_eq
  have hn : (0 : Int) < 9 * ID_MAX := by omega
  obtain ⟨mem, hmem⟩ : ∃ mem : Bytes, ((9 * ID_MAX : Int)) ≤ mem.length :=
    ⟨List.replicate (9 * ID_MAX) 0, by rw [List.length_replicate]; omega⟩
  obtain ⟨r, hreached, hlength, -, -, hsizes⟩ := reached_ones le_rfl rfl hmem
  obtain ⟨hholds, hsize⟩ := Holds.run hn hmem hreached
  have hfreed : r.freed (fun _ _ _ => true) none = ID_MAX := by
    rw [RingRun.freed, freedCount_of_ones _ _ hsizes (by rw [Option.getD_none]; omega), hlength]
  have hany : Reached RingRun.step (RingRun.fresh (9 * ID_MAX) mem) r := hreached.mono fun _ _ _ => trivial
  have hids := h _ mem r hn hmem hany (fun _ _ _ => true) none
  rw [freeBuf_of_all_ids hholds hfreed, hfreed, ← hlength, List.take_length] at hids
  have hnil := List.map_eq_nil_iff.mp (Option.some.inj hids).symm
  rw [hnil, List.length_nil] at hlength
  cases hlength

end ManyChunks

end Yuan.SharedMemory
