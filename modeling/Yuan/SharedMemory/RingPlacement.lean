import Yuan.SharedMemory.SingleWriterShmRingBuffer
import Mathlib.Data.List.Range

/-!
# Where the live chunks lie

The live chunks can be placed on an unbounded line, one behind the other, so that every place is the chunk's address
modulo the size of the buffer, no chunk crosses a multiple of that size, and all of them lie between the start and the
end of the data, which are at most one buffer apart. Then no two of them overlap in the buffer.
-/

namespace Yuan.SharedMemory

/-- A chunk as it was given out. The size includes its header. -/
structure Chunk where
  id : Nat
  address : Int
  size : Int
  deriving DecidableEq

/-- Two chunks do not overlap in a buffer of `n` bytes. -/
def Apart (n : Int) (c d : Chunk) : Prop :=
  c.address % n + c.size ≤ d.address % n ∨ d.address % n + d.size ≤ c.address % n

instance (n : Int) : Std.Symm (Apart n) := ⟨fun _ _ => Or.symm⟩

/-! ## Headers -/

theorem int2byte_of_lt {v : Int} (h₀ : 0 ≤ v) (h : v < 2 ^ 31) :
    ∃ bytes, int2byte v = .ok bytes ∧ bytes.length = 4 ∧ byte2int bytes = v := by
  obtain ⟨n, rfl⟩ := Int.eq_ofNat_of_zero_le h₀
  have hn : n < 2 ^ 31 := by exact_mod_cast h
  have hmod : ((n : Int) % 2 ^ 32).toNat = n := by
    rw [Int.emod_eq_of_lt h₀ (by omega), Int.toNat_natCast]
  have hlength : (bigEndian n ID_NBYTES).reverse.length = 4 := by rw [List.length_reverse]; rfl
  refine ⟨(bigEndian n ID_NBYTES).reverse, by rw [int2byte, if_neg (by omega), hmod], hlength, ?_⟩
  have hvalue : fromBytesBig (bigEndian n ID_NBYTES).reverse.reverse = n := by
    rw [List.reverse_reverse, fromBytesBig_bigEndian]
    exact hn.trans (by decide)
  rw [byte2int, hvalue, hlength, if_pos (by omega)]

theorem int2byte_of_le {v : Int} (h : 2 ^ 31 ≤ v) : int2byte v = .error (.overflowError "int too big to convert") := by
  rw [int2byte, if_pos (.inl h)]

/-- The header at `idx` names the id and the size. -/
def HeaderAt (mem : Bytes) (idx id size : Int) : Prop :=
  byte2int (slice mem idx.toNat (idx.toNat + ID_NBYTES)) = id ∧
    byte2int (slice mem (idx.toNat + ID_NBYTES) (idx.toNat + MD_SIZE)) = size

theorem HeaderAt.setSlice {mem mem' bytes : Bytes} {idx id size : Int} {start : Nat}
    (h : HeaderAt mem idx id size) (hset : setSlice mem start bytes = .ok mem')
    (hapart : idx.toNat + MD_SIZE ≤ start ∨ start + bytes.length ≤ idx.toNat) : HeaderAt mem' idx id size := by
  have hmd := MD_SIZE_eq
  have hid := ID_NBYTES_eq
  rw [HeaderAt, slice_setSlice hset (by omega), slice_setSlice hset (by omega)]
  exact h

/-! ## Places on the line -/

/-- A place `v` on the line for `size` bytes does not cross a multiple of `n`. -/
structure FitsAt (n v size : Int) : Prop where
  inside : v % n + size ≤ n
  pos : 8 < size

/-- Two chunks that are apart on the line and less than one buffer long together are apart in the buffer. -/
theorem apart_of_places {n v w s t : Int} (hn : 0 < n) (hvw : v + s ≤ w) (hlap : w + t ≤ v + n) :
    v % n + s ≤ w % n ∨ w % n + t ≤ v % n := by
  have hv := Int.emod_add_mul_ediv v n
  have hw := Int.emod_add_mul_ediv w n
  generalize v % n = x at *
  generalize w % n = y at *
  generalize v / n = a at *
  generalize w / n = c at *
  rcases lt_trichotomy a c with hlt | heq | hgt
  · right
    nlinarith
  · left
    subst heq
    linarith
  · -- the second place is not before the first one
    left
    nlinarith

/-- The place behind `e` for `size` bytes. -/
theorem reset_place {b : SingleWriterShmRingBuffer} {size : Int} (hn : 0 < b.dataBufferSize)
    (hstart : b.dataBufferStart ≤ b.dataBufferEnd) (hsize : 8 < size) (hroom : b.hasRoom size = true) :
    b.dataBufferEnd ≤ b.bufferEndReset size ∧ b.bufferEndReset size + size - b.dataBufferStart ≤ b.dataBufferSize ∧
      FitsAt b.dataBufferSize (b.bufferEndReset size) size := by
  have hroom : b.bufferEndReset size + size - b.dataBufferStart ≤ b.dataBufferSize := by
    simpa [SingleWriterShmRingBuffer.hasRoom] using hroom
  have hsplit := Int.emod_add_mul_ediv b.dataBufferEnd b.dataBufferSize
  have hlt := Int.emod_lt_of_pos b.dataBufferEnd hn
  have hle : b.dataBufferEnd ≤ b.bufferEndReset size := by
    unfold SingleWriterShmRingBuffer.bufferEndReset
    split
    · rw [Int.add_mul, one_mul]
      linarith
    · exact le_rfl
  refine ⟨hle, hroom, ?_, hsize⟩
  unfold SingleWriterShmRingBuffer.bufferEndReset at hroom hle ⊢
  split at hroom
  · rename_i hcross
    rw [if_pos hcross, Int.mul_emod_left]
    linarith
  · rename_i hfit
    rw [if_neg hfit]
    exact not_lt.mp hfit

/-! ## The invariant -/

open SingleWriterShmRingBuffer

/-- The chunks `placed`, each with its place on the line, are laid out in the buffer. The start of the data may have
passed the end of the buffer, as it does while chunks are freed. -/
structure Placed (b : SingleWriterShmRingBuffer) (placed : List (Chunk × Int)) : Prop where
  size_pos : 0 < b.dataBufferSize
  memory : b.dataBufferSize ≤ b.sharedMemory.length
  start_nonneg : 0 ≤ b.dataBufferStart
  start_le_end : b.dataBufferStart ≤ b.dataBufferEnd
  lap : b.dataBufferEnd ≤ b.dataBufferStart + b.dataBufferSize
  end_lt : b.dataBufferEnd < 2 * b.dataBufferSize
  order : placed.Pairwise fun p q => p.2 + p.1.size ≤ q.2
  within : ∀ p ∈ placed, b.dataBufferStart ≤ p.2 ∧ p.2 + p.1.size ≤ b.dataBufferEnd
  fits : ∀ p ∈ placed, FitsAt b.dataBufferSize p.2 p.1.size
  address : ∀ p ∈ placed, p.1.address % b.dataBufferSize = p.2 % b.dataBufferSize
  header : ∀ p ∈ placed, HeaderAt b.sharedMemory (p.2 % b.dataBufferSize) p.1.id p.1.size
  head : ∀ p ∈ placed.head?, p.2 = b.dataBufferStart
  empty : placed = [] → b.dataBufferStart = 0 ∧ b.dataBufferEnd = 0

/-- The ids count up modulo `ID_MAX`, and the metadata has the addresses of the live chunks. -/
structure Numbered (b : SingleWriterShmRingBuffer) (live : List Chunk) : Prop where
  ids : live.map Chunk.id = (List.range live.length).map fun i => (b.monotonicIdStart + i) % ID_MAX
  start_lt : b.monotonicIdStart < ID_MAX
  end_eq : b.monotonicIdEnd = (b.monotonicIdStart + live.length) % ID_MAX
  bounded : live.length ≤ ID_MAX
  metadata : ∀ id address, b.metadata.get? id = some address ↔ ∃ c ∈ live, c.id = id ∧ c.address = address

/-- The live chunks are laid out and numbered, and the start of the data is within the buffer. -/
def Holds (b : SingleWriterShmRingBuffer) (live : List Chunk) : Prop :=
  Numbered b live ∧ b.dataBufferStart < b.dataBufferSize ∧ ∃ placed, placed.map Prod.fst = live ∧ Placed b placed

namespace Placed

variable {b : SingleWriterShmRingBuffer} {placed : List (Chunk × Int)}

section

variable (h : Placed b placed)
include h

/-- An address finds the header of its chunk. -/
theorem accessBuf_eq {p : Chunk × Int} (hp : p ∈ placed) :
    (b.accessBuf p.1.address).2 = ((p.1.id : Int), p.1.size) := by
  obtain ⟨hid, hsize⟩ := h.header p hp
  rw [← h.address p hp] at hid hsize
  exact Prod.ext hid hsize

/-- No two chunks overlap. -/
theorem disjoint : (placed.map Prod.fst).Pairwise (Apart b.dataBufferSize) := by
  rw [List.pairwise_map]
  refine h.order.imp_of_mem fun {p q} hp hq hpq => ?_
  rw [Apart, h.address p hp, h.address q hq]
  have hwithin := h.within q hq
  have hstart := h.within p hp
  have hlap := h.lap
  exact apart_of_places h.size_pos hpq (by linarith)

/-- A change of the memory that keeps the headers. -/
theorem of_memory {mem : Bytes} (hlength : mem.length = b.sharedMemory.length)
    (hheader : ∀ p ∈ placed, HeaderAt mem (p.2 % b.dataBufferSize) p.1.id p.1.size) :
    Placed { b with sharedMemory := mem } placed :=
  { h with
    memory := hlength.symm ▸ h.memory
    header := hheader }

/-- The place of a chunk that there is room for is apart from all chunks. -/
theorem apart_of_room {v size : Int} (hv : b.dataBufferEnd ≤ v) (hlap : v + size - b.dataBufferStart ≤ b.dataBufferSize)
    {p : Chunk × Int} (hp : p ∈ placed) :
    p.2 % b.dataBufferSize + p.1.size ≤ v % b.dataBufferSize ∨
      v % b.dataBufferSize + size ≤ p.2 % b.dataBufferSize := by
  have hwithin := h.within p hp
  exact apart_of_places h.size_pos (by linarith) (by linarith)

/-- Bytes can be written at the place `v`, and keep the headers of the chunks apart from it. -/
theorem write {v size : Int} (hfits : FitsAt b.dataBufferSize v size)
    (hapart : ∀ p ∈ placed, p.2 % b.dataBufferSize + p.1.size ≤ v % b.dataBufferSize ∨
      v % b.dataBufferSize + size ≤ p.2 % b.dataBufferSize) {offset : Nat} {bytes : Bytes}
    (hbytes : (offset + bytes.length : Int) ≤ size) :
    ∃ mem, setSlice b.sharedMemory (b.bufIdx v + offset) bytes = .ok mem ∧
      Placed { b with sharedMemory := mem } placed := by
  have hnonneg := Int.emod_nonneg v h.size_pos.ne'
  have hinside := hfits.inside
  have hmemory := h.memory
  have hset : setSlice b.sharedMemory (b.bufIdx v + offset) bytes = .ok _ :=
    setSlice_eq_ok.mpr ⟨by rw [bufIdx]; omega, rfl⟩
  refine ⟨_, hset, h.of_memory (length_setSlice hset) fun p hp => ?_⟩
  refine (h.header p hp).setSlice hset ?_
  have hpos := (h.fits p hp).pos
  have hp₀ := Int.emod_nonneg p.2 h.size_pos.ne'
  have hmd := MD_SIZE_eq
  have happ := hapart p hp
  rw [bufIdx]
  omega

end

theorem reset_of_empty (h : Placed b []) {size : Int} (hsize : 0 < size) (hroom : b.hasRoom size = true) :
    b.bufferEndReset size = 0 := by
  obtain ⟨hstart, hend⟩ := h.empty rfl
  simp only [hasRoom, decide_eq_true_eq] at hroom
  unfold bufferEndReset at hroom ⊢
  rw [hend, Int.zero_ediv] at hroom ⊢
  split at hroom
  · linarith
  · rename_i hfit
    rw [if_neg hfit]

/-- The end of the data moves to a place that there is room for. -/
theorem move_end (h : Placed b placed) (hstart : b.dataBufferStart < b.dataBufferSize) {size : Int} (hsize : 8 < size)
    (hroom : b.hasRoom size = true) : Placed { b with dataBufferEnd := b.bufferEndReset size } placed := by
  obtain ⟨hle, hlap, -⟩ := reset_place h.size_pos h.start_le_end hsize hroom
  refine { h with
    start_le_end := h.start_le_end.trans hle
    lap := ?_
    end_lt := ?_
    within := fun p hp => ⟨(h.within p hp).1, (h.within p hp).2.trans hle⟩
    empty := fun hnil => ⟨(h.empty hnil).1, ?_⟩ }
  · show b.bufferEndReset size ≤ b.dataBufferStart + b.dataBufferSize
    linarith
  · show b.bufferEndReset size < 2 * b.dataBufferSize
    linarith
  · subst hnil
    exact h.reset_of_empty (by linarith) hroom

end Placed

/-! ## Allocating -/

section Allocate

variable {b : SingleWriterShmRingBuffer} {placed : List (Chunk × Int)} {live : List Chunk} {size : Int}

theorem allocateBuf_of_nonpos (hsize : size ≤ 0) :
    b.allocateBuf size = (.error (.py (.assertionError "Size must be greater than 0")), b) := by
  rw [allocateBuf, if_pos hsize]

theorem allocateBuf_of_full (hsize : 0 < size) (hroom : b.hasRoom (size + MD_SIZE) = false) :
    b.allocateBuf size = (.error (.memoryError
      "Not enough space in the data buffer, try calling free_buf() to free up space"), b) := by
  rw [allocateBuf, if_neg (not_le.mpr hsize), hroom]
  exact if_neg Bool.false_ne_true

theorem allocateBuf_of_room (hsize : 0 < size) (hroom : b.hasRoom (size + MD_SIZE) = true) :
    b.allocateBuf size = b.allocateAt (b.bufferEndReset (size + MD_SIZE)) (size + MD_SIZE) := by
  rw [allocateBuf, if_neg (not_le.mpr hsize), if_pos hroom]

/-- The id is written for every chunk that there is room for. -/
theorem write_id (h : Placed b placed) (hstart : b.dataBufferStart < b.dataBufferSize) (hid : b.monotonicIdEnd < ID_MAX)
    (hsize : 8 < size) (hroom : b.hasRoom size = true) :
    ∃ bytes mem, int2byte b.monotonicIdEnd = .ok bytes ∧ bytes.length = 4 ∧ byte2int bytes = b.monotonicIdEnd ∧
      setSlice b.sharedMemory (b.bufIdx (b.bufferEndReset size)) bytes = .ok mem ∧
      Placed { b with dataBufferEnd := b.bufferEndReset size, sharedMemory := mem } placed := by
  obtain ⟨hle, hlap, hfits⟩ := reset_place h.size_pos h.start_le_end hsize hroom
  have hmax := ID_MAX_eq
  obtain ⟨bytes, hbytes, hlength, hvalue⟩ := int2byte_of_lt (Int.natCast_nonneg b.monotonicIdEnd) (by omega)
  have hfour : ((0 : Nat) + bytes.length : Int) ≤ size := by
    omega
  obtain ⟨mem, hset, hplaced⟩ := (h.move_end hstart hsize hroom).write hfits
    (fun p hp => h.apart_of_room hle hlap hp) hfour
  exact ⟨bytes, mem, hbytes, hlength, hvalue, hset, hplaced⟩

/-- A size that four bytes cannot hold: the end of the data and the id stay written. -/
theorem allocateBuf_of_large (h : Placed b placed) (hstart : b.dataBufferStart < b.dataBufferSize)
    (hid : b.monotonicIdEnd < ID_MAX) (hsize : 0 < size) (hroom : b.hasRoom (size + MD_SIZE) = true)
    (hlarge : 2 ^ 31 ≤ size + MD_SIZE) :
    ∃ mem, b.allocateBuf size = (.error (.py (.overflowError "int too big to convert")),
        { b with dataBufferEnd := b.bufferEndReset (size + MD_SIZE), sharedMemory := mem }) ∧
      Placed { b with dataBufferEnd := b.bufferEndReset (size + MD_SIZE), sharedMemory := mem } placed := by
  obtain ⟨bytes, mem, hbytes, -, -, hset, hplaced⟩ := write_id h hstart hid (by omega) hroom
  refine ⟨mem, ?_, hplaced⟩
  rw [allocateBuf_of_room hsize hroom, allocateAt, hbytes, int2byte_of_le hlarge]
  simp only [ok_bind, bufIdx] at hset ⊢
  rw [hset]
  rfl

/-- Both halves of a header. -/
theorem headerAt_of_setSlice {mem mem₁ mem₂ idBytes sizeBytes : Bytes} {idx : Int}
    (hid : setSlice mem idx.toNat idBytes = .ok mem₁) (hidLength : idBytes.length = 4)
    (hsize : setSlice mem₁ (idx.toNat + ID_NBYTES) sizeBytes = .ok mem₂) (hsizeLength : sizeBytes.length = 4) :
    HeaderAt mem₂ idx (byte2int idBytes) (byte2int sizeBytes) := by
  have hnbytes := ID_NBYTES_eq
  have hsecond := slice_setSlice_self hsize
  have hfirst := slice_setSlice_self hid
  rw [hsizeLength] at hsecond
  rw [hidLength] at hfirst
  rw [HeaderAt, slice_setSlice hsize (by omega), hnbytes, hfirst]
  exact ⟨rfl, congrArg byte2int hsecond⟩

/-- The chunk behind all others. -/
theorem Placed.append (h : Placed b placed) {mem : Bytes} {v : Int} {c : Chunk}
    (hlength : mem.length = b.sharedMemory.length) (hc : c.address = v)
    (hend : b.dataBufferEnd ≤ v) (hlap : v + c.size ≤ b.dataBufferStart + b.dataBufferSize)
    (hstart : b.dataBufferStart < b.dataBufferSize) (hfits : FitsAt b.dataBufferSize v c.size)
    (hempty : placed = [] → v = 0)
    (hold : ∀ p ∈ placed, HeaderAt mem (p.2 % b.dataBufferSize) p.1.id p.1.size)
    (hnew : HeaderAt mem (v % b.dataBufferSize) c.id c.size) :
    Placed (SingleWriterShmRingBuffer.recordChunk { b with sharedMemory := mem } v c.size) (placed ++ [(c, v)]) := by
  have hpos := hfits.pos
  have hbegin := h.start_le_end
  constructor
  case size_pos => exact h.size_pos
  case memory => exact hlength.symm ▸ h.memory
  case start_nonneg => exact h.start_nonneg
  case start_le_end =>
    show b.dataBufferStart ≤ v + c.size
    linarith
  case lap => exact hlap
  case end_lt =>
    show v + c.size < 2 * b.dataBufferSize
    linarith
  case order =>
    rw [List.pairwise_append]
    refine ⟨h.order, List.pairwise_singleton _ _, fun p hp q hq => ?_⟩
    rw [List.mem_singleton] at hq
    subst hq
    exact (h.within p hp).2.trans hend
  case within =>
    intro p hp
    show b.dataBufferStart ≤ p.2 ∧ p.2 + p.1.size ≤ v + c.size
    rw [List.mem_append, List.mem_singleton] at hp
    rcases hp with hp | rfl
    · have hwithin := h.within p hp
      exact ⟨hwithin.1, by linarith⟩
    · exact ⟨hbegin.trans hend, le_rfl⟩
  case fits =>
    intro p hp
    rw [List.mem_append, List.mem_singleton] at hp
    rcases hp with hp | rfl
    · exact h.fits p hp
    · exact hfits
  case address =>
    intro p hp
    rw [List.mem_append, List.mem_singleton] at hp
    rcases hp with hp | rfl
    · exact h.address p hp
    · exact congrArg (· % b.dataBufferSize) hc
  case header =>
    intro p hp
    rw [List.mem_append, List.mem_singleton] at hp
    rcases hp with hp | rfl
    · exact hold p hp
    · exact hnew
  case head =>
    intro p hp
    cases placed with
    | nil =>
      obtain rfl : (c, v) = p := Option.some.inj hp
      exact (hempty rfl).trans (h.empty rfl).1.symm
    | cons q placed => exact h.head p hp
  case empty => exact fun hnil => absurd hnil (List.append_ne_nil_of_right_ne_nil _ (List.cons_ne_nil _ _))

/-- A chunk that is given out. -/
theorem allocateBuf_of_fits (h : Placed b placed) (hstart : b.dataBufferStart < b.dataBufferSize)
    (hid : b.monotonicIdEnd < ID_MAX) (hsize : 0 < size) (hroom : b.hasRoom (size + MD_SIZE) = true)
    (hsmall : size + MD_SIZE < 2 ^ 31) :
    ∃ mem, b.allocateBuf size = (.ok (b.bufferEndReset (size + MD_SIZE), b.monotonicIdEnd),
        SingleWriterShmRingBuffer.recordChunk { b with sharedMemory := mem }
          (b.bufferEndReset (size + MD_SIZE)) (size + MD_SIZE)) ∧
      Placed (SingleWriterShmRingBuffer.recordChunk { b with sharedMemory := mem }
          (b.bufferEndReset (size + MD_SIZE)) (size + MD_SIZE))
        (placed ++ [(⟨b.monotonicIdEnd, b.bufferEndReset (size + MD_SIZE), size + MD_SIZE⟩,
          b.bufferEndReset (size + MD_SIZE))]) := by
  have hmd := MD_SIZE_eq
  have hnbytes := ID_NBYTES_eq
  have hlarge : 8 < size + MD_SIZE := by omega
  obtain ⟨hle, hlap, hfits⟩ := reset_place h.size_pos h.start_le_end hlarge hroom
  obtain ⟨idBytes, mem₁, hidBytes, hidLength, hidValue, hset₁, hplaced₁⟩ := write_id h hstart hid hlarge hroom
  obtain ⟨sizeBytes, hsizeBytes, hsizeLength, hsizeValue⟩ := int2byte_of_lt (by omega) hsmall
  have hroomy : ((ID_NBYTES : Nat) + sizeBytes.length : Int) ≤ size + MD_SIZE := by
    omega
  obtain ⟨mem₂, hset₂, hplaced₂⟩ := hplaced₁.write hfits (fun p hp => h.apart_of_room hle hlap hp) hroomy
  refine ⟨mem₂, ?_, ?_⟩
  · rw [allocateBuf_of_room hsize hroom, allocateAt, hidBytes, hsizeBytes]
    simp only [ok_bind, bufIdx] at hset₁ hset₂ ⊢
    rw [hset₁]
    simp only
    rw [hset₂]
    rfl
  · have hend : b.bufferEndReset (size + MD_SIZE) + (size + MD_SIZE) ≤ b.dataBufferStart + b.dataBufferSize := by
      linarith
    refine h.append (c := ⟨b.monotonicIdEnd, b.bufferEndReset (size + MD_SIZE), size + MD_SIZE⟩)
      ((length_setSlice hset₂).trans (length_setSlice hset₁)) rfl hle hend hstart hfits ?_ hplaced₂.header ?_
    · intro hnil
      subst hnil
      exact h.reset_of_empty (by linarith) hroom
    · have hheader := headerAt_of_setSlice hset₁ hidLength hset₂ hsizeLength
      rwa [hidValue, hsizeValue] at hheader

end Allocate

end Yuan.SharedMemory
