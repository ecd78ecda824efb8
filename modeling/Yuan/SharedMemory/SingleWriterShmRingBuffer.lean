import Yuan.Lib.Bytes
import Yuan.Lib.Dict
import Mathlib.Tactic.Common

/-!
# `SingleWriterShmRingBuffer`: chunks in a ring

The writer's side of the ring buffer. A chunk starts with its id and its size, and is given out by its address.
Addresses only grow while chunks are allocated, and are taken modulo the size of the buffer; a chunk that does not fit
before the end of the buffer starts at its beginning. Chunks are freed in the order in which they were allocated.
-/

namespace Yuan.SharedMemory

def ID_NBYTES : Nat := 4
def ID_MAX : Nat := 2 ^ 31
def SIZE_NBYTES : Nat := 4
def MD_SIZE : Nat := ID_NBYTES + SIZE_NBYTES

theorem ID_NBYTES_eq : ID_NBYTES = 4 := rfl
theorem ID_MAX_eq : ID_MAX = 2147483648 := rfl
theorem MD_SIZE_eq : MD_SIZE = 8 := rfl

/-- The exceptions of the ring buffer. -/
inductive RingError where
  | memoryError (msg : String)
  | py (error : PyError)

/-- `int2byte`: four bytes, lowest first, for a signed integer. -/
def int2byte (integer : Int) : Except PyError Bytes :=
  if 2 ^ 31 ≤ integer ∨ integer < -2 ^ 31 then .error (.overflowError "int too big to convert")
  else .ok (bigEndian (integer % 2 ^ 32).toNat ID_NBYTES).reverse

/-- `byte2int`. -/
def byte2int (bytes : Bytes) : Int :=
  let value := fromBytesBig bytes.reverse
  if 2 * value < 256 ^ bytes.length then value else (value : Int) - 256 ^ bytes.length

structure SingleWriterShmRingBuffer where
  dataBufferSize : Int
  sharedMemory : Bytes
  metadata : Dict Nat Int := Dict.empty
  monotonicIdStart : Nat := 0
  monotonicIdEnd : Nat := 0
  dataBufferStart : Int := 0
  dataBufferEnd : Int := 0

namespace SingleWriterShmRingBuffer

variable (b : SingleWriterShmRingBuffer)

/-- Where a chunk of `size` bytes would start: behind the last one, or at the beginning of the buffer. -/
def bufferEndReset (size : Int) : Int :=
  if b.dataBufferSize < b.dataBufferEnd % b.dataBufferSize + size then
    (b.dataBufferEnd / b.dataBufferSize + 1) * b.dataBufferSize
  else b.dataBufferEnd

/-- Whether such a chunk does not reach the first one. -/
def hasRoom (size : Int) : Bool := b.bufferEndReset size + size - b.dataBufferStart ≤ b.dataBufferSize

/-- The index of an address in the buffer. -/
def bufIdx (address : Int) : Nat := (address % b.dataBufferSize).toNat

/-- The record of a chunk that is written, and the next addresses and ids. -/
def recordChunk (address size : Int) : SingleWriterShmRingBuffer := { b with
  metadata := b.metadata.set (b.monotonicIdEnd % ID_MAX) address
  dataBufferEnd := address + size
  monotonicIdEnd := (b.monotonicIdEnd + 1) % ID_MAX }

/-- The writes of `allocate_buf`, for a chunk at `address` whose size includes its header. -/
def allocateAt (address size : Int) : Except RingError (Int × Nat) × SingleWriterShmRingBuffer :=
  let b := { b with dataBufferEnd := address }
  match int2byte b.monotonicIdEnd >>= setSlice b.sharedMemory (b.bufIdx address) with
  | .error error => (.error (.py error), b)
  | .ok sharedMemory =>
    let b := { b with sharedMemory }
    match int2byte size >>= setSlice b.sharedMemory (b.bufIdx address + ID_NBYTES) with
    | .error error => (.error (.py error), b)
    | .ok sharedMemory =>
      let b := { b with sharedMemory }
      (.ok (address, b.monotonicIdEnd), b.recordChunk address size)

/-- `allocate_buf`: the address and the id, or an exception, and the buffer after the call. -/
def allocateBuf (size : Int) : Except RingError (Int × Nat) × SingleWriterShmRingBuffer :=
  if size ≤ 0 then (.error (.py (.assertionError "Size must be greater than 0")), b)
  else if b.hasRoom (size + MD_SIZE) then b.allocateAt (b.bufferEndReset (size + MD_SIZE)) (size + MD_SIZE)
  else
    (.error (.memoryError "Not enough space in the data buffer, try calling free_buf() to free up space"), b)

/-- `access_buf`: the data of a chunk, its id and its size. -/
def accessBuf (address : Int) : Bytes × Int × Int :=
  let bufIdx := b.bufIdx address
  let id := byte2int (slice b.sharedMemory bufIdx (bufIdx + ID_NBYTES))
  let size := byte2int (slice b.sharedMemory (bufIdx + ID_NBYTES) (bufIdx + MD_SIZE))
  (slice b.sharedMemory (bufIdx + MD_SIZE) (bufIdx + size).toNat, id, size)

/-- The buffer without its first chunk. -/
def freeFirst : SingleWriterShmRingBuffer :=
  let metadata := b.metadata.erase b.monotonicIdStart
  let monotonicIdStart := (b.monotonicIdStart + 1) % ID_MAX
  match metadata.get? monotonicIdStart with
  | some next => { b with
      metadata, monotonicIdStart
      dataBufferStart := b.dataBufferStart + (next - b.dataBufferStart) % b.dataBufferSize }
  | none => { b with metadata, monotonicIdStart, dataBufferStart := 0, dataBufferEnd := 0 }

/-- The loop of `free_buf`, with fuel for its turns. `isFreeFn` is also told how often it was called before, so that
its answers are any. -/
def freeLoop (isFreeFn : Nat → Nat → Bytes → Bool) (nbytes : Int) :
    Nat → SingleWriterShmRingBuffer → Int → Nat → Option SingleWriterShmRingBuffer
  | 0, _, _, _ => none
  | fuel + 1, b, freedBytes, calls =>
    match b.metadata.get? b.monotonicIdStart with
    | none => some b
    | some address =>
      if freedBytes < nbytes then
        let accessed := b.accessBuf address
        if isFreeFn calls b.monotonicIdStart accessed.1 then
          freeLoop isFreeFn nbytes fuel b.freeFirst (freedBytes + accessed.2.2) (calls + 1)
        else some b
      else some b

/-- The ids from `before` on up to `after`, which may have wrapped around. -/
def idRange (before after : Nat) : List Nat :=
  if before ≤ after then List.range' before (after - before)
  else List.range' before (ID_MAX - before) ++ List.range' 0 after

/-- `free_buf`: the freed ids, and the buffer after the call. -/
def freeBuf (isFreeFn : Nat → Nat → Bytes → Bool) (nbytes : Option Int) :
    Option (List Nat × SingleWriterShmRingBuffer) := do
  let after ← freeLoop isFreeFn (nbytes.getD b.dataBufferSize) (b.metadata.keys.length + 1) b 0 0
  let wrapped :=
    if after.dataBufferSize ≤ after.dataBufferStart then
      { after with
        dataBufferStart := after.dataBufferStart - after.dataBufferSize
        dataBufferEnd := after.dataBufferEnd - after.dataBufferSize }
    else after
  return (idRange b.monotonicIdStart after.monotonicIdStart, wrapped)

/-- What a user of the buffer writes to the data of a chunk. -/
def writeData (address : Int) (data : Bytes) : Except PyError SingleWriterShmRingBuffer := do
  return { b with sharedMemory := ← setSlice b.sharedMemory (b.bufIdx address + MD_SIZE) data }

end SingleWriterShmRingBuffer

end Yuan.SharedMemory
