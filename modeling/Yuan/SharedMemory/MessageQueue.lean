import Mathlib.Logic.Function.Basic
import Yuan.Lib.Runs
import Yuan.SharedMemory.MessageFormat

/-!
# The broadcast ring buffer

One writer and `n_reader` readers share a ring of chunks. Each chunk has a written flag and a read flag
for each reader, and these are all the synchronisation there is. A step reads or writes one flag, or
reads or writes the content of one chunk; the parties take their steps in any order.
-/

namespace Yuan.SharedMemory

variable {Obj : Type}

/-- What a queue is created with. -/
structure QueueParams (Obj : Type) where
  nReader : Nat
  maxChunkBytes : Nat
  maxChunks : Nat
  pickle : Pickle Obj
  maxChunks_pos : 0 < maxChunks

/-- The shared memory: the chunks, and the flags of each. -/
structure ShmRingBuffer where
  data : Nat → Bytes
  writtenFlag : Nat → Bool
  readFlag : Nat → Nat → Bool

namespace ShmRingBuffer

def setData (b : ShmRingBuffer) (idx : Nat) (buf : Bytes) : ShmRingBuffer :=
  { b with data := Function.update b.data idx buf }

def setWritten (b : ShmRingBuffer) (idx : Nat) (flag : Bool) : ShmRingBuffer :=
  { b with writtenFlag := Function.update b.writtenFlag idx flag }

def setRead (b : ShmRingBuffer) (idx rank : Nat) (flag : Bool) : ShmRingBuffer :=
  { b with readFlag := Function.update b.readFlag idx (Function.update (b.readFlag idx) rank flag) }

end ShmRingBuffer

/-- Where the writer is in `enqueue`. -/
inductive WriterPhase (Obj : Type) where
  | idle
  /-- adds up the read flags; the first `flag` of them are read -/
  | summing (obj : Obj) (flag readCount : Nat)
  /-- found a chunk to write to -/
  | claiming (obj : Obj)
  /-- has marked the chunk as not written -/
  | writing (obj : Obj)
  /-- has written the chunk; the first `flag` read flags are reset -/
  | resetting (obj : Obj) (flag : Nat)

/-- Where a reader is in `dequeue`. -/
inductive ReaderPhase (Obj : Type) where
  | idle
  | polling
  /-- has read its own flag, and reads the written flag next -/
  | sawReadFlag (readFlag : Bool)
  /-- found a chunk that it has not read -/
  | reading
  /-- has read the chunk; `none` is a message that comes through the socket -/
  | marking (obj : Option Obj)
  | receiving

/-- A local reader, and what it has dequeued. -/
structure Reader (Obj : Type) where
  currentIdx : Nat := 0
  phase : ReaderPhase Obj := .idle
  dequeued : List Obj := []

/-- The reader has decided to read its chunk, and has not set its flag. -/
def Reader.HoldsChunk (reader : Reader Obj) : Prop :=
  match reader.phase with
  | .reading => True
  | .marking _ => True
  | _ => False

/-- The shared memory and the parties, and the values that were enqueued. -/
structure MessageQueue (Obj : Type) where
  buffer : ShmRingBuffer
  currentIdx : Nat
  writer : WriterPhase Obj
  readers : Nat → Reader Obj
  enqueued : List Obj

namespace MessageQueue

/-- The memory is zeroed when it is created. -/
def new (params : QueueParams Obj) : MessageQueue Obj where
  buffer :=
    { data := fun _ => List.replicate params.maxChunkBytes 0
      writtenFlag := fun _ => false
      readFlag := fun _ _ => false }
  currentIdx := 0
  writer := .idle
  readers := fun _ => {}
  enqueued := []

def setReader (q : MessageQueue Obj) (rank : Nat) (reader : Reader Obj) : MessageQueue Obj :=
  { q with readers := Function.update q.readers rank reader }

/-- The chunk is written, and the flags that were added up are not all set. -/
def notReady (params : QueueParams Obj) (q : MessageQueue Obj) (readCount : Nat) : Bool :=
  q.buffer.writtenFlag q.currentIdx && decide (readCount ≠ params.nReader)

/-- The next step of `acquire_write` and of the caller that writes to the chunk. -/
def writerStep (params : QueueParams Obj) (q : MessageQueue Obj) : Option (MessageQueue Obj) :=
  match q.writer with
  | .idle => none
  | .summing obj flag readCount =>
    if flag < params.nReader then
      some { q with writer := .summing obj (flag + 1)
                      (readCount + (q.buffer.readFlag q.currentIdx flag).toNat) }
    else if q.notReady params readCount then some { q with writer := .summing obj 0 0 }
    else some { q with writer := .claiming obj }
  | .claiming obj =>
    some { q with buffer := q.buffer.setWritten q.currentIdx false, writer := .writing obj }
  | .writing obj =>
    match writeMessage (q.buffer.data q.currentIdx) (params.pickle.allBuffers obj) with
    | .error _ => some { q with writer := .idle }
    | .ok buf => some { q with buffer := q.buffer.setData q.currentIdx buf, writer := .resetting obj 0 }
  | .resetting obj flag =>
    if flag < params.nReader then
      some { q with buffer := q.buffer.setRead q.currentIdx flag false
                    writer := .resetting obj (flag + 1) }
    else
      some { q with
        buffer := q.buffer.setWritten q.currentIdx true
        currentIdx := (q.currentIdx + 1) % params.maxChunks
        writer := .idle
        enqueued := q.enqueued ++ [obj] }

/-- `TimeoutError` out of the loop of `acquire_write`. -/
def writerTimeout (params : QueueParams Obj) (q : MessageQueue Obj) : Option (MessageQueue Obj) :=
  match q.writer with
  | .summing _ flag readCount =>
    if params.nReader ≤ flag ∧ q.notReady params readCount = true then
      some { q with writer := .idle }
    else none
  | _ => none

/-- The next step of `acquire_read` and of the caller that reads the chunk. -/
def readerStep (params : QueueParams Obj) (q : MessageQueue Obj) (rank : Nat) :
    Option (MessageQueue Obj) :=
  let reader := q.readers rank
  match reader.phase with
  | .idle => none
  | .polling =>
    some (q.setReader rank
      { reader with phase := .sawReadFlag (q.buffer.readFlag reader.currentIdx rank) })
  | .sawReadFlag readFlag =>
    if !q.buffer.writtenFlag reader.currentIdx || readFlag then
      some (q.setReader rank { reader with phase := .polling })
    else some (q.setReader rank { reader with phase := .reading })
  | .reading =>
    match readMessage (q.buffer.data reader.currentIdx) with
    | none => some (q.setReader rank { reader with phase := .marking none })
    | some [] => some (q.setReader rank { reader with phase := .idle })
    | some (main :: outOfBand) =>
      match params.pickle.loads main outOfBand with
      | .error _ => some (q.setReader rank { reader with phase := .idle })
      | .ok obj => some (q.setReader rank { reader with phase := .marking (some obj) })
  | .marking obj =>
    let q := { q with buffer := q.buffer.setRead reader.currentIdx rank true }
    let nextIdx := (reader.currentIdx + 1) % params.maxChunks
    match obj with
    | none => some (q.setReader rank { reader with currentIdx := nextIdx, phase := .receiving })
    | some obj => some (q.setReader rank
        { reader with currentIdx := nextIdx, phase := .idle, dequeued := reader.dequeued ++ [obj] })
  | .receiving => none

/-- `TimeoutError`, or the error of a queue that is shut down, out of the loop of `acquire_read`. -/
def readerTimeout (q : MessageQueue Obj) (rank : Nat) : Option (MessageQueue Obj) :=
  let reader := q.readers rank
  match reader.phase with
  | .sawReadFlag readFlag =>
    if !q.buffer.writtenFlag reader.currentIdx || readFlag then
      some (q.setReader rank { reader with phase := .idle })
    else none
  | _ => none

/-- A step of one of the parties. -/
inductive Op (Obj : Type) where
  | enqueue (obj : Obj)
  | writer
  | writerTimeout
  | dequeue (rank : Nat)
  | reader (rank : Nat)
  | readerTimeout (rank : Nat)

/-- One step. A message that does not fit goes through a socket that is not modelled. -/
def step (params : QueueParams Obj) (q : MessageQueue Obj) : Op Obj → Option (MessageQueue Obj)
  | .enqueue obj =>
    match q.writer with
    | .idle =>
      if Fits params.pickle params.maxChunkBytes obj then some { q with writer := .summing obj 0 0 }
      else none
    | _ => none
  | .writer => q.writerStep params
  | .writerTimeout => q.writerTimeout params
  | .dequeue rank =>
    match (q.readers rank).phase with
    | .idle =>
      if rank < params.nReader then
        some (q.setReader rank { q.readers rank with phase := .polling })
      else none
    | _ => none
  | .reader rank => if rank < params.nReader then q.readerStep params rank else none
  | .readerTimeout rank => if rank < params.nReader then q.readerTimeout rank else none

/-- The writer has decided to use its chunk again. -/
def Reusing (q : MessageQueue Obj) : Prop :=
  match q.writer with
  | .claiming _ => True
  | .writing _ => True
  | .resetting _ _ => True
  | _ => False

end MessageQueue

end Yuan.SharedMemory
