import Yuan.Lib.Bytes

/-!
# Messages in a chunk of the ring buffer

A value is pickled into a main buffer and the large buffers that are kept out of band. A message that
fits is written into its chunk behind a zero byte: the number of buffers, then each buffer behind its
length. What a longer message of an earlier lap left behind it is never read.
-/

namespace Yuan.SharedMemory

variable {buffers : List Bytes} {buf : Bytes}

/-- `pickle`, with protocol 5 and out-of-band buffers: `dumps` returns the main buffer and the ones
that the callback kept. What `loads` returns may keep views of the buffers it is given, which are slices of the
chunk: it is the object for as long as the chunk is not written again, and so when it is dequeued. -/
structure Pickle (Obj : Type) where
  dumps : Obj → Bytes × List Bytes
  loads : Bytes → List Bytes → Except PyError Obj
  loads_dumps : ∀ obj, loads (dumps obj).1 (dumps obj).2 = .ok obj

/-- `all_buffers`. -/
def Pickle.allBuffers {Obj : Type} (pickle : Pickle Obj) (obj : Obj) : List Bytes :=
  (pickle.dumps obj).1 :: (pickle.dumps obj).2

/-- `total_bytes`: 2 bytes for the number of buffers, 4 for the size of the main one, and the buffers
out of band with their sizes. -/
def totalBytes (outOfBand : List Bytes) : Nat := 6 + (outOfBand.map fun buf => buf.length + 4).sum

/-- The message goes through the chunk, not through the socket. -/
def Fits {Obj : Type} (pickle : Pickle Obj) (maxChunkBytes : Nat) (obj : Obj) : Prop :=
  totalBytes (pickle.dumps obj).2 + (pickle.dumps obj).1.length < maxChunkBytes

instance {Obj : Type} (pickle : Pickle Obj) (maxChunkBytes : Nat) (obj : Obj) :
    Decidable (Fits pickle maxChunkBytes obj) := by
  unfold Fits
  infer_instance

/-- Each buffer behind its length in 4 bytes. -/
def writeBuffers (buf : Bytes) (offset : Nat) : List Bytes → Except PyError Bytes
  | [] => .ok buf
  | buffer :: buffers => do
    let size ← toBytesBig buffer.length 4
    let buf ← setSlice buf offset size
    let buf ← setSlice buf (offset + 4) buffer
    writeBuffers buf (offset + 4 + buffer.length) buffers

/-- What `enqueue` writes into its chunk. -/
def writeMessage (buf : Bytes) (allBuffers : List Bytes) : Except PyError Bytes := do
  let buf ← setSlice buf 0 [0]
  let count ← toBytesBig allBuffers.length 2
  let buf ← setSlice buf 1 count
  writeBuffers buf 3 allBuffers

/-- The buffers that `dequeue` finds in its chunk. -/
def readBuffers (buf : Bytes) (offset : Nat) : Nat → List Bytes
  | 0 => []
  | count + 1 =>
    let bufLen := fromBytesBig (slice buf offset (offset + 4))
    slice buf (offset + 4) (offset + 4 + bufLen) :: readBuffers buf (offset + 4 + bufLen) count

/-- What `dequeue` reads from its chunk; `none` is the overflow byte, with which the message comes
through the socket. -/
def readMessage (buf : Bytes) : Option (List Bytes) :=
  if buf.head? = some 1 then none
  else some (readBuffers buf 3 (fromBytesBig (slice buf 1 3)))

/-- The bytes that spell the buffers. -/
def framed (buffers : List Bytes) : Bytes :=
  (buffers.map fun buffer => bigEndian buffer.length 4 ++ buffer).flatten

/-- The sizes can be written in 2 and in 4 bytes. -/
def SizesFit (allBuffers : List Bytes) : Prop :=
  allBuffers.length < 256 ^ 2 ∧ ∀ buffer ∈ allBuffers, buffer.length < 256 ^ 4

instance (allBuffers : List Bytes) : Decidable (SizesFit allBuffers) := by
  unfold SizesFit
  infer_instance

theorem length_framed (buffers : List Bytes) :
    (framed buffers).length = (buffers.map fun buffer => buffer.length + 4).sum := by
  induction buffers with
  | nil => rfl
  | cons buffer buffers ih =>
    rw [framed, List.map_cons, List.flatten_cons, List.length_append, ← framed, ih, List.map_cons,
      List.sum_cons, List.length_append, length_bigEndian]
    omega

/-- What is written, and behind what. -/
theorem writeBuffers_eq_ok {front rest buf' : Bytes} (hbuf : buf = front ++ rest)
    (h : writeBuffers buf front.length buffers = .ok buf') :
    (∀ buffer ∈ buffers, buffer.length < 256 ^ 4) ∧ (framed buffers).length ≤ rest.length ∧
      buf' = front ++ framed buffers ++ rest.drop (framed buffers).length := by
  induction buffers generalizing buf front rest with
  | nil =>
    cases h
    refine ⟨fun _ hmem => absurd hmem List.not_mem_nil, Nat.zero_le _, ?_⟩
    rw [hbuf, framed]
    simp
  | cons buffer buffers ih =>
    obtain ⟨size, hsize, hwrite⟩ := bind_eq_ok.mp h
    obtain ⟨hlt, rfl⟩ := toBytesBig_eq_ok.mp hsize
    obtain ⟨buf₁, h₁, hwrite⟩ := bind_eq_ok.mp hwrite
    obtain ⟨buf₂, h₂, hwrite⟩ := bind_eq_ok.mp hwrite
    have hroom₁ := (setSlice_eq_ok.mp h₁).1
    rw [hbuf, List.length_append, length_bigEndian] at hroom₁
    rw [setSlice_behind _ hbuf (by rw [length_bigEndian]; omega)] at h₁
    have hbuf₁ : buf₁ = front ++ bigEndian buffer.length 4 ++ rest.drop 4 := (Except.ok.inj h₁).symm
    have hlen₁ : (front ++ bigEndian buffer.length 4).length = front.length + 4 := by
      rw [List.length_append, length_bigEndian]
    have hroom₂ := (setSlice_eq_ok.mp h₂).1
    rw [hbuf₁, List.length_append, hlen₁, List.length_drop] at hroom₂
    rw [← hlen₁, setSlice_behind _ hbuf₁ (by rw [List.length_drop]; omega), List.drop_drop] at h₂
    have hbuf₂ := (Except.ok.inj h₂).symm
    have hlen₂ : (front ++ bigEndian buffer.length 4 ++ buffer).length =
        front.length + 4 + buffer.length := by
      rw [List.length_append, hlen₁]
    rw [← hlen₂] at hwrite
    obtain ⟨hsizes, hroom, hbuf'⟩ := ih hbuf₂ hwrite
    have hcons : framed (buffer :: buffers) =
        bigEndian buffer.length 4 ++ buffer ++ framed buffers := by
      rw [framed, List.map_cons, List.flatten_cons, framed]
    refine ⟨?_, ?_, ?_⟩
    · intro b hb
      rcases List.mem_cons.mp hb with rfl | hb
      · exact hlt
      · exact hsizes b hb
    · rw [List.length_drop] at hroom
      rw [hcons, List.length_append, List.length_append, length_bigEndian]
      omega
    · rw [hbuf', hcons, List.drop_drop]
      simp only [List.append_assoc, List.length_append, length_bigEndian]
      congr 5
      omega

/-- The buffers are written if there is room for them. -/
theorem writeBuffers_isOk {front rest : Bytes} (hbuf : buf = front ++ rest)
    (hsizes : ∀ buffer ∈ buffers, buffer.length < 256 ^ 4) (hroom : (framed buffers).length ≤ rest.length) :
    ∃ buf', writeBuffers buf front.length buffers = .ok buf' := by
  induction buffers generalizing buf front rest with
  | nil => exact ⟨buf, rfl⟩
  | cons buffer buffers ih =>
    have hlen : (framed (buffer :: buffers)).length =
        4 + buffer.length + (framed buffers).length := by
      rw [framed, List.map_cons, List.flatten_cons, List.length_append, List.length_append,
        length_bigEndian, framed]
    have hset := setSlice_behind (bigEndian buffer.length 4) hbuf
      (by rw [length_bigEndian]; omega)
    rw [length_bigEndian] at hset
    have hset' := setSlice_behind buffer
      (rfl : front ++ bigEndian buffer.length 4 ++ rest.drop 4 = _)
      (by rw [List.length_drop]; omega)
    obtain ⟨buf', hbuf'⟩ := ih (rfl : front ++ bigEndian buffer.length 4 ++ buffer ++
      (rest.drop 4).drop buffer.length = _) (fun b hb => hsizes b (List.mem_cons_of_mem _ hb))
      (by rw [List.length_drop, List.length_drop]; omega)
    refine ⟨buf', ?_⟩
    rw [List.length_append, List.length_append, length_bigEndian] at hbuf'
    rw [List.length_append, length_bigEndian] at hset'
    rw [writeBuffers, toBytesBig_eq_ok.mpr ⟨hsizes buffer List.mem_cons_self, rfl⟩, ok_bind, hset,
      ok_bind, hset', ok_bind, hbuf']

theorem readBuffers_eq {front rest : Bytes} (hsizes : ∀ buffer ∈ buffers, buffer.length < 256 ^ 4)
    (hbuf : buf = front ++ framed buffers ++ rest) : readBuffers buf front.length buffers.length = buffers := by
  induction buffers generalizing front with
  | nil => rfl
  | cons buffer buffers ih =>
    have hcons : framed (buffer :: buffers) =
        bigEndian buffer.length 4 ++ (buffer ++ framed buffers) := by
      rw [framed, List.map_cons, List.flatten_cons, framed, List.append_assoc]
    have hlen : fromBytesBig (slice buf front.length (front.length + 4)) = buffer.length := by
      have hslice : slice buf front.length (front.length + (bigEndian buffer.length 4).length) =
          bigEndian buffer.length 4 :=
        slice_of_eq (buffer ++ framed buffers ++ rest) (by rw [hbuf, hcons]; simp)
      rw [length_bigEndian] at hslice
      rw [hslice, fromBytesBig_bigEndian (hsizes buffer List.mem_cons_self)]
    have hfront : (front ++ bigEndian buffer.length 4).length = front.length + 4 := by
      rw [List.length_append, length_bigEndian]
    have hbuffer : slice buf (front.length + 4) (front.length + 4 + buffer.length) = buffer := by
      rw [← hfront]
      exact slice_of_eq (framed buffers ++ rest) (by rw [hbuf, hcons]; simp)
    have hrest : readBuffers buf (front.length + 4 + buffer.length) buffers.length = buffers := by
      have hfront' : (front ++ bigEndian buffer.length 4 ++ buffer).length =
          front.length + 4 + buffer.length := by
        rw [List.length_append, hfront]
      rw [← hfront']
      exact ih (fun b hb => hsizes b (List.mem_cons_of_mem _ hb)) (by rw [hbuf, hcons]; simp)
    rw [List.length_cons, readBuffers]
    simp only [hlen, hbuffer, hrest]

/-- A message that fits is written. -/
theorem writeMessage_isOk {Obj : Type} {pickle : Pickle Obj} {obj : Obj} (hfits : Fits pickle buf.length obj)
    (hsizes : SizesFit (pickle.allBuffers obj)) : ∃ buf', writeMessage buf (pickle.allBuffers obj) = .ok buf' := by
  obtain ⟨hcount, hsizes⟩ := hsizes
  have hlen : 3 + (framed (pickle.allBuffers obj)).length ≤ buf.length := by
    rw [length_framed, Pickle.allBuffers, List.map_cons, List.sum_cons]
    unfold Fits totalBytes at hfits
    omega
  have hzero : setSlice buf 0 [0] = .ok ([0] ++ buf.drop 1) :=
    setSlice_behind [0] (List.nil_append buf).symm (by rw [List.length_singleton]; omega)
  have hset := setSlice_behind (bigEndian (pickle.allBuffers obj).length 2)
    (rfl : [0] ++ buf.drop 1 = [0] ++ buf.drop 1)
    (by rw [length_bigEndian, List.length_drop]; omega)
  rw [length_bigEndian, List.length_singleton] at hset
  obtain ⟨buf', hbuf'⟩ := writeBuffers_isOk (rfl : [0] ++
    bigEndian (pickle.allBuffers obj).length 2 ++ (buf.drop 1).drop 2 = _) hsizes
    (by rw [List.length_drop, List.length_drop]; omega)
  refine ⟨buf', ?_⟩
  rw [writeMessage, hzero, ok_bind, toBytesBig_eq_ok.mpr ⟨hcount, rfl⟩, ok_bind, hset]
  exact hbuf'

/-- A message that was written is read back. -/
theorem readMessage_writeMessage {buf' : Bytes} {allBuffers : List Bytes} (h : writeMessage buf allBuffers = .ok buf') :
    readMessage buf' = some allBuffers ∧ buf'.length = buf.length := by
  obtain ⟨buf₁, h₁, hwrite⟩ := bind_eq_ok.mp h
  obtain ⟨count, hcount, hwrite⟩ := bind_eq_ok.mp hwrite
  obtain ⟨hlt, rfl⟩ := toBytesBig_eq_ok.mp hcount
  obtain ⟨buf₂, h₂, hwrite⟩ := bind_eq_ok.mp hwrite
  obtain ⟨hroom₁, hbuf₁⟩ := setSlice_eq_ok.mp h₁
  rw [List.take_zero, List.nil_append, List.length_singleton] at hbuf₁
  have hroom₂ := (setSlice_eq_ok.mp h₂).1
  rw [← hbuf₁, List.length_append, length_bigEndian, List.length_drop, List.length_singleton] at hroom₂
  have hset := setSlice_behind (bigEndian allBuffers.length 2) hbuf₁.symm
    (by rw [length_bigEndian, List.length_drop]; omega)
  rw [List.length_singleton] at hset
  rw [hset] at h₂
  have hbuf₂ := (Except.ok.inj h₂).symm
  have hfront : ([0] ++ bigEndian allBuffers.length 2).length = 3 := by
    rfl
  obtain ⟨hsizes, hroom, hbuf'⟩ := writeBuffers_eq_ok hbuf₂ hwrite
  have hcountRead : fromBytesBig (slice buf' 1 3) = allBuffers.length := by
    have hslice : slice buf' [(0 : UInt8)].length
        ([(0 : UInt8)].length + (bigEndian allBuffers.length 2).length) = bigEndian allBuffers.length 2 :=
      slice_of_eq _ (by rw [hbuf', List.append_assoc])
    rw [show slice buf' 1 3 = bigEndian allBuffers.length 2 from hslice, fromBytesBig_bigEndian hlt]
  have hhead : buf'.head? = some 0 := by
    rw [hbuf']
    rfl
  refine ⟨?_, ?_⟩
  · rw [readMessage, hhead, if_neg (by decide), hcountRead, ← hfront, readBuffers_eq hsizes hbuf']
  · have hlen := hroom
    rw [length_bigEndian, List.length_drop, List.length_drop] at hlen
    rw [hbuf', List.length_append, List.length_append, hfront, length_bigEndian, List.length_drop,
      List.length_drop, List.length_drop]
    omega

end Yuan.SharedMemory
