import Yuan.SharedMemory.RingPlacement
import Mathlib.Data.Nat.ModEq
import Mathlib.Data.List.Perm.Subperm

/-!
# Ids, and freeing from the front

The ids of the live chunks count up modulo `ID_MAX`, so that they are distinct while there are at most `ID_MAX` of
them. A turn of the loop of `free_buf` drops the first chunk and moves the start of the data to the next one.
-/

namespace Yuan.SharedMemory

open SingleWriterShmRingBuffer

variable {placed : List (Chunk × Int)} {k : Nat}

theorem ID_MAX_pos : 0 < ID_MAX := Nat.two_pow_pos 31

theorem eq_of_id_eq {start i j : Nat} (hi : i < ID_MAX) (hj : j < ID_MAX)
    (h : (start + i) % ID_MAX = (start + j) % ID_MAX) : i = j := by
  have hmod : i ≡ j [MOD ID_MAX] := Nat.ModEq.add_left_cancel' start h
  exact hmod.eq_of_lt_of_lt hi hj

namespace Numbered

variable {b : SingleWriterShmRingBuffer} {live rest : List Chunk} {c : Chunk}

theorem nodup (h : Numbered b live) : (live.map Chunk.id).Nodup := by
  rw [h.ids]
  refine List.Nodup.map_on (fun i hi j hj hij => ?_) List.nodup_range
  rw [List.mem_range] at hi hj
  exact eq_of_id_eq (hi.trans_le h.bounded) (hj.trans_le h.bounded) hij

theorem id_head (h : Numbered b (c :: rest)) : c.id = b.monotonicIdStart := by
  have hids := h.ids
  rw [List.length_cons, List.range_succ_eq_map, List.map_cons, List.map_cons, Nat.add_zero,
    Nat.mod_eq_of_lt h.start_lt] at hids
  exact (List.cons.inj hids).1

theorem get_head (h : Numbered b (c :: rest)) : b.metadata.get? b.monotonicIdStart = some c.address :=
  (h.metadata _ _).mpr ⟨c, List.mem_cons_self, h.id_head, rfl⟩

theorem get_of_nil (h : Numbered b []) : b.metadata.get? b.monotonicIdStart = none := by
  cases hget : b.metadata.get? b.monotonicIdStart with
  | none => rfl
  | some address =>
    obtain ⟨c, hc, -⟩ := (h.metadata _ _).mp hget
    cases hc

section

variable (h : Numbered b live)
include h

/-- Every live chunk has an entry of its own in the metadata. -/
theorem length_le_keys : live.length ≤ b.metadata.keys.length := by
  have hsub : live.map Chunk.id ⊆ b.metadata.keys := by
    intro id hid
    obtain ⟨c, hc, rfl⟩ := List.mem_map.mp hid
    rw [← Dict.isSome_get?, (h.metadata _ _).mpr ⟨c, hc, rfl, rfl⟩]
    rfl
  have hle := (h.nodup.subperm hsub).length_le
  rwa [List.length_map] at hle

/-- The id of the next chunk is not that of a live one. -/
theorem end_not_mem (hroom : live.length < ID_MAX) : b.monotonicIdEnd ∉ live.map Chunk.id := by
  intro hmem
  rw [h.ids, List.mem_map] at hmem
  obtain ⟨i, hi, heq⟩ := hmem
  rw [List.mem_range] at hi
  rw [h.end_eq] at heq
  exact absurd (eq_of_id_eq (hi.trans hroom) hroom heq) hi.ne

theorem end_lt : b.monotonicIdEnd < ID_MAX := by
  rw [h.end_eq]
  exact Nat.mod_lt _ ID_MAX_pos

theorem recordChunk (hroom : live.length < ID_MAX) (mem : Bytes) (address size : Int) :
    Numbered (SingleWriterShmRingBuffer.recordChunk { b with sharedMemory := mem } address size)
      (live ++ [⟨b.monotonicIdEnd, address, size⟩]) := by
  have hend : b.monotonicIdEnd % ID_MAX = b.monotonicIdEnd := Nat.mod_eq_of_lt h.end_lt
  constructor
  case ids =>
    rw [List.map_append, List.length_append, List.length_singleton, List.range_succ, List.map_append, h.ids]
    exact congrArg (_ ++ [·]) h.end_eq
  case start_lt => exact h.start_lt
  case end_eq =>
    show (b.monotonicIdEnd + 1) % ID_MAX = (b.monotonicIdStart + (live ++ [_]).length) % ID_MAX
    rw [List.length_append, List.length_singleton, h.end_eq, Nat.mod_add_mod, Nat.add_assoc]
  case bounded =>
    rw [List.length_append]
    exact hroom
  case metadata =>
    intro id a
    show (b.metadata.set (b.monotonicIdEnd % ID_MAX) address).get? id = some a ↔ _
    rw [hend, Dict.get?_set]
    constructor
    · intro hget
      split at hget
      · rename_i hid
        exact ⟨_, List.mem_append_right _ (List.mem_singleton_self _), hid.symm, Option.some.inj hget⟩
      · obtain ⟨c, hc, hid, ha⟩ := (h.metadata _ _).mp hget
        exact ⟨c, List.mem_append_left _ hc, hid, ha⟩
    · rintro ⟨c, hc, rfl, rfl⟩
      rw [List.mem_append, List.mem_singleton] at hc
      rcases hc with hc | rfl
      · have hne : c.id ≠ b.monotonicIdEnd :=
          fun heq => h.end_not_mem hroom (heq ▸ List.mem_map_of_mem hc)
        rw [if_neg hne]
        exact (h.metadata _ _).mpr ⟨c, hc, rfl, rfl⟩
      · rw [if_pos rfl]

end

/-- The next chunk's id follows the first one's. -/
theorem get_next (h : Numbered b (c :: rest)) :
    (b.metadata.erase b.monotonicIdStart).get? ((b.monotonicIdStart + 1) % ID_MAX) =
      (rest.head?).map Chunk.address := by
  have hnodup := h.nodup
  rw [List.map_cons, List.nodup_cons, h.id_head] at hnodup
  cases rest with
  | nil =>
    rw [Dict.get?_erase]
    split
    · rfl
    · rename_i hne
      cases hget : b.metadata.get? ((b.monotonicIdStart + 1) % ID_MAX) with
      | none => rfl
      | some address =>
        obtain ⟨d, hd, hid, -⟩ := (h.metadata _ _).mp hget
        obtain rfl := List.mem_singleton.mp hd
        exact absurd (hid.symm.trans h.id_head) hne
  | cons d rest =>
    have hids := h.ids
    rw [List.length_cons, List.length_cons, List.range_succ_eq_map, List.range_succ_eq_map] at hids
    have hid : d.id = (b.monotonicIdStart + 1) % ID_MAX := (List.cons.inj (List.cons.inj hids).2).1
    have hne : d.id ≠ b.monotonicIdStart :=
      fun heq => hnodup.1 (heq ▸ List.mem_map_of_mem List.mem_cons_self)
    rw [← hid, Dict.get?_erase, if_neg hne]
    exact (h.metadata _ _).mpr ⟨d, List.mem_cons_of_mem _ List.mem_cons_self, rfl, rfl⟩

/-- The chunks behind the first one, once its id is gone from the metadata. -/
theorem tail (h : Numbered b (c :: rest)) {b' : SingleWriterShmRingBuffer}
    (hmetadata : b'.metadata = b.metadata.erase b.monotonicIdStart)
    (hstart : b'.monotonicIdStart = (b.monotonicIdStart + 1) % ID_MAX)
    (hend : b'.monotonicIdEnd = b.monotonicIdEnd) : Numbered b' rest := by
  have hshift (i : Nat) : (b'.monotonicIdStart + i) % ID_MAX = (b.monotonicIdStart + (i + 1)) % ID_MAX := by
    rw [hstart, Nat.mod_add_mod, Nat.add_assoc, Nat.add_comm 1 i]
  have hbounded := h.bounded
  constructor
  case ids =>
    have hids := h.ids
    rw [List.length_cons, List.range_succ_eq_map, List.map_cons, List.map_cons, List.map_map] at hids
    rw [(List.cons.inj hids).2]
    exact List.map_congr_left fun i _ => (hshift i).symm
  case start_lt =>
    rw [hstart]
    exact Nat.mod_lt _ ID_MAX_pos
  case end_eq => rw [hend, hshift, h.end_eq, List.length_cons]
  case bounded => exact (Nat.le_succ _).trans hbounded
  case metadata =>
    have hnodup := h.nodup
    rw [List.map_cons, List.nodup_cons, h.id_head] at hnodup
    intro id a
    rw [hmetadata, Dict.get?_erase]
    constructor
    · intro hget
      split at hget
      · cases hget
      · rename_i hne
        obtain ⟨d, hd, hid, ha⟩ := (h.metadata _ _).mp hget
        rcases List.mem_cons.mp hd with rfl | hd
        · exact absurd (hid.symm.trans h.id_head) hne
        · exact ⟨d, hd, hid, ha⟩
    · rintro ⟨d, hd, rfl, rfl⟩
      have hne : d.id ≠ b.monotonicIdStart := fun heq => hnodup.1 (heq ▸ List.mem_map_of_mem hd)
      rw [if_neg hne]
      exact (h.metadata _ _).mpr ⟨d, List.mem_cons_of_mem _ hd, rfl, rfl⟩

end Numbered

/-! ## One turn -/

section FreeFirst

variable {b : SingleWriterShmRingBuffer}

theorem freeFirst_of_last
    (hnext : (b.metadata.erase b.monotonicIdStart).get? ((b.monotonicIdStart + 1) % ID_MAX) = none) :
    b.freeFirst = { b with
      metadata := b.metadata.erase b.monotonicIdStart, monotonicIdStart := (b.monotonicIdStart + 1) % ID_MAX,
      dataBufferStart := 0, dataBufferEnd := 0 } := by
  rw [freeFirst, hnext]

theorem freeFirst_of_next {next : Int}
    (hnext : (b.metadata.erase b.monotonicIdStart).get? ((b.monotonicIdStart + 1) % ID_MAX) = some next) :
    b.freeFirst = { b with
      metadata := b.metadata.erase b.monotonicIdStart, monotonicIdStart := (b.monotonicIdStart + 1) % ID_MAX,
      dataBufferStart := b.dataBufferStart + (next - b.dataBufferStart) % b.dataBufferSize } := by
  rw [freeFirst, hnext]

/-- What a turn leaves alone, and the ids. -/
theorem freeFirst_fields : b.freeFirst.sharedMemory = b.sharedMemory ∧
    b.freeFirst.dataBufferSize = b.dataBufferSize ∧ b.freeFirst.monotonicIdEnd = b.monotonicIdEnd ∧
    b.freeFirst.metadata = b.metadata.erase b.monotonicIdStart ∧
    b.freeFirst.monotonicIdStart = (b.monotonicIdStart + 1) % ID_MAX := by
  cases hnext : (b.metadata.erase b.monotonicIdStart).get? ((b.monotonicIdStart + 1) % ID_MAX) with
  | none =>
    rw [freeFirst_of_last hnext]
    exact ⟨rfl, rfl, rfl, rfl, rfl⟩
  | some next =>
    rw [freeFirst_of_next hnext]
    exact ⟨rfl, rfl, rfl, rfl, rfl⟩

theorem accessBuf_freeFirst (address : Int) : b.freeFirst.accessBuf address = b.accessBuf address := by
  obtain ⟨hmemory, hsize, -⟩ := @freeFirst_fields b
  unfold accessBuf bufIdx
  rw [hmemory, hsize]

theorem Numbered.freeFirst {c : Chunk} {rest : List Chunk} (h : Numbered b (c :: rest)) :
    Numbered b.freeFirst rest := by
  obtain ⟨-, -, hend, hmetadata, hstart⟩ := @freeFirst_fields b
  exact h.tail hmetadata hstart hend

/-- The start of the data moves to the place of the next chunk. -/
theorem Placed.freeFirst {p : Chunk × Int} (h : Placed b (p :: placed))
    (hnumbered : Numbered b ((p :: placed).map Prod.fst)) : Placed b.freeFirst placed := by
  have hnext := hnumbered.get_next
  have hpos := h.size_pos
  obtain ⟨hbefore, horder⟩ := List.pairwise_cons.mp h.order
  cases placed with
  | nil =>
    rw [freeFirst_of_last hnext]
    constructor
    case size_pos => exact hpos
    case memory => exact h.memory
    case start_nonneg => exact le_rfl
    case start_le_end => exact le_rfl
    case lap =>
      rw [zero_add]
      exact hpos.le
    case end_lt =>
      linarith
    case order => exact List.Pairwise.nil
    case empty => exact fun _ => ⟨rfl, rfl⟩
    all_goals
      intro q hq
      cases hq
  | cons q placed =>
    -- the place of the next chunk is less than one buffer away from the start
    have hfar : b.dataBufferStart + (q.1.address - b.dataBufferStart) % b.dataBufferSize = q.2 := by
      obtain ⟨hlow, hhigh⟩ := h.within q (List.mem_cons_of_mem _ List.mem_cons_self)
      have hq := (h.fits q (List.mem_cons_of_mem _ List.mem_cons_self)).pos
      have hlap := h.lap
      rw [Int.sub_emod, h.address q (List.mem_cons_of_mem _ List.mem_cons_self), ← Int.sub_emod,
        Int.emod_eq_of_lt (by linarith) (by linarith)]
      linarith
    rw [freeFirst_of_next hnext, hfar]
    obtain ⟨hlow, hhigh⟩ := h.within q (List.mem_cons_of_mem _ List.mem_cons_self)
    have hq := (h.fits q (List.mem_cons_of_mem _ List.mem_cons_self)).pos
    have hlap := h.lap
    have hstart := h.start_nonneg
    constructor
    case size_pos => exact hpos
    case memory => exact h.memory
    case start_nonneg => exact hstart.trans hlow
    case start_le_end =>
      linarith
    case lap =>
      linarith
    case end_lt => exact h.end_lt
    case order => exact horder
    case within =>
      intro r hr
      refine ⟨?_, (h.within r (List.mem_cons_of_mem _ hr)).2⟩
      rcases List.mem_cons.mp hr with rfl | hr
      · exact le_rfl
      · have hafter := (List.pairwise_cons.mp horder).1 r hr
        linarith
    case fits => exact fun r hr => h.fits r (List.mem_cons_of_mem _ hr)
    case address => exact fun r hr => h.address r (List.mem_cons_of_mem _ hr)
    case header => exact fun r hr => h.header r (List.mem_cons_of_mem _ hr)
    case head =>
      intro r hr
      exact congrArg Prod.snd (Option.some.inj hr).symm
    case empty => exact fun hnil => absurd hnil (List.cons_ne_nil _ _)

end FreeFirst

/-! ## The loop -/

/-- How many of the chunks a call of `free_buf` frees, by the answers of `is_free_fn` and the bytes to free. -/
def freedCount (isFreeFn : Nat → Nat → Bytes → Bool) (nbytes : Int) (data : Int → Bytes) :
    Nat → Int → List Chunk → Nat
  | _, _, [] => 0
  | calls, freedBytes, c :: live =>
    if freedBytes < nbytes ∧ isFreeFn calls c.id (data c.address) = true then
      freedCount isFreeFn nbytes data (calls + 1) (freedBytes + c.size) live + 1
    else 0

section FreeLoop

variable {b : SingleWriterShmRingBuffer} {isFreeFn : Nat → Nat → Bytes → Bool} {nbytes : Int}

theorem freedCount_le (data : Int → Bytes) (calls : Nat) (freedBytes : Int) (live : List Chunk) :
    freedCount isFreeFn nbytes data calls freedBytes live ≤ live.length := by
  induction live generalizing calls freedBytes with
  | nil => exact le_rfl
  | cons c live ih =>
    rw [freedCount]
    split
    · exact Nat.succ_le_succ (ih _ _)
    · exact Nat.zero_le _

theorem freeLoop_of_none (fuel : Nat) (freedBytes : Int) (calls : Nat)
    (hget : b.metadata.get? b.monotonicIdStart = none) :
    freeLoop isFreeFn nbytes (fuel + 1) b freedBytes calls = some b := by
  rw [freeLoop, hget]

theorem freeLoop_of_some (fuel : Nat) (freedBytes : Int) (calls : Nat) {address : Int}
    (hget : b.metadata.get? b.monotonicIdStart = some address) :
    freeLoop isFreeFn nbytes (fuel + 1) b freedBytes calls =
      if freedBytes < nbytes ∧ isFreeFn calls b.monotonicIdStart (b.accessBuf address).1 = true then
        freeLoop isFreeFn nbytes fuel b.freeFirst (freedBytes + (b.accessBuf address).2.2) (calls + 1)
      else some b := by
  rw [freeLoop, hget]
  simp only
  by_cases hbytes : freedBytes < nbytes
  · simp only [hbytes, true_and, if_true]
  · simp only [hbytes, false_and, if_false]

/-- The loop frees chunks from the front, and changes nothing but the ids, the metadata and where the data lies. -/
theorem freeLoop_eq {fuel calls : Nat} {freedBytes : Int} {data : Int → Bytes}
    (hnumbered : Numbered b (placed.map Prod.fst)) (hplaced : Placed b placed) (hfuel : placed.length < fuel)
    (hdata : ∀ address, (b.accessBuf address).1 = data address)
    (hk : freedCount isFreeFn nbytes data calls freedBytes (placed.map Prod.fst) = k) :
    ∃ b', freeLoop isFreeFn nbytes fuel b freedBytes calls = some b' ∧
      Numbered b' ((placed.drop k).map Prod.fst) ∧ Placed b' (placed.drop k) ∧
      b'.sharedMemory = b.sharedMemory ∧ b'.dataBufferSize = b.dataBufferSize ∧
      b'.monotonicIdStart = (b.monotonicIdStart + k) % ID_MAX := by
  obtain ⟨fuel, rfl⟩ := Nat.exists_eq_add_one_of_ne_zero (Nat.ne_zero_of_lt hfuel)
  induction placed generalizing b fuel calls k freedBytes with
  | nil =>
    subst hk
    refine ⟨b, freeLoop_of_none fuel freedBytes calls hnumbered.get_of_nil, hnumbered, hplaced, rfl, rfl, ?_⟩
    exact (Nat.mod_eq_of_lt hnumbered.start_lt).symm
  | cons p placed ih =>
    have haccess := hplaced.accessBuf_eq List.mem_cons_self
    have hid : p.1.id = b.monotonicIdStart := hnumbered.id_head
    rw [freeLoop_of_some fuel freedBytes calls hnumbered.get_head, hdata, haccess]
    rw [List.map_cons, freedCount, hid] at hk
    split at hk
    · rename_i hfree
      rw [if_pos hfree]
      obtain ⟨fuel, rfl⟩ := Nat.exists_eq_add_one_of_ne_zero (Nat.ne_zero_of_lt (Nat.lt_of_succ_lt_succ hfuel))
      obtain ⟨b', hloop, hnumbered', hplaced', hmemory, hsize, hstart⟩ :=
        ih hnumbered.freeFirst (hplaced.freeFirst hnumbered)
          (fun address => (congrArg Prod.fst (accessBuf_freeFirst address)).trans (hdata address)) rfl fuel
          (Nat.lt_of_succ_lt_succ hfuel)
      obtain ⟨hmemory₁, hsize₁, -, -, hstart₁⟩ := @freeFirst_fields b
      subst hk
      refine ⟨b', hloop, hnumbered', hplaced', hmemory.trans hmemory₁, hsize.trans hsize₁, ?_⟩
      rw [hstart, hstart₁, Nat.mod_add_mod, Nat.add_assoc, Nat.add_comm 1]
    · rename_i hkeep
      subst hk
      rw [if_neg hkeep]
      exact ⟨b, rfl, hnumbered, hplaced, rfl, rfl, (Nat.mod_eq_of_lt hnumbered.start_lt).symm⟩

end FreeLoop

/-! ## The call -/

theorem idRange_eq {before : Nat} (hbefore : before < ID_MAX) (hk : k < ID_MAX) :
    idRange before ((before + k) % ID_MAX) = (List.range k).map fun i => (before + i) % ID_MAX := by
  rcases Nat.lt_or_ge (before + k) ID_MAX with hlt | hge
  · rw [Nat.mod_eq_of_lt hlt, idRange, if_pos (Nat.le_add_right _ _), Nat.add_sub_cancel_left, List.range'_eq_map_range]
    refine List.map_congr_left fun i hi => ?_
    rw [Nat.mod_eq_of_lt ((Nat.add_lt_add_left (List.mem_range.mp hi) _).trans hlt)]
  · -- the ids wrap around after `ID_MAX - before` of them
    obtain ⟨after, hafter⟩ := Nat.exists_eq_add_of_le hge
    have hsplit : k = (ID_MAX - before) + after := by omega
    have hmod : (before + k) % ID_MAX = after := by
      rw [hafter, Nat.add_mod_left, Nat.mod_eq_of_lt (by omega)]
    rw [hmod, idRange, if_neg (by omega), hsplit, List.range_add, List.map_append, List.map_map,
      List.range'_eq_map_range, List.range'_eq_map_range]
    congr 1
    · refine List.map_congr_left fun i hi => ?_
      have hi := List.mem_range.mp hi
      rw [Nat.mod_eq_of_lt (by omega)]
    · refine List.map_congr_left fun i hi => ?_
      have hi := List.mem_range.mp hi
      have hwrap : before + (ID_MAX - before + i) = ID_MAX + i := by omega
      rw [Function.comp_apply, hwrap, Nat.add_mod_left, Nat.mod_eq_of_lt (by omega), Nat.zero_add]

theorem Numbered.map_id_take {b : SingleWriterShmRingBuffer} {live : List Chunk} (h : Numbered b live)
    (hk : k ≤ live.length) :
    (live.take k).map Chunk.id = (List.range k).map fun i => (b.monotonicIdStart + i) % ID_MAX := by
  rw [List.map_take, h.ids, ← List.map_take, List.take_range, Nat.min_eq_left hk]

/-- A whole buffer back on the line. -/
theorem Placed.back {b : SingleWriterShmRingBuffer} (h : Placed b placed)
    (hpassed : b.dataBufferSize ≤ b.dataBufferStart) :
    Placed { b with dataBufferStart := b.dataBufferStart - b.dataBufferSize
                    dataBufferEnd := b.dataBufferEnd - b.dataBufferSize }
      (placed.map fun p => (p.1, p.2 - b.dataBufferSize)) := by
  have hpos := h.size_pos
  have hend := h.end_lt
  constructor
  case size_pos => exact hpos
  case memory => exact h.memory
  case start_nonneg => exact sub_nonneg.mpr hpassed
  case start_le_end => exact sub_le_sub_right h.start_le_end _
  case lap =>
    linarith
  case end_lt =>
    linarith
  case order =>
    rw [List.pairwise_map]
    refine h.order.imp fun {p q} hpq => ?_
    linarith
  case within =>
    intro q hq
    obtain ⟨p, hp, rfl⟩ := List.mem_map.mp hq
    obtain ⟨hlow, hhigh⟩ := h.within p hp
    exact ⟨by linarith, by linarith⟩
  case fits =>
    intro q hq
    obtain ⟨p, hp, rfl⟩ := List.mem_map.mp hq
    refine ⟨?_, (h.fits p hp).pos⟩
    rw [Int.sub_emod_right]
    exact (h.fits p hp).inside
  case address =>
    intro q hq
    obtain ⟨p, hp, rfl⟩ := List.mem_map.mp hq
    exact (h.address p hp).trans (Int.sub_emod_right _ _).symm
  case header =>
    intro q hq
    obtain ⟨p, hp, rfl⟩ := List.mem_map.mp hq
    rw [Int.sub_emod_right]
    exact h.header p hp
  case head =>
    intro q hq
    cases placed with
    | nil => cases hq
    | cons p placed =>
      cases hq
      show p.2 - b.dataBufferSize = b.dataBufferStart - b.dataBufferSize
      rw [h.head p rfl]
  case empty =>
    intro hnil
    obtain ⟨hstart, -⟩ := h.empty (List.map_eq_nil_iff.mp hnil)
    exact absurd hpassed (by linarith)

section FreeBuf

variable {b : SingleWriterShmRingBuffer} {live : List Chunk} {isFreeFn : Nat → Nat → Bytes → Bool} {nbytes : Option Int}

/-- The loop of a call. -/
theorem freeLoop_of_holds (h : Holds b live)
    (hk : freedCount isFreeFn (nbytes.getD b.dataBufferSize) (fun a => (b.accessBuf a).1) 0 0 live = k) :
    ∃ b' placed, freeLoop isFreeFn (nbytes.getD b.dataBufferSize) (b.metadata.keys.length + 1) b 0 0 = some b' ∧
      placed.map Prod.fst = live.drop k ∧ Numbered b' (live.drop k) ∧ Placed b' placed ∧
      b'.sharedMemory = b.sharedMemory ∧ b'.dataBufferSize = b.dataBufferSize ∧
      b'.monotonicIdStart = (b.monotonicIdStart + k) % ID_MAX := by
  obtain ⟨hnumbered, -, placed, rfl, hplaced⟩ := h
  have hfuel := Nat.lt_succ_of_le hnumbered.length_le_keys
  rw [List.length_map] at hfuel
  obtain ⟨b', hloop, hnumbered', hplaced', hmemory, hsize, hstart⟩ :=
    freeLoop_eq hnumbered hplaced hfuel (fun _ => rfl) hk
  rw [List.map_drop] at hnumbered'
  exact ⟨b', placed.drop k, hloop, List.map_drop, hnumbered', hplaced', hmemory, hsize, hstart⟩

/-- `free_buf` gives back the ids that it freed, unless these are `ID_MAX` ids. -/
theorem freeBuf_eq (h : Holds b live)
    (hk : freedCount isFreeFn (nbytes.getD b.dataBufferSize) (fun a => (b.accessBuf a).1) 0 0 live = k)
    (hmax : k ≠ ID_MAX) :
    ∃ b', b.freeBuf isFreeFn nbytes = some ((live.take k).map Chunk.id, b') ∧ Holds b' (live.drop k) ∧
      b'.dataBufferSize = b.dataBufferSize := by
  obtain ⟨b', placed, hloop, hlive, hnumbered, hplaced, -, hsize, hstart⟩ := freeLoop_of_holds h hk
  have hle : k ≤ live.length := hk ▸ freedCount_le _ _ _ _
  have hids : idRange b.monotonicIdStart b'.monotonicIdStart = (live.take k).map Chunk.id := by
    rw [hstart, idRange_eq h.1.start_lt (lt_of_le_of_ne (hle.trans h.1.bounded) hmax), h.1.map_id_take hle]
  rw [freeBuf, hloop]
  by_cases hpassed : b'.dataBufferSize ≤ b'.dataBufferStart
  · refine ⟨_, ?_, ⟨?_, ?_, _, ?_, hplaced.back hpassed⟩, hsize⟩
    · show some (idRange b.monotonicIdStart b'.monotonicIdStart, _) = _
      rw [hids, if_pos hpassed]
    · exact ⟨hnumbered.ids, hnumbered.start_lt, hnumbered.end_eq, hnumbered.bounded, hnumbered.metadata⟩
    · show b'.dataBufferStart - b'.dataBufferSize < b'.dataBufferSize
      have hbefore := hplaced.start_le_end
      have hend := hplaced.end_lt
      linarith
    · rw [List.map_map]
      exact hlive
  · refine ⟨_, ?_, ⟨hnumbered, not_le.mp hpassed, _, hlive, hplaced⟩, hsize⟩
    show some (idRange b.monotonicIdStart b'.monotonicIdStart, _) = _
    rw [hids, if_neg hpassed]

/-- All ids at once are given back as none. -/
theorem freeBuf_of_all_ids (h : Holds b live)
    (hk : freedCount isFreeFn (nbytes.getD b.dataBufferSize) (fun a => (b.accessBuf a).1) 0 0 live = ID_MAX) :
    (b.freeBuf isFreeFn nbytes).map Prod.fst = some [] := by
  obtain ⟨b', -, hloop, -, -, -, -, -, hstart⟩ := freeLoop_of_holds h hk
  rw [Nat.add_mod_right, Nat.mod_eq_of_lt h.1.start_lt] at hstart
  rw [freeBuf, hloop]
  show some (idRange b.monotonicIdStart b'.monotonicIdStart) = some []
  rw [hstart, idRange, if_pos le_rfl, Nat.sub_self]
  rfl

end FreeBuf

end Yuan.SharedMemory
