import Yuan.Lib.Py

/-!
# Byte buffers

Integers in big-endian bytes, and slices of a buffer of fixed length. A slice that is read is clipped
at the end of the buffer; one that is assigned has to lie within it.
-/

namespace Yuan

abbrev Bytes := List UInt8

/-- The lowest `size` bytes of `value`, highest byte first. -/
def bigEndian (value : Nat) : Nat → Bytes
  | 0 => []
  | size + 1 => bigEndian (value / 256) size ++ [UInt8.ofNat value]

/-- `value.to_bytes(size, byteorder="big")`. -/
def toBytesBig (value size : Nat) : Except PyError Bytes :=
  if value < 256 ^ size then .ok (bigEndian value size)
  else .error (.overflowError "int too big to convert")

/-- `int.from_bytes(bytes, byteorder="big")`. -/
def fromBytesBig (bytes : Bytes) : Nat := bytes.foldl (fun value byte => value * 256 + byte.toNat) 0

/-- `buf[start:stop]`. -/
def slice (buf : Bytes) (start stop : Nat) : Bytes := (buf.take stop).drop start

/-- `buf[start:start + len(bytes)] = bytes` for a buffer that cannot grow. -/
def setSlice (buf : Bytes) (start : Nat) (bytes : Bytes) : Except PyError Bytes :=
  if start + bytes.length ≤ buf.length then
    .ok (buf.take start ++ bytes ++ buf.drop (start + bytes.length))
  else .error (.valueError "memoryview assignment: lvalue and rvalue have different structures")

@[simp] theorem length_bigEndian (value size : Nat) : (bigEndian value size).length = size := by
  induction size generalizing value with
  | zero => rfl
  | succ size ih => rw [bigEndian, List.length_append, ih, List.length_singleton]

theorem fromBytesBig_append_singleton (bytes : Bytes) (byte : UInt8) :
    fromBytesBig (bytes ++ [byte]) = fromBytesBig bytes * 256 + byte.toNat := by
  rw [fromBytesBig, List.foldl_append]
  rfl

/-- What was written is what is read. -/
theorem fromBytesBig_bigEndian {value size : Nat} (h : value < 256 ^ size) :
    fromBytesBig (bigEndian value size) = value := by
  induction size generalizing value with
  | zero =>
    rw [Nat.pow_zero, Nat.lt_one_iff] at h
    rw [h]
    rfl
  | succ size ih =>
    have hhigh : value / 256 < 256 ^ size := by
      exact Nat.div_lt_of_lt_mul (by rw [Nat.mul_comm]; exact h)
    rw [bigEndian, fromBytesBig_append_singleton, ih hhigh, UInt8.toNat_ofNat']
    omega

theorem toBytesBig_eq_ok {value size : Nat} {bytes : Bytes} :
    toBytesBig value size = .ok bytes ↔ value < 256 ^ size ∧ bigEndian value size = bytes := by
  unfold toBytesBig
  split
  case isTrue h => simp [h]
  case isFalse h => simp [h]

theorem setSlice_eq_ok {buf bytes buf' : Bytes} {start : Nat} :
    setSlice buf start bytes = .ok buf' ↔ start + bytes.length ≤ buf.length ∧
      buf.take start ++ bytes ++ buf.drop (start + bytes.length) = buf' := by
  unfold setSlice
  split
  case isTrue h => simp [h]
  case isFalse h => simp [h]

/-- The part of a buffer that spells `front` stays when something is written behind it. -/
theorem setSlice_behind {buf front rest : Bytes} (bytes : Bytes) (hbuf : buf = front ++ rest)
    (hroom : bytes.length ≤ rest.length) :
    setSlice buf front.length bytes = .ok (front ++ bytes ++ rest.drop bytes.length) := by
  subst hbuf
  rw [setSlice_eq_ok]
  refine ⟨by rw [List.length_append]; omega, ?_⟩
  rw [List.take_left, ← List.drop_drop, List.drop_left]

/-- A slice is found where it was written. -/
theorem slice_of_eq {buf front bytes : Bytes} (rest : Bytes) (hbuf : buf = front ++ bytes ++ rest) :
    slice buf front.length (front.length + bytes.length) = bytes := by
  subst hbuf
  rw [slice, ← List.length_append, List.take_left, List.drop_left]

theorem length_setSlice {buf bytes buf' : Bytes} {start : Nat} (h : setSlice buf start bytes = .ok buf') :
    buf'.length = buf.length := by
  obtain ⟨hroom, rfl⟩ := setSlice_eq_ok.mp h
  rw [List.length_append, List.length_append, List.length_take, List.length_drop]
  omega

/-- Assigning a slice changes its own bytes only. -/
theorem getElem?_setSlice {buf bytes buf' : Bytes} {start x : Nat} (h : setSlice buf start bytes = .ok buf')
    (hx : x < start ∨ start + bytes.length ≤ x) : buf'[x]? = buf[x]? := by
  obtain ⟨hroom, rfl⟩ := setSlice_eq_ok.mp h
  have hstart : (buf.take start).length = start := by
    rw [List.length_take]
    omega
  rcases hx with hx | hx
  · rw [List.append_assoc, List.getElem?_append_left (by omega), List.getElem?_take_of_lt hx]
  · have hfront : (buf.take start ++ bytes).length = start + bytes.length := by rw [List.length_append, hstart]
    rw [List.getElem?_append_right (by omega), List.getElem?_drop, hfront, Nat.add_sub_cancel' hx]

/-- A slice apart from the assigned one stays. -/
theorem slice_setSlice {buf bytes buf' : Bytes} {start s t : Nat} (h : setSlice buf start bytes = .ok buf')
    (hapart : t ≤ start ∨ start + bytes.length ≤ s) : slice buf' s t = slice buf s t := by
  apply List.ext_getElem?
  intro k
  rw [slice, slice, List.getElem?_drop, List.getElem?_drop]
  by_cases hk : s + k < t
  · rw [List.getElem?_take_of_lt hk, List.getElem?_take_of_lt hk]
    exact getElem?_setSlice h (by omega)
  · rw [List.getElem?_take_eq_none (not_lt.mp hk), List.getElem?_take_eq_none (not_lt.mp hk)]

theorem slice_setSlice_self {buf bytes buf' : Bytes} {start : Nat} (h : setSlice buf start bytes = .ok buf') :
    slice buf' start (start + bytes.length) = bytes := by
  obtain ⟨hroom, hbuf'⟩ := setSlice_eq_ok.mp h
  have hstart : (buf.take start).length = start := by
    rw [List.length_take]
    omega
  have hslice := @slice_of_eq _ (buf.take start) _ _ hbuf'.symm
  rwa [hstart] at hslice

end Yuan
