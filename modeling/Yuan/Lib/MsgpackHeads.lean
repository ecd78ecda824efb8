import Yuan.Lib.Bytes

/-!
# The heads of MessagePack

The first bytes of a value say what follows, and how much of it. Integers and lengths take the shortest
head that holds them. A head within the limits of the format is read as it was written.
-/

namespace Yuan.Msgpack

/-- What the first bytes of a value say. -/
inductive Head where
  | nil
  | bool (value : Bool)
  | int (value : Int)
  | float (bits : UInt64)
  | str (length : Nat)
  | bin (length : Nat)
  | array (length : Nat)
  | map (length : Nat)
  | ext (length code : Nat)

/-- A tag and a number of fixed size. -/
def sized (tag : UInt8) (size value : Nat) : Bytes := tag :: bigEndian value size

def packNat (n : Nat) : Bytes :=
  if n < 2 ^ 7 then [UInt8.ofNat n]
  else if n < 2 ^ 8 then sized 0xcc 1 n
  else if n < 2 ^ 16 then sized 0xcd 2 n
  else if n < 2 ^ 32 then sized 0xce 4 n
  else sized 0xcf 8 n

/-- `-n`, in two's complement. -/
def packNeg (n : Nat) : Bytes :=
  if n ≤ 2 ^ 5 then [UInt8.ofNat (2 ^ 8 - n)]
  else if n ≤ 2 ^ 7 then sized 0xd0 1 (2 ^ 8 - n)
  else if n ≤ 2 ^ 15 then sized 0xd1 2 (2 ^ 16 - n)
  else if n ≤ 2 ^ 31 then sized 0xd2 4 (2 ^ 32 - n)
  else sized 0xd3 8 (2 ^ 64 - n)

/-- A length in the tag itself, in 1, 2 or 4 bytes. -/
def packLength (fix fixLimit : Nat) (tag₁ : Option UInt8) (tag₂ tag₄ : UInt8) (length : Nat) : Bytes :=
  if length < fixLimit then [UInt8.ofNat (fix + length)]
  else if tag₁.isSome ∧ length < 2 ^ 8 then sized (tag₁.getD 0) 1 length
  else if length < 2 ^ 16 then sized tag₂ 2 length
  else sized tag₄ 4 length

def packExt (length code : Nat) : Bytes :=
  if length = 1 then [0xd4, UInt8.ofNat code]
  else if length = 2 then [0xd5, UInt8.ofNat code]
  else if length = 4 then [0xd6, UInt8.ofNat code]
  else if length = 8 then [0xd7, UInt8.ofNat code]
  else if length = 16 then [0xd8, UInt8.ofNat code]
  else packLength 0 0 (some 0xc7) 0xc8 0xc9 length ++ [UInt8.ofNat code]

def packHead : Head → Bytes
  | .nil => [0xc0]
  | .bool value => [if value then 0xc3 else 0xc2]
  | .int (.ofNat n) => packNat n
  | .int (.negSucc n) => packNeg (n + 1)
  | .float bits => sized 0xcb 8 bits.toNat
  | .str length => packLength 0xa0 32 (some 0xd9) 0xda 0xdb length
  | .bin length => packLength 0 0 (some 0xc4) 0xc5 0xc6 length
  | .array length => packLength 0x90 16 Option.none 0xdc 0xdd length
  | .map length => packLength 0x80 16 Option.none 0xde 0xdf length
  | .ext length code => packExt length code

/-- The number in the next `size` bytes, and what is behind it. -/
def readNat (size : Nat) (bytes : Bytes) : Option (Nat × Bytes) :=
  if bytes.length < size then Option.none
  else some (fromBytesBig (bytes.take size), bytes.drop size)

def readExt (length : Nat) : Bytes → Option (Head × Bytes)
  | [] => Option.none
  | code :: rest => if code < 128 then some (.ext length code.toNat, rest) else Option.none

/-- The head that stands behind its tag. -/
def readTagged (tag : Nat) (bytes : Bytes) : Option (Head × Bytes) :=
  let unsigned (size : Nat) (head : Nat → Head) := (readNat size bytes).map fun r => (head r.1, r.2)
  let signed (size : Nat) := (readNat size bytes).map fun r =>
    (Head.int (if r.1 < 2 ^ (8 * size - 1) then r.1 else r.1 - 2 ^ (8 * size)), r.2)
  let ext (size : Nat) := (readNat size bytes).bind fun r => readExt r.1 r.2
  match tag with
  | 0xc0 => some (.nil, bytes)
  | 0xc2 => some (.bool false, bytes)
  | 0xc3 => some (.bool true, bytes)
  | 0xc4 => unsigned 1 .bin
  | 0xc5 => unsigned 2 .bin
  | 0xc6 => unsigned 4 .bin
  | 0xc7 => ext 1
  | 0xc8 => ext 2
  | 0xc9 => ext 4
  | 0xcb => unsigned 8 fun bits => .float (UInt64.ofNat bits)
  | 0xcc => unsigned 1 fun value => .int value
  | 0xcd => unsigned 2 fun value => .int value
  | 0xce => unsigned 4 fun value => .int value
  | 0xcf => unsigned 8 fun value => .int value
  | 0xd0 => signed 1
  | 0xd1 => signed 2
  | 0xd2 => signed 4
  | 0xd3 => signed 8
  | 0xd4 => readExt 1 bytes
  | 0xd5 => readExt 2 bytes
  | 0xd6 => readExt 4 bytes
  | 0xd7 => readExt 8 bytes
  | 0xd8 => readExt 16 bytes
  | 0xd9 => unsigned 1 .str
  | 0xda => unsigned 2 .str
  | 0xdb => unsigned 4 .str
  | 0xdc => unsigned 2 .array
  | 0xdd => unsigned 4 .array
  | 0xde => unsigned 2 .map
  | 0xdf => unsigned 4 .map
  | _ => Option.none

def readHead : Bytes → Option (Head × Bytes)
  | [] => Option.none
  | tag :: rest =>
    let tag := tag.toNat
    if tag < 0x80 then some (.int tag, rest)
    else if tag < 0x90 then some (.map (tag - 0x80), rest)
    else if tag < 0xa0 then some (.array (tag - 0x90), rest)
    else if tag < 0xc0 then some (.str (tag - 0xa0), rest)
    else if 0xe0 ≤ tag then some (.int (tag - 2 ^ 8), rest)
    else readTagged tag rest

/-- What a head can hold. -/
def Head.Fits : Head → Prop
  | .int value => -2 ^ 63 ≤ value ∧ value < 2 ^ 64
  | .str length => length < 2 ^ 32
  | .bin length => length < 2 ^ 32
  | .array length => length < 2 ^ 32
  | .map length => length < 2 ^ 32
  | .ext length code => length < 2 ^ 32 ∧ code < 128
  | _ => True

theorem readNat_bigEndian {value size : Nat} (rest : Bytes) (h : value < 256 ^ size) :
    readNat size (bigEndian value size ++ rest) = some (value, rest) := by
  have hlen := length_bigEndian value size
  unfold readNat
  rw [if_neg (by rw [List.length_append]; omega), List.take_left' hlen, List.drop_left' hlen,
    fromBytesBig_bigEndian h]

/-- A tag outside the ranges that carry a value themselves. -/
theorem readHead_tagged {tag : UInt8} (rest : Bytes) (hlow : 0xc0 ≤ tag.toNat) (hhigh : tag.toNat < 0xe0) :
    readHead (tag :: rest) = readTagged tag.toNat rest := by
  unfold readHead
  dsimp only
  rw [if_neg (by omega), if_neg (by omega), if_neg (by omega), if_neg (by omega), if_neg (by omega)]

section Sized

variable (tag : UInt8) (size : Nat) {value : Nat} (head : Nat → Head)

/-- A head that is a number behind its tag. -/
theorem readHead_sized (rest : Bytes) (hlow : 0xc0 ≤ tag.toNat) (hhigh : tag.toNat < 0xe0)
    (htag : ∀ bytes, readTagged tag.toNat bytes = (readNat size bytes).map fun r => (head r.1, r.2))
    (hvalue : value < 256 ^ size) : readHead (sized tag size value ++ rest) = some (head value, rest) := by
  show readHead (tag :: (bigEndian value size ++ rest)) = _
  rw [readHead_tagged _ hlow hhigh, htag, readNat_bigEndian _ hvalue]
  rfl

end Sized

theorem toNat_ofNat_byte {n : Nat} (h : n < 2 ^ 8) : (UInt8.ofNat n).toNat = n :=
  UInt8.toNat_ofNat_of_lt' h

theorem readHead_packNat {n : Nat} (rest : Bytes) (hn : n < 2 ^ 64) :
    readHead (packNat n ++ rest) = some (.int n, rest) := by
  let head : Nat → Head := fun value => .int value
  unfold packNat
  by_cases h₇ : n < 2 ^ 7
  · rw [if_pos h₇]
    show readHead (UInt8.ofNat n :: rest) = _
    unfold readHead
    dsimp only
    rw [toNat_ofNat_byte (by omega), if_pos (by omega)]
  rw [if_neg h₇]
  by_cases h₈ : n < 2 ^ 8
  · rw [if_pos h₈]
    exact readHead_sized 0xcc 1 head rest (by decide) (by decide) (fun _ => rfl) (by omega)
  rw [if_neg h₈]
  by_cases h₁₆ : n < 2 ^ 16
  · rw [if_pos h₁₆]
    exact readHead_sized 0xcd 2 head rest (by decide) (by decide) (fun _ => rfl) (by omega)
  rw [if_neg h₁₆]
  by_cases h₃₂ : n < 2 ^ 32
  · rw [if_pos h₃₂]
    exact readHead_sized 0xce 4 head rest (by decide) (by decide) (fun _ => rfl) (by omega)
  · rw [if_neg h₃₂]
    exact readHead_sized 0xcf 8 head rest (by decide) (by decide) (fun _ => rfl) (by omega)

section Signed

variable (tag : UInt8) (size : Nat) {n : Nat}

/-- A negative number in two's complement. -/
theorem readHead_signed (rest : Bytes) (hlow : 0xc0 ≤ tag.toNat) (hhigh : tag.toNat < 0xe0)
    (htag : ∀ bytes, readTagged tag.toNat bytes = (readNat size bytes).map fun r =>
      (Head.int (if r.1 < 2 ^ (8 * size - 1) then r.1 else r.1 - 2 ^ (8 * size)), r.2))
    (hsize : 0 < size) (hpos : 0 < n) (hn : n ≤ 2 ^ (8 * size - 1)) :
    readHead (sized tag size (2 ^ (8 * size) - n) ++ rest) = some (.int (-n), rest) := by
  have hdouble : 2 ^ (8 * size) = 2 * 2 ^ (8 * size - 1) := by
    rw [← Nat.pow_succ']
    congr 1
    omega
  have hpow : 256 ^ size = 2 ^ (8 * size) := by
    rw [show (256 : Nat) = 2 ^ 8 from rfl, ← Nat.pow_mul]
  let head : Nat → Head := fun r =>
    .int (if r < 2 ^ (8 * size - 1) then r else r - 2 ^ (8 * size))
  rw [readHead_sized tag size head rest hlow hhigh htag (by omega)]
  have hvalue : head (2 ^ (8 * size) - n) = .int (-n) := by
    show Head.int _ = _
    rw [if_neg (by omega), Nat.cast_sub (by omega)]
    congr 1
    show (2 : Int) ^ (8 * size) - n - 2 ^ (8 * size) = -n
    omega
  rw [hvalue]

end Signed

theorem readHead_packNeg {n : Nat} (rest : Bytes) (hpos : 0 < n) (hn : n ≤ 2 ^ 63) :
    readHead (packNeg n ++ rest) = some (.int (-n), rest) := by
  unfold packNeg
  by_cases h₅ : n ≤ 2 ^ 5
  · rw [if_pos h₅]
    show readHead (UInt8.ofNat (2 ^ 8 - n) :: rest) = _
    unfold readHead
    dsimp only
    rw [toNat_ofNat_byte (by omega), if_neg (by omega), if_neg (by omega), if_neg (by omega),
      if_neg (by omega), if_pos (by omega)]
    have hvalue : ((2 ^ 8 - n : Nat) : Int) - 2 ^ 8 = -n := by omega
    rw [hvalue]
  rw [if_neg h₅]
  by_cases h₇ : n ≤ 2 ^ 7
  · rw [if_pos h₇]
    exact readHead_signed 0xd0 1 rest (by decide) (by decide) (fun _ => rfl) (by decide) hpos h₇
  rw [if_neg h₇]
  by_cases h₁₅ : n ≤ 2 ^ 15
  · rw [if_pos h₁₅]
    exact readHead_signed 0xd1 2 rest (by decide) (by decide) (fun _ => rfl) (by decide) hpos h₁₅
  rw [if_neg h₁₅]
  by_cases h₃₁ : n ≤ 2 ^ 31
  · rw [if_pos h₃₁]
    exact readHead_signed 0xd2 4 rest (by decide) (by decide) (fun _ => rfl) (by decide) hpos h₃₁
  · rw [if_neg h₃₁]
    exact readHead_signed 0xd3 8 rest (by decide) (by decide) (fun _ => rfl) (by decide) hpos hn

/-- A length, in whichever of its heads. -/
theorem readHead_packLength {fix fixLimit : Nat} {tag₁ : Option UInt8} {tag₂ tag₄ : UInt8} {length : Nat}
    {result : Option (Head × Bytes)} {rest : Bytes}
    (hfix : length < fixLimit → readHead (UInt8.ofNat (fix + length) :: rest) = result)
    (h₁ : ∀ tag, tag₁ = some tag → length < 256 ^ 1 → readHead (sized tag 1 length ++ rest) = result)
    (h₂ : length < 256 ^ 2 → readHead (sized tag₂ 2 length ++ rest) = result)
    (h₄ : readHead (sized tag₄ 4 length ++ rest) = result) :
    readHead (packLength fix fixLimit tag₁ tag₂ tag₄ length ++ rest) = result := by
  unfold packLength
  by_cases hlt : length < fixLimit
  · rw [if_pos hlt]
    exact hfix hlt
  rw [if_neg hlt]
  by_cases h₈ : tag₁.isSome ∧ length < 2 ^ 8
  · rw [if_pos h₈]
    obtain ⟨tag, htag⟩ := Option.isSome_iff_exists.mp h₈.1
    rw [htag]
    exact h₁ tag htag h₈.2
  rw [if_neg h₈]
  by_cases h₁₆ : length < 2 ^ 16
  · rw [if_pos h₁₆]
    exact h₂ h₁₆
  · rw [if_neg h₁₆]
    exact h₄

section

variable (rest : Bytes) {length : Nat}

theorem readHead_str (h : length < 2 ^ 32) : readHead (packHead (.str length) ++ rest) = some (.str length, rest) := by
  apply readHead_packLength
  · intro hlt
    unfold readHead
    dsimp only
    rw [toNat_ofNat_byte (by omega), if_neg (by omega), if_neg (by omega), if_neg (by omega),
      if_pos (by omega), Nat.add_sub_cancel_left]
  · intro tag htag hlength
    cases htag
    exact readHead_sized 0xd9 1 .str rest (by decide) (by decide) (fun _ => rfl) hlength
  · exact readHead_sized 0xda 2 .str rest (by decide) (by decide) (fun _ => rfl)
  · exact readHead_sized 0xdb 4 .str rest (by decide) (by decide) (fun _ => rfl) h

theorem readHead_bin (h : length < 2 ^ 32) : readHead (packHead (.bin length) ++ rest) = some (.bin length, rest) := by
  apply readHead_packLength
  · intro hlt
    exact absurd hlt (Nat.not_lt_zero _)
  · intro tag htag hlength
    cases htag
    exact readHead_sized 0xc4 1 .bin rest (by decide) (by decide) (fun _ => rfl) hlength
  · exact readHead_sized 0xc5 2 .bin rest (by decide) (by decide) (fun _ => rfl)
  · exact readHead_sized 0xc6 4 .bin rest (by decide) (by decide) (fun _ => rfl) h

theorem readHead_array (h : length < 2 ^ 32) :
    readHead (packHead (.array length) ++ rest) = some (.array length, rest) := by
  apply readHead_packLength
  · intro hlt
    unfold readHead
    dsimp only
    rw [toNat_ofNat_byte (by omega), if_neg (by omega), if_neg (by omega), if_pos (by omega),
      Nat.add_sub_cancel_left]
  · intro tag htag
    cases htag
  · exact readHead_sized 0xdc 2 .array rest (by decide) (by decide) (fun _ => rfl)
  · exact readHead_sized 0xdd 4 .array rest (by decide) (by decide) (fun _ => rfl) h

theorem readHead_map (h : length < 2 ^ 32) : readHead (packHead (.map length) ++ rest) = some (.map length, rest) := by
  apply readHead_packLength
  · intro hlt
    unfold readHead
    dsimp only
    rw [toNat_ofNat_byte (by omega), if_neg (by omega), if_pos (by omega), Nat.add_sub_cancel_left]
  · intro tag htag
    cases htag
  · exact readHead_sized 0xde 2 .map rest (by decide) (by decide) (fun _ => rfl)
  · exact readHead_sized 0xdf 4 .map rest (by decide) (by decide) (fun _ => rfl) h

theorem readExt_ofNat {code : Nat} (hcode : code < 128) :
    readExt length (UInt8.ofNat code :: rest) = some (.ext length code, rest) := by
  have hbyte : (UInt8.ofNat code).toNat = code := toNat_ofNat_byte (by omega)
  have hlt : UInt8.ofNat code < 128 := by
    rw [UInt8.lt_iff_toNat_lt, hbyte]
    exact hcode
  unfold readExt
  dsimp only
  rw [if_pos hlt, hbyte]

end

section Ext

variable (tag : UInt8) (size : Nat) {length code : Nat}

/-- An extension whose length is in its tag. -/
theorem readHead_fixext (rest : Bytes) (hlow : 0xc0 ≤ tag.toNat) (hhigh : tag.toNat < 0xe0)
    (htag : ∀ bytes, readTagged tag.toNat bytes = readExt length bytes) (hcode : code < 128) :
    readHead (tag :: UInt8.ofNat code :: rest) = some (.ext length code, rest) := by
  rw [readHead_tagged _ hlow hhigh, htag, readExt_ofNat _ hcode]

/-- An extension whose length is behind its tag. -/
theorem readHead_sizedExt (rest : Bytes) (hlow : 0xc0 ≤ tag.toNat) (hhigh : tag.toNat < 0xe0)
    (htag : ∀ bytes, readTagged tag.toNat bytes = (readNat size bytes).bind fun r => readExt r.1 r.2)
    (hcode : code < 128) (hlength : length < 256 ^ size) :
    readHead (sized tag size length ++ UInt8.ofNat code :: rest) = some (.ext length code, rest) := by
  show readHead (tag :: (bigEndian length size ++ UInt8.ofNat code :: rest)) = _
  rw [readHead_tagged _ hlow hhigh, htag, readNat_bigEndian _ hlength]
  exact readExt_ofNat rest hcode

end Ext

theorem readHead_ext {length code : Nat} (rest : Bytes) (h : length < 2 ^ 32) (hcode : code < 128) :
    readHead (packHead (.ext length code) ++ rest) = some (.ext length code, rest) := by
  show readHead (packExt length code ++ rest) = _
  unfold packExt
  by_cases h₁ : length = 1
  · rw [if_pos h₁, h₁]
    exact readHead_fixext 0xd4 rest (by decide) (by decide) (fun _ => rfl) hcode
  rw [if_neg h₁]
  by_cases h₂ : length = 2
  · rw [if_pos h₂, h₂]
    exact readHead_fixext 0xd5 rest (by decide) (by decide) (fun _ => rfl) hcode
  rw [if_neg h₂]
  by_cases h₄ : length = 4
  · rw [if_pos h₄, h₄]
    exact readHead_fixext 0xd6 rest (by decide) (by decide) (fun _ => rfl) hcode
  rw [if_neg h₄]
  by_cases h₈ : length = 8
  · rw [if_pos h₈, h₈]
    exact readHead_fixext 0xd7 rest (by decide) (by decide) (fun _ => rfl) hcode
  rw [if_neg h₈]
  by_cases h₁₆ : length = 16
  · rw [if_pos h₁₆, h₁₆]
    exact readHead_fixext 0xd8 rest (by decide) (by decide) (fun _ => rfl) hcode
  rw [if_neg h₁₆, List.append_assoc]
  apply readHead_packLength
  · intro hlt
    exact absurd hlt (Nat.not_lt_zero _)
  · intro tag htag hlength
    cases htag
    exact readHead_sizedExt 0xc7 1 rest (by decide) (by decide) (fun _ => rfl) hcode hlength
  · exact readHead_sizedExt 0xc8 2 rest (by decide) (by decide) (fun _ => rfl) hcode
  · exact readHead_sizedExt 0xc9 4 rest (by decide) (by decide) (fun _ => rfl) hcode h

/-- A head is read as it was written. -/
theorem readHead_packHead {head : Head} (rest : Bytes) (h : head.Fits) :
    readHead (packHead head ++ rest) = some (head, rest) := by
  cases head with
  | nil => exact readHead_tagged rest (by decide) (by decide)
  | bool value => cases value <;> exact readHead_tagged rest (by decide) (by decide)
  | int value =>
    obtain ⟨hlow, hhigh⟩ := h
    cases value with
    | ofNat n =>
      have hhigh : (n : Int) < 2 ^ 64 := hhigh
      exact readHead_packNat rest (by omega)
    | negSucc n =>
      have hneg := @readHead_packNeg (n + 1) rest (Nat.succ_pos n) (by omega)
      rwa [show (-((n + 1 : Nat) : Int)) = Int.negSucc n from rfl] at hneg
  | float bits =>
    let float : Nat → Head := fun value => .float (UInt64.ofNat value)
    have hread := readHead_sized 0xcb 8 float rest (by decide) (by decide) (fun _ => rfl)
      (show bits.toNat < 256 ^ 8 from bits.toNat_lt)
    rw [show float bits.toNat = .float bits from congrArg Head.float (UInt64.ofNat_toNat)] at hread
    exact hread
  | str length => exact readHead_str rest h
  | bin length => exact readHead_bin rest h
  | array length => exact readHead_array rest h
  | map length => exact readHead_map rest h
  | ext length code => exact readHead_ext rest h.1 h.2

end Yuan.Msgpack
