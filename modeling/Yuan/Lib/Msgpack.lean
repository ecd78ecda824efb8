import Mathlib.Algebra.Order.Field.Rat
import Yuan.Lib.MsgpackHeads

/-!
# MessagePack

Values of the interchange format and the bytes that spell them: a head that says what follows, and
the payload behind it. Reading what was written gives the value back, for all values within the limits
of the format.
-/

namespace Yuan.Msgpack

/-- What has no parts. A float is given by its bits. -/
inductive Scalar where
  | none
  | bool (value : Bool)
  | int (value : Int)
  | float (bits : UInt64)
  | str (value : String)
  | bytes (value : Bytes)
  deriving DecidableEq

/-- What a message spells. -/
inductive Native where
  | scalar (value : Scalar)
  | ext (code : Nat) (data : Bytes)
  | array (elems : List Native)
  | map (entries : List (Scalar × Native))

/-! ## Equality of keys -/

/-- The number that the bits of a float stand for; infinities and NaNs have none. -/
def floatValue (bits : UInt64) : Option ℚ :=
  let mantissa : Nat := bits.toNat % 2 ^ 52
  let exponent : Nat := bits.toNat / 2 ^ 52 % 2 ^ 11
  let sign : ℚ := if bits.toNat < 2 ^ 63 then 1 else -1
  if exponent = 2047 then Option.none
  else if exponent = 0 then some (sign * mantissa / 2 ^ 1074)
  else some (sign * (2 ^ 52 + mantissa : Nat) * 2 ^ exponent / 2 ^ 1075)

def Scalar.isNaN : Scalar → Prop
  | .float bits => bits.toNat / 2 ^ 52 % 2 ^ 11 = 2047 ∧ bits.toNat % 2 ^ 52 ≠ 0
  | _ => False

instance (value : Scalar) : Decidable value.isNaN := by
  cases value <;> unfold Scalar.isNaN <;> infer_instance

def Scalar.number? : Scalar → Option ℚ
  | .bool value => some (if value then 1 else 0)
  | .int value => some value
  | .float bits => floatValue bits
  | _ => Option.none

/-- `a == b`: numbers of all types are compared by value, and NaN equals nothing. -/
def Scalar.Same (a b : Scalar) : Prop :=
  a.number? = b.number? ∧ (a.number? = Option.none → a = b) ∧ ¬ a.isNaN

instance (a b : Scalar) : Decidable (a.Same b) := by
  unfold Scalar.Same
  infer_instance

theorem Scalar.isNaN.number?_eq_none {a : Scalar} (h : a.isNaN) : a.number? = Option.none := by
  cases a with
  | float bits =>
    exact if_pos h.1
  | _ => exact h.elim

theorem Scalar.Same.symm {a b : Scalar} (h : a.Same b) : b.Same a := by
  obtain ⟨hnumber, heq, hnan⟩ := h
  refine ⟨hnumber.symm, fun hb => (heq (hnumber.trans hb)).symm, ?_⟩
  intro hb
  have hsame := heq (hnumber.trans hb.number?_eq_none)
  exact hnan (hsame ▸ hb)

/-- The entries of a dictionary: its keys are distinct, and each is found again. -/
structure Keyed {α : Type} (entries : List (Scalar × α)) : Prop where
  distinct : entries.Pairwise fun e e' => ¬ e.1.Same e'.1
  found : ∀ e ∈ entries, e.1.Same e.1

/-- `entries[key]`. -/
def lookup {α : Type} (entries : List (Scalar × α)) (key : Scalar) : Option α :=
  (entries.find? fun entry => key.Same entry.1).map Prod.snd

/-- A key is found with its own value. -/
theorem Keyed.lookup_eq {α : Type} {entries : List (Scalar × α)} (h : Keyed entries)
    {entry : Scalar × α} (hmem : entry ∈ entries) : lookup entries entry.1 = some entry.2 := by
  obtain ⟨distinct, found⟩ := h
  unfold lookup
  induction entries with
  | nil => cases hmem
  | cons first entries ih =>
    rw [List.pairwise_cons] at distinct
    rcases List.mem_cons.mp hmem with rfl | hmem
    · have hself : decide (entry.1.Same entry.1) = true := decide_eq_true (found _ List.mem_cons_self)
      rw [List.find?_cons, hself]
      rfl
    · have hne : ¬ entry.1.Same first.1 := fun hsame => distinct.1 entry hmem hsame.symm
      rw [List.find?_cons_of_neg (by rw [decide_eq_true_iff]; exact hne)]
      exact ih hmem distinct.2 fun e he => found e (List.mem_cons_of_mem _ he)

/-! ## Values -/

/-- The bytes of a string in UTF-8. -/
def utf8 (value : String) : Bytes := value.toByteArray.data.toList

def ofUtf8 (bytes : Bytes) : Option String := String.fromUTF8? ⟨bytes.toArray⟩

theorem ofUtf8_utf8 (value : String) : ofUtf8 (utf8 value) = some value := by
  unfold ofUtf8 utf8 String.fromUTF8?
  rw [dif_pos value.isValidUTF8]
  rfl

def packScalar : Scalar → Bytes
  | .none => packHead .nil
  | .bool value => packHead (.bool value)
  | .int value => packHead (.int value)
  | .float bits => packHead (.float bits)
  | .str value => packHead (.str (utf8 value).length) ++ utf8 value
  | .bytes value => packHead (.bin value.length) ++ value

mutual

def pack : Native → Bytes
  | .scalar value => packScalar value
  | .ext code data => packHead (.ext data.length code) ++ data
  | .array elems => packHead (.array elems.length) ++ packAll elems
  | .map entries => packHead (.map entries.length) ++ packEntries entries

def packAll : List Native → Bytes
  | [] => []
  | elem :: elems => pack elem ++ packAll elems

def packEntries : List (Scalar × Native) → Bytes
  | [] => []
  | (key, value) :: entries => packScalar key ++ pack value ++ packEntries entries

end

/-- The next `length` bytes, and what is behind them. -/
def readBytes (length : Nat) (bytes : Bytes) : Option (Bytes × Bytes) :=
  if bytes.length < length then Option.none else some (bytes.take length, bytes.drop length)

def readScalar : Head → Bytes → Option (Scalar × Bytes)
  | .nil, rest => some (.none, rest)
  | .bool value, rest => some (.bool value, rest)
  | .int value, rest => some (.int value, rest)
  | .float bits, rest => some (.float bits, rest)
  | .str length, rest => do
    let (bytes, rest) ← readBytes length rest
    let value ← ofUtf8 bytes
    return (.str value, rest)
  | .bin length, rest => do
    let (bytes, rest) ← readBytes length rest
    return (.bytes bytes, rest)
  | _, _ => Option.none

/-- `count` values, one behind the other. -/
def readMany {α : Type} (read : Bytes → Option (α × Bytes)) : Nat → Bytes → Option (List α × Bytes)
  | 0, bytes => some ([], bytes)
  | count + 1, bytes => do
    let (value, rest) ← read bytes
    let (values, rest) ← readMany read count rest
    return (value :: values, rest)

def readEntry (read : Bytes → Option (Native × Bytes)) (bytes : Bytes) :
    Option ((Scalar × Native) × Bytes) := do
  let (head, rest) ← readHead bytes
  let (key, rest) ← readScalar head rest
  let (value, rest) ← read rest
  return ((key, value), rest)

/-- What stands behind a head. -/
def readBody (read : Bytes → Option (Native × Bytes)) : Head → Bytes → Option (Native × Bytes)
  | .array length, rest => (readMany read length rest).map fun r => (.array r.1, r.2)
  | .map length, rest => (readMany (readEntry read) length rest).map fun r => (.map r.1, r.2)
  | .ext length code, rest => (readBytes length rest).map fun r => (.ext code r.1, r.2)
  | head, rest => (readScalar head rest).map fun r => (.scalar r.1, r.2)

/-- A value that is nested at most `depth` deep. -/
def readNative : Nat → Bytes → Option (Native × Bytes)
  | 0, _ => Option.none
  | depth + 1, bytes => do
    let (head, rest) ← readHead bytes
    readBody (readNative depth) head rest

/-- The value that a whole message spells. -/
def unpack (bytes : Bytes) : Option Native :=
  match readNative bytes.length bytes with
  | some (value, []) => some value
  | _ => Option.none

def Scalar.Fits : Scalar → Prop
  | .int value => -2 ^ 63 ≤ value ∧ value < 2 ^ 64
  | .str value => (utf8 value).length < 2 ^ 32
  | .bytes value => value.length < 2 ^ 32
  | _ => True

instance (value : Scalar) : Decidable value.Fits := by
  cases value <;> unfold Scalar.Fits <;> infer_instance

/-- The limits of the format, with extensions of certain codes. -/
inductive Native.Fits (codes : Nat → Prop) : Native → Prop where
  | scalar {value : Scalar} : value.Fits → Fits codes (.scalar value)
  | ext {code : Nat} {data : Bytes} : codes code → data.length < 2 ^ 32 → Fits codes (.ext code data)
  | array {elems : List Native} : elems.length < 2 ^ 32 → (∀ elem ∈ elems, Fits codes elem) →
      Fits codes (.array elems)
  | map {entries : List (Scalar × Native)} : entries.length < 2 ^ 32 → Keyed entries →
      (∀ entry ∈ entries, entry.1.Fits) → (∀ entry ∈ entries, Fits codes entry.2) →
      Fits codes (.map entries)

/-- The codes that the format leaves to its users. -/
def UserCode (code : Nat) : Prop := code < 128

theorem Native.Fits.mono {codes codes' : Nat → Prop} {n : Native} (h : n.Fits codes)
    (hcodes : ∀ code, codes code → codes' code) : n.Fits codes' := by
  induction h with
  | scalar hvalue => exact .scalar hvalue
  | ext hcode hdata => exact .ext (hcodes _ hcode) hdata
  | array hlength _ ih => exact .array hlength ih
  | map hlength hkeys hfits _ ih => exact .map hlength hkeys hfits ih

/-! ## Reading what was written -/

theorem readBytes_append (bytes rest : Bytes) : readBytes bytes.length (bytes ++ rest) = some (bytes, rest) := by
  unfold readBytes
  rw [if_neg (by rw [List.length_append]; omega), List.take_left, List.drop_left]

/-- A scalar is read as it was written. -/
theorem exists_head {value : Scalar} (h : value.Fits) :
    ∃ head payload, head.Fits ∧ packScalar value = packHead head ++ payload ∧
      ∀ rest, readScalar head (payload ++ rest) = some (value, rest) := by
  cases value with
  | none => exact ⟨.nil, [], trivial, (List.append_nil _).symm, fun _ => rfl⟩
  | bool value => exact ⟨.bool value, [], trivial, (List.append_nil _).symm, fun _ => rfl⟩
  | int value => exact ⟨.int value, [], h, (List.append_nil _).symm, fun _ => rfl⟩
  | float bits => exact ⟨.float bits, [], trivial, (List.append_nil _).symm, fun _ => rfl⟩
  | str value =>
    refine ⟨.str (utf8 value).length, utf8 value, h, rfl, ?_⟩
    intro rest
    rw [readScalar, readBytes_append]
    show (ofUtf8 (utf8 value)).bind _ = _
    rw [ofUtf8_utf8]
    rfl
  | bytes value =>
    refine ⟨.bin value.length, value, h, rfl, ?_⟩
    intro rest
    rw [readScalar, readBytes_append]
    rfl

theorem length_packHead_pos {head : Head} (h : head.Fits) : 0 < (packHead head).length := by
  rw [List.length_pos_iff]
  intro hnil
  have hread := readHead_packHead [] h
  rw [hnil] at hread
  cases hread

/-- A list of values that are each read as they were written. -/
theorem readMany_flatMap {α : Type} {read : Bytes → Option (α × Bytes)} {write : α → Bytes} {l : List α} (rest : Bytes)
    (h : ∀ a ∈ l, ∀ rest, read (write a ++ rest) = some (a, rest)) :
    readMany read l.length (l.flatMap write ++ rest) = some (l, rest) := by
  induction l with
  | nil => rfl
  | cons a l ih =>
    rw [List.flatMap_cons, List.append_assoc, List.length_cons, readMany, h a List.mem_cons_self]
    show (readMany read l.length (l.flatMap write ++ rest)).bind _ = _
    rw [ih fun a ha => h a (List.mem_cons_of_mem _ ha)]
    rfl

theorem packAll_eq (elems : List Native) : packAll elems = elems.flatMap pack := by
  induction elems with
  | nil => rfl
  | cons elem elems ih => rw [packAll, ih, List.flatMap_cons]

def packEntry (entry : Scalar × Native) : Bytes := packScalar entry.1 ++ pack entry.2

theorem packEntries_eq (entries : List (Scalar × Native)) : packEntries entries = entries.flatMap packEntry := by
  induction entries with
  | nil => rfl
  | cons entry entries ih => rw [packEntries, ih, List.flatMap_cons, packEntry]

theorem length_le_flatMap {α : Type} {write : α → Bytes} {l : List α} {a : α} (h : a ∈ l) :
    (write a).length ≤ (l.flatMap write).length := by
  obtain ⟨front, back, rfl⟩ := List.append_of_mem h
  rw [List.flatMap_append, List.flatMap_cons, List.length_append, List.length_append]
  omega

theorem readEntry_packEntry {read : Bytes → Option (Native × Bytes)} {entry : Scalar × Native}
    (rest : Bytes) (hkey : entry.1.Fits) (hvalue : read (pack entry.2 ++ rest) = some (entry.2, rest)) :
    readEntry read (packEntry entry ++ rest) = some (entry, rest) := by
  obtain ⟨head, payload, hhead, hpack, hread⟩ := exists_head hkey
  rw [packEntry, hpack, List.append_assoc, List.append_assoc, readEntry, readHead_packHead _ hhead]
  show (readScalar head (payload ++ (pack entry.2 ++ rest))).bind _ = _
  rw [hread]
  show (read (pack entry.2 ++ rest)).bind _ = _
  rw [hvalue]
  rfl

/-- A head that announces a scalar. -/
theorem readBody_scalar {read : Bytes → Option (Native × Bytes)} {head : Head} {bytes rest : Bytes}
    {value : Scalar} (h : readScalar head bytes = some (value, rest)) :
    readBody read head bytes = some (.scalar value, rest) := by
  cases head with
  | array length => cases h
  | map length => cases h
  | ext length code => cases h
  | _ =>
    rw [readBody, h]
    · rfl
    all_goals nofun

theorem readNative_pack {n : Native} (h : n.Fits UserCode) {depth : Nat} (rest : Bytes)
    (hdepth : (pack n).length ≤ depth) : readNative depth (pack n ++ rest) = some (n, rest) := by
  induction h generalizing depth rest with
  | scalar hvalue =>
    obtain ⟨head, payload, hhead, hpack, hread⟩ := exists_head hvalue
    have hpos := length_packHead_pos hhead
    rw [pack, hpack] at hdepth ⊢
    rw [List.length_append] at hdepth
    obtain ⟨depth, rfl⟩ := Nat.exists_eq_succ_of_ne_zero (by omega : depth ≠ 0)
    rw [List.append_assoc, readNative, readHead_packHead _ hhead]
    exact readBody_scalar (hread rest)
  | @ext code data hcode hdata =>
    have hhead : (Head.ext data.length code).Fits := ⟨hdata, hcode⟩
    have hpos := length_packHead_pos hhead
    rw [pack] at hdepth ⊢
    rw [List.length_append] at hdepth
    obtain ⟨depth, rfl⟩ := Nat.exists_eq_succ_of_ne_zero (by omega : depth ≠ 0)
    rw [List.append_assoc, readNative, readHead_packHead _ hhead]
    exact congrArg (Option.map _) (readBytes_append data rest)
  | @array elems hlength _ ih =>
    have hhead : (Head.array elems.length).Fits := hlength
    have hpos := length_packHead_pos hhead
    rw [pack, packAll_eq] at hdepth ⊢
    rw [List.length_append] at hdepth
    obtain ⟨depth, rfl⟩ := Nat.exists_eq_succ_of_ne_zero (by omega : depth ≠ 0)
    rw [List.append_assoc, readNative, readHead_packHead _ hhead]
    apply congrArg (Option.map _) (readMany_flatMap rest _)
    intro elem helem rest
    have hle : (pack elem).length ≤ _ := length_le_flatMap helem
    exact ih elem helem rest (by omega)
  | @map entries hlength _ hkeys _ ih =>
    have hhead : (Head.map entries.length).Fits := hlength
    have hpos := length_packHead_pos hhead
    rw [pack, packEntries_eq] at hdepth ⊢
    rw [List.length_append] at hdepth
    obtain ⟨depth, rfl⟩ := Nat.exists_eq_succ_of_ne_zero (by omega : depth ≠ 0)
    rw [List.append_assoc, readNative, readHead_packHead _ hhead]
    apply congrArg (Option.map _) (readMany_flatMap rest _)
    intro entry hentry rest
    have hle : (packEntry entry).length ≤ _ := length_le_flatMap hentry
    rw [packEntry, List.length_append] at hle
    exact readEntry_packEntry rest (hkeys entry hentry) (ih entry hentry rest (by omega))

/-- A message gives back the value that was written. -/
theorem unpack_pack {n : Native} (h : n.Fits UserCode) : unpack (pack n) = some n := by
  have hread := readNative_pack h [] le_rfl
  rw [List.append_nil] at hread
  unfold unpack
  rw [hread]

end Yuan.Msgpack
