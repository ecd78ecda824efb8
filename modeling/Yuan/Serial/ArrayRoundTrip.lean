import Mathlib.Algebra.BigOperators.Ring.List
import Yuan.Serial.Sendable

/-!
# Arrays, slices and fields on the way

Each leaf of a message is within the limits of the format, and the hook for it reads the same leaf
again, inline or from the buffer that its index stands for.
-/

namespace Yuan.Serial

open Yuan.Msgpack

variable {cpu : Bool}

/-- The only extension that is sent. -/
def RawView (code : Nat) : Prop := code = CUSTOM_TYPE_RAW_VIEW

/-- A native value within the limits that is read as `v`, with all the buffers of its message. -/
def Reads {V : Type} (decode : List Bytes → Native → Except SerialError V) (v : V) (full : List Bytes)
    (native : Native) : Prop :=
  full.length ≤ 2 ^ 63 → Fits RawView native ∧ decode full native = .ok v

theorem bufferAt_of_get {bufs : List Bytes} {i : Nat} {buffer : Bytes} (h : bufs[i]? = some buffer) :
    bufferAt bufs i = .ok buffer := by
  unfold bufferAt
  rw [if_neg (by omega), Int.toNat_natCast, h]
  exact if_pos (by omega)

/-- The index of a stashed buffer stands for it. -/
theorem writes_stash (arrData : Bytes) : Writes (stash arrData) 1 (Reads bufferOf arrData) := by
  intro aux haux
  have hpos : 0 < aux.length := List.length_pos_iff.mpr haux
  refine ⟨_, _, rfl, List.prefix_append aux [arrData], by rw [List.length_append]; rfl, ?_⟩
  rintro full ⟨hle, hget⟩ hlength
  rw [List.length_append, List.length_singleton] at hle hget
  refine ⟨.scalar ⟨by omega, by omega⟩, bufferAt_of_get ?_⟩
  rw [hget _ hpos (by omega), List.getElem?_append_right le_rfl, Nat.sub_self]
  rfl

theorem writes_placeData {inline : Prop} [Decidable inline] {arrData : Bytes} (h : inline → LengthFits arrData.length) :
    Writes (placeData inline arrData) 1 (Reads bufferOf arrData) := by
  unfold placeData
  by_cases hinline : inline
  · rw [if_pos (decide_eq_true hinline)]
    have hpure : Writes (pure (.ext CUSTOM_TYPE_RAW_VIEW arrData)) 0 (Reads bufferOf arrData) :=
      writes_pure fun _ _ => ⟨.ext rfl (h hinline), rfl⟩
    exact hpure.mono (by omega) fun _ _ hread => hread
  · rw [if_neg (by rw [decide_eq_true_iff]; exact hinline)]
    exact writes_stash arrData

theorem decodeDim_natCast (n : Nat) : decodeDim (Native.int n) = .ok n := by
  unfold decodeDim
  dsimp only
  rw [if_pos (Int.natCast_nonneg n), Int.toNat_natCast]

theorem decodeShape_encodeShape (shape : List Nat) : decodeShape (encodeShape shape) = .ok shape := by
  unfold encodeShape decodeShape
  rw [mapM_eq_ok, List.forall₂_map_left_iff]
  exact List.forall₂_same.mpr fun n _ => decodeDim_natCast n

theorem fits_encodeShape {shape : List Nat} (h : ShapeFits shape) : Fits RawView (encodeShape shape) := by
  refine .array (by rw [List.length_map]; exact h.1) ?_
  intro elem helem
  obtain ⟨n, hn, rfl⟩ := List.mem_map.mp helem
  have hlt := h.2 n hn
  exact .scalar ⟨by omega, by omega⟩

theorem fits_three {a b c : Native} (ha : Fits RawView a) (hb : Fits RawView b) (hc : Fits RawView c) :
    Fits RawView (.array [a, b, c]) := by
  refine .array (show 3 < 2 ^ 32 by decide) ?_
  simp only [List.mem_cons, List.not_mem_nil, or_false]
  rintro elem (rfl | rfl | rfl)
  · exact ha
  · exact hb
  · exact hc

section

variable {D T : Type} [NumpyDType D] [TorchDType T] {obj : NDArray D} {sizeThreshold : Int}

theorem frombuffer_eq (hpos : 0 < NumpyDType.itemsize obj.dtype) :
    ∃ size, frombuffer obj.data obj.dtype = .ok size := by
  unfold frombuffer
  have hmod : obj.data.length % NumpyDType.itemsize obj.dtype = 0 := by
    rw [obj.length_data]
    exact Nat.mul_mod_left _ _
  rw [if_neg hpos.ne', if_neg (not_not.mpr hmod)]
  exact ⟨_, rfl⟩

theorem reshape_eq (obj : NDArray D) (size : Nat) :
    reshape obj.data obj.dtype size obj.shape = .ok obj.toContiguous := by
  unfold reshape
  rw [dif_pos ⟨obj.shape_fits, obj.length_data⟩]
  rfl

/-- An array, whose data is read from where it was put. -/
theorem reads_ndarray (h : obj.Sendable sizeThreshold) {full : List Bytes} {data : Native}
    (hdata : Reads bufferOf obj.data full data) : Reads decodeNdarray obj.toContiguous full
      (.array [Native.str (NumpyDType.str obj.dtype), encodeShape obj.shape, data]) := by
  intro hlength
  obtain ⟨hfits, hbuffer⟩ := hdata hlength
  refine ⟨fits_three (.scalar (NumpyDType.length_str _)) (fits_encodeShape obj.shape_fits) hfits, ?_⟩
  obtain ⟨size, hsize⟩ := frombuffer_eq h.itemsize_pos
  have hkind := not_or.mp h.plain
  refine bind_eq_ok.mpr ⟨_, rfl, ?_⟩
  refine bind_eq_ok.mpr ⟨_, hbuffer, ?_⟩
  refine bind_eq_ok.mpr ⟨_, rfl, ?_⟩
  refine bind_eq_ok.mpr ⟨_, NumpyDType.dtype_str _ hkind.1 hkind.2 h.exports, ?_⟩
  refine bind_eq_ok.mpr ⟨_, hsize, ?_⟩
  exact bind_eq_ok.mpr ⟨_, decodeShape_encodeShape _, reshape_eq obj size⟩

theorem writes_ndarray (h : obj.Sendable sizeThreshold) :
    Writes (encodeNdarray sizeThreshold obj) 1 (Reads decodeNdarray obj.toContiguous) := by
  have hdata : obj.arrData = .ok obj.data := by
    unfold NDArray.arrData NDArray.buffer
    rw [if_pos h.exports]
    exact ite_self _
  unfold encodeNdarray
  rw [hdata]
  exact (writes_placeData h.inline).map fun _ _ hread => reads_ndarray h hread

theorem reads_tensor {obj : Tensor T} {full : List Bytes} {data : Native} (hdata : Reads bufferOf obj.data full data) :
    Reads decodeTensor obj full (.array [Native.str (TorchDType.name obj.dtype), encodeShape obj.shape, data]) := by
  intro hlength
  obtain ⟨hfits, hbuffer⟩ := hdata hlength
  refine ⟨fits_three (.scalar (TorchDType.length_name _)) (fits_encodeShape obj.shape_fits) hfits, ?_⟩
  refine bind_eq_ok.mpr ⟨_, rfl, ?_⟩
  refine bind_eq_ok.mpr ⟨_, hbuffer, ?_⟩
  refine bind_eq_ok.mpr ⟨_, rfl, ?_⟩
  refine bind_eq_ok.mpr ⟨_, TorchDType.dtype_name _, ?_⟩
  refine bind_eq_ok.mpr ⟨_, decodeShape_encodeShape _, ?_⟩
  have hlen := obj.length_data
  split
  case isTrue hnil =>
    -- no bytes, because some dimension is zero
    rw [hnil, List.length_nil, eq_comm, Nat.mul_eq_zero] at hlen
    have hzero : 0 ∈ obj.shape := by
      rcases hlen with hprod | hsize
      · exact List.prod_eq_zero_iff.mp hprod
      · exact absurd hsize (TorchDType.itemsize_pos _).ne'
    rw [if_pos hzero]
    unfold emptyTensor
    have hlen' := obj.length_data
    rw [hnil] at hlen'
    rw [dif_pos ⟨obj.shape_fits, hlen'⟩]
    congr 1
    obtain ⟨dtype, shape, data, _, _⟩ := obj
    obtain rfl : data = [] := hnil
    rfl
  case isFalse =>
    unfold viewAs
    rw [dif_pos ⟨obj.shape_fits, hlen⟩]

/-- The native form of a tensor starts with a string. -/
def IsTensorForm (native : Native) : Prop := ∃ name shape data, native = .array [Native.str name, shape, data]

theorem writes_tensor {obj : Tensor T} (h : obj.Sendable sizeThreshold) :
    Writes (encodeTensor sizeThreshold obj) 1 fun full native =>
      Reads decodeTensor obj full native ∧ IsTensorForm native := by
  exact (writes_placeData h).map fun _ _ hread => ⟨reads_tensor hread, _, _, _, rfl⟩

end

/-! ## Slices and fields -/

theorem decodeBound_encodeBound (bound : Option Int) : decodeBound (encodeBound bound) = .ok bound := by
  cases bound <;> rfl

theorem fits_encodeBound {bound : Option Int} (h : BoundFits bound) : Fits RawView (encodeBound bound) := by
  cases bound with
  | none => exact .scalar trivial
  | some v => exact .scalar (h v rfl)

theorem decodeSlice_encodeSlice (s : Slice) :
    decodeSlice [encodeBound s.start, encodeBound s.stop, encodeBound s.step] = .ok s := by
  refine bind_eq_ok.mpr ⟨_, decodeBound_encodeBound s.start, ?_⟩
  refine bind_eq_ok.mpr ⟨_, decodeBound_encodeBound s.stop, ?_⟩
  exact bind_eq_ok.mpr ⟨_, decodeBound_encodeBound s.step, rfl⟩

theorem fits_encodeSlice {s : Slice} (h : s.Fits) : Fits RawView (encodeSlice s) :=
  fits_three (fits_encodeBound h.start) (fits_encodeBound h.stop) (fits_encodeBound h.step)

theorem isList_encodeBound (bound : Option Int) : isList (encodeBound bound) = false := by
  cases bound <;> rfl

theorem encodeNestedSlicesList_eq (elems : List NestedSlices) :
    encodeNestedSlicesList elems = elems.map encodeNestedSlices := by
  induction elems with
  | nil => rfl
  | cons elem elems ih => rw [encodeNestedSlicesList, ih, List.map_cons]

theorem decodeNestedSlicesList_eq (natives : List Native) :
    decodeNestedSlicesList natives = natives.mapM decodeNestedSlices := by
  induction natives with
  | nil => rfl
  | cons native natives ih => rw [decodeNestedSlicesList, ih, List.mapM_cons]

theorem isList_encodeNestedSlices (slices : NestedSlices) : isList (encodeNestedSlices slices) = true := by
  cases slices <;> rfl

/-- Slices and lists of slices are told apart by what comes first in them. -/
theorem reads_nestedSlices {slices : NestedSlices} (h : slices.Fits) :
    Fits RawView (encodeNestedSlices slices) ∧ decodeNestedSlices (encodeNestedSlices slices) = .ok slices := by
  induction h with
  | @slice s hs =>
    refine ⟨fits_encodeSlice hs, ?_⟩
    rw [encodeNestedSlices, encodeSlice, decodeNestedSlices, if_neg, decodeSlice_encodeSlice]
    · rfl
    · rw [List.head?_cons, Option.all_some, isList_encodeBound]
      exact Bool.false_ne_true
  | @list elems hlength _ ih =>
    rw [encodeNestedSlices, encodeNestedSlicesList_eq]
    constructor
    · refine .array (by rw [List.length_map]; exact hlength) ?_
      intro native hnative
      obtain ⟨elem, helem, rfl⟩ := List.mem_map.mp hnative
      exact (ih elem helem).1
    · have hall : (elems.map encodeNestedSlices).head?.all isList = true := by
        cases elems with
        | nil => rfl
        | cons elem elems => exact isList_encodeNestedSlices elem
      have helems : (elems.map encodeNestedSlices).mapM decodeNestedSlices = .ok elems := by
        rw [mapM_eq_ok, List.forall₂_map_left_iff]
        exact List.forall₂_same.mpr fun elem helem => (ih elem helem).2
      rw [decodeNestedSlices, if_pos hall, decodeNestedSlicesList_eq, helems]
      rfl

section Keys

variable {α : Type} {entries : List (Scalar × α)} {key key' : String} {value : α}

theorem same_str {a b : String} : (Scalar.str a).Same (.str b) ↔ a = b := by
  constructor
  · rintro ⟨-, heq, -⟩
    exact Scalar.str.inj (heq rfl)
  · rintro rfl
    exact ⟨rfl, fun _ => rfl, id⟩

theorem lookup_cons_self : lookup ((.str key, value) :: entries) (.str key) = some value := by
  unfold lookup
  rw [List.find?_cons, decide_eq_true (same_str.mpr rfl)]
  rfl

theorem lookup_cons_of_ne (h : key ≠ key') :
    lookup ((.str key', value) :: entries) (.str key) = lookup entries (.str key) := by
  unfold lookup
  rw [List.find?_cons, decide_eq_false (fun hsame => h (same_str.mp hsame))]

/-- Distinct strings are distinct keys. -/
theorem keyed_of_nodup {names : List String} (hnames : entries.map Prod.fst = names.map .str) (hnodup : names.Nodup) :
    Keyed entries := by
  constructor
  · have hdistinct : (entries.map Prod.fst).Pairwise fun a b => ¬ a.Same b := by
      rw [hnames, List.pairwise_map]
      exact hnodup.imp fun hne hsame => hne (same_str.mp hsame)
    exact List.pairwise_map.mp hdistinct
  · intro entry hentry
    obtain ⟨name, -, hname⟩ := List.mem_map.mp (hnames ▸ List.mem_map_of_mem hentry)
    rw [← hname, same_str]

end Keys

theorem fits_str_of_length {value : String} (h : (utf8 value).length < 32) : (Scalar.str value).Fits :=
  Nat.lt_of_lt_of_le h (by decide)

/-- Keywords with short names. -/
theorem fits_keywords (names : List String) {kw : List (Scalar × Native)} (hkw : kw.map Prod.fst = names.map .str)
    (hlength : names.length < 2 ^ 32) (hnames : ∀ name ∈ names, (utf8 name).length < 32) (hnodup : names.Nodup)
    (hvalues : ∀ entry ∈ kw, Fits RawView entry.2) : Fits RawView (.map kw) := by
  have hsize : kw.length = names.length := by simpa using congrArg List.length hkw
  refine .map (hsize ▸ hlength) (keyed_of_nodup hkw hnodup) (fun entry hentry => ?_) hvalues
  obtain ⟨name, hname, heq⟩ := List.mem_map.mp (hkw ▸ List.mem_map_of_mem hentry)
  rw [← heq]
  exact fits_str_of_length (hnames name hname)

/-- A name with its keywords. -/
theorem fits_named {name : String} {kw : List (Scalar × Native)} (hname : (Scalar.str name).Fits)
    (hkw : Fits RawView (.map kw)) : Fits RawView (.array [Native.str name, .map kw]) := by
  refine .array (show 2 < 2 ^ 32 by decide) ?_
  simp only [List.mem_cons, List.not_mem_nil, or_false]
  rintro elem (rfl | rfl)
  · exact .scalar hname
  · exact hkw

theorem reads_flat {slices : NestedSlices} {dim : Int} (hslices : slices.Fits) (hdim : (Scalar.int dim).Fits) :
    Fits RawView (encodeMmField (.flat cpu slices dim)) ∧
      decodeMmField (encodeMmField (.flat cpu slices dim)) = .ok (.flat cpu slices dim) := by
  obtain ⟨hfits, hdecode⟩ := reads_nestedSlices hslices
  constructor
  · refine fits_named (fits_str_of_length (by decide)) (fits_keywords ["keep_on_cpu", "slices", "dim"] rfl
      (by decide) (by decide) (by decide) ?_)
    simp only [List.mem_cons, List.not_mem_nil, or_false]
    rintro entry (rfl | rfl | rfl)
    · exact .scalar trivial
    · exact hfits
    · exact .scalar hdim
  · refine bind_eq_ok.mpr ⟨_, rfl, bind_eq_ok.mpr ⟨_, rfl, ?_⟩⟩
    let kw : List (Scalar × Native) := [(.str "keep_on_cpu", .scalar (.bool cpu)),
      (.str "slices", encodeNestedSlices slices), (.str "dim", Native.int dim)]
    exact bind_eq_ok.mpr ⟨_, rfl, bind_eq_ok.mpr ⟨_, hdecode, bind_eq_ok.mpr ⟨_, rfl, rfl⟩⟩⟩

theorem reads_shared {batchSize : Int} (hsize : (Scalar.int batchSize).Fits) :
    Fits RawView (encodeMmField (.shared cpu batchSize)) ∧
      decodeMmField (encodeMmField (.shared cpu batchSize)) = .ok (.shared cpu batchSize) := by
  constructor
  · refine fits_named (fits_str_of_length (by decide)) (fits_keywords ["keep_on_cpu", "batch_size"] rfl
      (by decide) (by decide) (by decide) ?_)
    simp only [List.mem_cons, List.not_mem_nil, or_false]
    rintro entry (rfl | rfl)
    · exact .scalar trivial
    · exact .scalar hsize
  · refine bind_eq_ok.mpr ⟨_, rfl, bind_eq_ok.mpr ⟨_, rfl, ?_⟩⟩
    exact bind_eq_ok.mpr ⟨_, rfl, rfl⟩

theorem reads_batched :
    Fits RawView (encodeMmField (.batched cpu)) ∧
      decodeMmField (encodeMmField (.batched cpu)) = .ok (.batched cpu) := by
  constructor
  · refine fits_named (fits_str_of_length (by decide)) (fits_keywords ["keep_on_cpu"] rfl
      (by decide) (by decide) (by decide) ?_)
    simp only [List.mem_singleton]
    rintro entry rfl
    exact .scalar trivial
  · refine bind_eq_ok.mpr ⟨_, rfl, bind_eq_ok.mpr ⟨_, rfl, ?_⟩⟩
    exact bind_eq_ok.mpr ⟨_, rfl, rfl⟩

theorem reads_mmField {field : MultiModalField} (h : field.Fits) :
    Fits RawView (encodeMmField field) ∧ decodeMmField (encodeMmField field) = .ok field := by
  cases h with
  | flat hslices hdim => exact reads_flat hslices hdim
  | shared hsize => exact reads_shared hsize
  | batched => exact reads_batched

end Yuan.Serial
