import Yuan.Serial.ItemRoundTrip

/-!
# Messages come back as they were sent

A value is read by the hooks as the value that was written, by recursion over lists and dictionaries,
whether a type is asked for, a type description goes with it, or neither. A whole message is packed,
unpacked and read with the buffers that were stashed for it.
-/

namespace Yuan.Serial

open Yuan.Msgpack

section

variable {V : Type} {decode : List Bytes → Native → Except SerialError V} {full : List Bytes}

/-- What is read by way of something else. -/
theorem Reads.wrap {W : Type} {decode' : List Bytes → Native → Except SerialError W} {g : V → W} {v : V}
    {native : Native} (h : Reads decode v full native)
    (hwrap : decode full native = .ok v → decode' full native = .ok (g v)) : Reads decode' (g v) full native :=
  fun hlength => ⟨(h hlength).1, hwrap (h hlength).2⟩

/-- What is written for a key and its value. -/
def ReadsPair {W : Type} (decode : W → List Bytes → Native → Except SerialError V) (g : W → V)
    (entry : Scalar × W) (full : List Bytes) (native : Scalar × Native) : Prop :=
  native.1 = entry.1 ∧ Reads (decode entry.2) (g entry.2) full native.2

theorem fits_pairs {W : Type} {decode : W → List Bytes → Native → Except SerialError V} {g : W → V}
    {entries : List (Scalar × W)} {natives : List (Scalar × Native)}
    (h : List.Forall₂ (fun entry native => ReadsPair decode g entry full native) entries natives)
    (hfits : LengthFits entries.length) (hkeyed : Keyed entries) (hkeys : ∀ entry ∈ entries, entry.1.Fits)
    (hlength : full.length ≤ 2 ^ 63) : Keyed natives ∧ Fits RawView (.map natives) :=
  fits_map (h.imp fun _ _ hread => ⟨hread.1, (hread.2 hlength).1⟩) hfits hkeyed hkeys

end

section

variable {D T : Type} [NumpyDType D] [TorchDType T] [Pickle D T] {allowInsecure : Bool} {sizeThreshold : Int}
  {full : List Bytes} {value : Value D T}

theorem encodeValues_eq (elems : List (Value D T)) :
    encodeValues allowInsecure sizeThreshold elems = elems.mapM (encodeValue allowInsecure sizeThreshold) := by
  induction elems with
  | nil => rfl
  | cons elem elems ih => rw [encodeValues, ih, List.mapM_cons]

theorem encodeDictEntries_eq (entries : List (Scalar × Value D T)) :
    encodeDictEntries allowInsecure sizeThreshold entries = entries.mapM fun entry =>
      encodeValue allowInsecure sizeThreshold entry.2 >>= fun native => pure (entry.1, native) := by
  induction entries with
  | nil => rfl
  | cons entry entries ih =>
    rw [encodeDictEntries, ih, List.mapM_cons]
    simp only [bind_assoc, pure_bind]

theorem toValues_eq (natives : List Native) :
    (toValues allowInsecure natives : Except SerialError (List (Value D T))) =
      natives.mapM (toValue allowInsecure) := by
  induction natives with
  | nil => rfl
  | cons native natives ih => rw [toValues, ih, List.mapM_cons]

theorem toEntries_eq (natives : List (Scalar × Native)) :
    (toEntries allowInsecure natives : Except SerialError (List (Scalar × Value D T))) =
      natives.mapM fun native => toValue allowInsecure native.2 >>= fun value => pure (native.1, value) := by
  induction natives with
  | nil => rfl
  | cons native natives ih =>
    rw [toEntries, ih, List.mapM_cons]
    simp only [bind_assoc, pure_bind]

/-- A list whose elements are written one by one. -/
theorem writes_values {P : Value D T → List Bytes → Native → Prop} {elems : List (Value D T)}
    (h : ∀ elem ∈ elems, Writes (encodeValue allowInsecure sizeThreshold elem) elem.arrays (P elem))
    {Q : List Bytes → Native → Prop}
    (hmono : ∀ full natives, List.Forall₂ (fun elem native => P elem full native) elems natives →
      Q full (.array natives)) :
    Writes (encodeValue allowInsecure sizeThreshold (.list elems)) (Value.list elems).arrays Q := by
  rw [encodeValue, encodeValues_eq, Value.arrays, Value.listArrays_eq]
  exact (writes_mapM h).map hmono

/-- A dictionary whose values are written one by one. -/
theorem writes_dict {V : Type} {decode : Value D T → List Bytes → Native → Except SerialError V}
    {g : Value D T → V} {entries : List (Scalar × Value D T)}
    (h : ∀ entry ∈ entries, Writes (encodeValue allowInsecure sizeThreshold entry.2) entry.2.arrays
      (Reads (decode entry.2) (g entry.2))) {Q : List Bytes → Native → Prop}
    (hmono : ∀ full natives, List.Forall₂ (fun entry native => ReadsPair decode g entry full native)
      entries natives → Q full (.map natives)) :
    Writes (encodeValue allowInsecure sizeThreshold (.dict entries)) (Value.dict entries).arrays Q := by
  rw [encodeValue, encodeDictEntries_eq, Value.arrays, Value.entriesArrays_eq]
  have hentries := @writes_mapM _ _ (fun entry : Scalar × Value D T =>
      encodeValue allowInsecure sizeThreshold entry.2 >>= fun native => pure (entry.1, native))
    (fun entry => entry.2.arrays) (ReadsPair decode g) entries
    fun entry hentry => (h entry hentry).map fun _ _ hread => ⟨rfl, hread⟩
  exact hentries.map hmono

omit [Pickle D T] in
theorem toContiguous_of_plain (h : value.Plain) : value.toContiguous = value := by
  induction h with
  | scalar _ => rfl
  | list _ _ ih =>
    rw [Value.toContiguous, Value.listToContiguous_eq, List.map_congr_left ih, List.map_id']
  | @dict entries _ _ _ _ ih =>
    have hentries : (entries.map fun entry => (entry.1, entry.2.toContiguous)) = entries.map id := by
      apply List.map_congr_left
      intro entry hentry
      rw [ih entry hentry]
      rfl
    rw [Value.toContiguous, Value.entriesToContiguous_eq, hentries, List.map_id]

/-- What needs no hook is read without one. -/
theorem writes_plain (h : value.Plain) : Writes (encodeValue allowInsecure sizeThreshold value) value.arrays
      (Reads (fun _ => toValue allowInsecure) value) := by
  induction h with
  | scalar hvalue => exact writes_native fun _ => ⟨.scalar hvalue, rfl⟩
  | @list elems hfits _ ih =>
    apply writes_values ih
    intro full natives hread hlength
    obtain ⟨hlen, hnatives, hdecode⟩ := reads_mapM hread hlength
    refine ⟨.array (hlen ▸ hfits) hnatives, ?_⟩
    show toValue allowInsecure (.array natives) = _
    rw [toValue, toValues_eq, hdecode]
    rfl
  | @dict entries hfits hkeyed hkeys _ ih =>
    apply @writes_dict _ _ _ _ _ _ _ _ (fun _ _ => toValue allowInsecure) id entries ih
    intro full natives hread hlength
    obtain ⟨-, hnatives⟩ := fits_pairs hread hfits hkeyed hkeys hlength
    refine ⟨hnatives, ?_⟩
    have hdecode : natives.mapM (fun native => toValue allowInsecure native.2 >>= fun value =>
        pure (native.1, value)) = .ok entries := by
      rw [mapM_eq_ok]
      apply hread.flip.imp
      rintro ⟨_, native⟩ ⟨key, value⟩ ⟨rfl, hvalue⟩
      exact bind_eq_ok.mpr ⟨_, (hvalue hlength).2, rfl⟩
    show toValue allowInsecure (.map natives) = _
    rw [toValue, toEntries_eq, hdecode]
    rfl

/-! ## Type descriptions -/

theorem fits_typeNames (cls : PyClass) : (Scalar.str (typeNames cls).1).Fits ∧ (Scalar.str (typeNames cls).2).Fits := by
  cases cls with
  | builtin builtin => cases builtin <;> exact ⟨fits_str_of_length (by decide), fits_str_of_length (by decide)⟩
  | _ => exact ⟨fits_str_of_length (by decide), fits_str_of_length (by decide)⟩

theorem fits_encodeClass (cls : PyClass) : Fits RawView (encodeClass cls) := by
  refine .array (show 2 < 2 ^ 32 by decide) ?_
  simp only [List.mem_cons, List.not_mem_nil, or_false]
  rintro elem (rfl | rfl)
  · exact .scalar (fits_typeNames cls).1
  · exact .scalar (fits_typeNames cls).2

theorem importClass_typeNames (cls : PyClass) : importClass (typeNames cls).1 (typeNames cls).2 = .ok cls := by
  cases cls with
  | builtin builtin => cases builtin <;> rfl
  | _ => rfl

section

omit [Pickle D T]

theorem encodeTypeInfo_of_class {cls : PyClass} (h : value.OfClass sizeThreshold cls) :
    encodeTypeInfo value = encodeClass cls := by
  cases h with
  | @scalar value builtin _ hbuiltin =>
    rw [encodeTypeInfo, hbuiltin]
  | _ => rfl

theorem encodeTypeInfos_eq (elems : List (Value D T)) : encodeTypeInfos elems = elems.map encodeTypeInfo := by
  induction elems with
  | nil => rfl
  | cons elem elems ih => rw [encodeTypeInfos, ih, List.map_cons]

theorem encodeTypeInfoEntries_eq (entries : List (Scalar × Value D T)) :
    encodeTypeInfoEntries entries = entries.map fun entry => (entry.1, encodeTypeInfo entry.2) := by
  induction entries with
  | nil => rfl
  | cons entry entries ih => rw [encodeTypeInfoEntries, ih, List.map_cons]

theorem isStr_encodeTypeInfo (value : Value D T) : isStr (encodeTypeInfo value) = false := by
  cases value with
  | scalar value => cases value <;> rfl
  | _ => rfl

/-- A description of a list is not that of a class. -/
theorem isClassInfo_encodeTypeInfos (elems : List (Value D T)) : isClassInfo (encodeTypeInfos elems) = false := by
  unfold isClassInfo
  cases elems with
  | nil => rfl
  | cons elem elems =>
    rw [encodeTypeInfos, List.head?_cons, Option.any_some, isStr_encodeTypeInfo, Bool.and_false]

theorem fits_encodeTypeInfo (h : value.Described sizeThreshold) : Fits RawView (encodeTypeInfo value) := by
  induction h with
  | none => exact .scalar trivial
  | cls hcls =>
    rw [encodeTypeInfo_of_class hcls]
    exact fits_encodeClass _
  | @list elems hfits _ ih =>
    rw [encodeTypeInfo, encodeTypeInfos_eq]
    refine .array (by rw [List.length_map]; exact hfits) ?_
    intro native hnative
    obtain ⟨elem, helem, rfl⟩ := List.mem_map.mp hnative
    exact ih elem helem
  | @dict entries hfits hkeyed hkeys _ ih =>
    rw [encodeTypeInfo, encodeTypeInfoEntries_eq]
    have hmap : (entries.map fun entry => (entry.1, encodeTypeInfo entry.2)).map Prod.fst = entries.map Prod.fst := by
      rw [List.map_map]
      rfl
    refine .map (by rw [List.length_map]; exact hfits) (keyed_of_keys hkeyed hmap) ?_ ?_
    · intro native hnative
      obtain ⟨entry, hentry, rfl⟩ := List.mem_map.mp hnative
      exact hkeys entry hentry
    · intro native hnative
      obtain ⟨entry, hentry, rfl⟩ := List.mem_map.mp hnative
      exact ih entry hentry

end

/-! ## Values -/

variable [Msgspec]

/-- A value of a class is read by the hook for the class. -/
theorem writes_ofClass {cls : PyClass} (h : value.OfClass sizeThreshold cls) :
    Writes (encodeValue allowInsecure sizeThreshold value) value.arrays
      (Reads (fun full obj => decHook allowInsecure full obj cls) value.toContiguous) := by
  cases h with
  | @scalar value builtin hvalue hbuiltin =>
    apply writes_native
    intro full
    refine ⟨.scalar hvalue, ?_⟩
    exact bind_eq_ok.mpr ⟨_, Msgspec.convert_self _ _ hbuiltin, rfl⟩
  | @ndarray obj hobj =>
    rw [encodeValue, encodeArray, if_neg hobj.plain]
    apply (writes_ndarray hobj).mono le_rfl
    intro full native hread
    exact hread.wrap fun hdecode => bind_eq_ok.mpr ⟨_, hdecode, rfl⟩
  | tensor hobj =>
    apply (writes_tensor hobj).mono le_rfl
    rintro full native ⟨hread, -⟩
    exact hread.wrap fun hdecode => bind_eq_ok.mpr ⟨_, hdecode, rfl⟩
  | slice hobj =>
    apply writes_native
    intro full
    exact ⟨fits_encodeSlice hobj, bind_eq_ok.mpr ⟨_, decodeSlice_encodeSlice _, rfl⟩⟩
  | item hitem =>
    apply (writes_item hitem).mono le_rfl
    intro full native hread
    exact hread.wrap fun hdecode => bind_eq_ok.mpr ⟨_, hdecode, rfl⟩
  | items hitems =>
    apply (writes_items hitems).mono le_rfl
    intro full native hread
    exact hread.wrap fun hdecode => bind_eq_ok.mpr ⟨_, hdecode, rfl⟩

/-- A value is read as the type that it was sent to. -/
theorem writes_sendable {ty : Ty} (h : value.Sendable sizeThreshold ty) :
    Writes (encodeValue allowInsecure sizeThreshold value) value.arrays
      (Reads (fun full => decodeAs allowInsecure full ty) value.toContiguous) := by
  induction h with
  | @any value hplain =>
    rw [toContiguous_of_plain hplain]
    exact writes_plain hplain
  | cls hcls => exact writes_ofClass hcls
  | @list elems ty hfits _ ih =>
    apply writes_values ih
    intro full natives hread hlength
    have hread : List.Forall₂
        (fun value native => Reads (fun full => decodeAs allowInsecure full ty) value full native)
        (elems.map Value.toContiguous) natives := by
      rw [List.forall₂_map_left_iff]
      exact hread
    obtain ⟨hlen, hnatives, hdecode⟩ := reads_mapM hread hlength
    rw [List.length_map] at hlen
    refine ⟨.array (hlen ▸ hfits) hnatives, ?_⟩
    rw [Value.toContiguous, Value.listToContiguous_eq]
    exact bind_eq_ok.mpr ⟨_, hdecode, rfl⟩
  | @dict entries ty hfits hkeyed hkeys _ ih =>
    apply @writes_dict _ _ _ _ _ _ _ _ (fun _ full => decodeAs allowInsecure full ty) Value.toContiguous entries ih
    intro full natives hread hlength
    obtain ⟨-, hnatives⟩ := fits_pairs hread hfits hkeyed (fun entry hentry => (hkeys entry hentry).1) hlength
    refine ⟨hnatives, ?_⟩
    rw [Value.toContiguous, Value.entriesToContiguous_eq]
    refine bind_eq_ok.mpr ⟨_, ?_, rfl⟩
    rw [mapM_eq_ok, List.forall₂_map_right_iff]
    apply ((List.forall₂_and_left _ _).mpr ⟨hkeys, hread⟩).flip.imp
    rintro ⟨key, native⟩ ⟨_, value⟩ ⟨⟨-, hstr⟩, rfl, hvalue⟩
    cases key with
    | str key => exact bind_eq_ok.mpr ⟨_, rfl, bind_eq_ok.mpr ⟨_, (hvalue hlength).2, rfl⟩⟩
    | _ => cases hstr

/-- A list whose elements are read with their descriptions. -/
theorem decodeTypeInfos_eq {elems : List (Value D T)} {natives : List Native} (hlength : full.length ≤ 2 ^ 63)
    (h : List.Forall₂ (fun elem native => Reads (fun full => decodeTypeInfo true full (encodeTypeInfo elem))
      elem.toContiguous full native) elems natives) :
    decodeTypeInfos true full (encodeTypeInfos elems) natives = .ok (Value.listToContiguous elems) := by
  induction h with
  | nil => rfl
  | cons hread _ ih =>
    exact bind_eq_ok.mpr ⟨_, (hread hlength).2, bind_eq_ok.mpr ⟨_, ih, rfl⟩⟩

/-- A dictionary whose values are read with their descriptions, each found under its key. -/
theorem decodeTypeInfoEntries_eq {entries : List (Scalar × Value D T)} {natives data : List (Scalar × Native)}
    (hlength : full.length ≤ 2 ^ 63) (hdata : ∀ native ∈ natives, lookup data native.1 = some native.2)
    (h : List.Forall₂ (fun entry native =>
      ReadsPair (fun value full => decodeTypeInfo true full (encodeTypeInfo value)) Value.toContiguous entry full native)
      entries natives) :
    decodeTypeInfoEntries true full (encodeTypeInfoEntries entries) data = .ok (Value.entriesToContiguous entries) := by
  induction h with
  | nil => rfl
  | @cons entry native _ _ hread _ ih =>
    obtain ⟨key, value⟩ := entry
    obtain ⟨hkey, hvalue⟩ := hread
    have hget : lookup data key = some native.2 := by
      rw [← show native.1 = key from hkey]
      exact hdata native List.mem_cons_self
    rw [encodeTypeInfoEntries, decodeTypeInfoEntries, hget]
    exact bind_eq_ok.mpr ⟨_, (hvalue hlength).2,
      bind_eq_ok.mpr ⟨_, ih fun native hnative => hdata native (List.mem_cons_of_mem _ hnative), rfl⟩⟩

/-- A value is read with its description. -/
theorem writes_described (h : value.Described sizeThreshold) :
    Writes (encodeValue true sizeThreshold value) value.arrays
      (Reads (fun full => decodeTypeInfo true full (encodeTypeInfo value)) value.toContiguous) := by
  induction h with
  | none => exact writes_native fun _ => ⟨.scalar trivial, rfl⟩
  | @cls value cls hcls =>
    apply (writes_ofClass hcls).mono le_rfl
    intro full native hread hlength
    obtain ⟨hfits, hdecode⟩ := hread hlength
    refine ⟨hfits, ?_⟩
    rw [encodeTypeInfo_of_class hcls]
    exact bind_eq_ok.mpr ⟨_, rfl, bind_eq_ok.mpr ⟨_, rfl, bind_eq_ok.mpr ⟨_, rfl,
      bind_eq_ok.mpr ⟨_, importClass_typeNames cls, hdecode⟩⟩⟩⟩
  | @list elems hfits _ ih =>
    apply writes_values ih
    intro full natives hread hlength
    refine ⟨.array (hread.length_eq ▸ hfits) ?_, ?_⟩
    · intro native hnative
      obtain ⟨elem, _, helem⟩ := exists_of_mem_of_forall₂ hread hnative
      exact (helem hlength).1
    · show decodeTypeInfo true full (.array (encodeTypeInfos elems)) (.array natives) = _
      rw [decodeTypeInfo, if_neg (by rw [isClassInfo_encodeTypeInfos]; exact Bool.false_ne_true)]
      exact bind_eq_ok.mpr ⟨_, decodeTypeInfos_eq hlength hread, rfl⟩
  | @dict entries hfits hkeyed hkeys _ ih =>
    apply @writes_dict _ _ _ _ _ _ _ _ (fun value full => decodeTypeInfo true full (encodeTypeInfo value))
      Value.toContiguous entries ih
    intro full natives hread hlength
    obtain ⟨hnatives, hfits'⟩ := fits_pairs hread hfits hkeyed hkeys hlength
    refine ⟨hfits', ?_⟩
    have hdata : ∀ native ∈ natives, lookup natives native.1 = some native.2 :=
      fun native hnative => hnatives.lookup_eq hnative
    exact bind_eq_ok.mpr ⟨_, decodeTypeInfoEntries_eq hlength hdata hread, rfl⟩

end

end Yuan.Serial
