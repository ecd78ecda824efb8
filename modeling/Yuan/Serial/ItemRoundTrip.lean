import Yuan.Serial.ArrayRoundTrip

/-!
# Multi-modal items on the way

Nested tensors by recursion, and dictionaries entry by entry: what each part is read as is what was
written, and the buffers in between only grow.
-/

namespace Yuan.Serial

open Yuan.Msgpack

/-- Two lists of entries with the same keys. -/
theorem keyed_of_keys {α β : Type} {entries : List (Scalar × α)} {entries' : List (Scalar × β)}
    (h : Keyed entries) (hkeys : entries'.map Prod.fst = entries.map Prod.fst) : Keyed entries' := by
  have hpairwise : (entries.map Prod.fst).Pairwise fun a b => ¬ a.Same b := List.pairwise_map.mpr h.distinct
  rw [← hkeys] at hpairwise
  refine ⟨List.pairwise_map.mp hpairwise, ?_⟩
  intro entry hentry
  have hmem : entry.1 ∈ entries.map Prod.fst := hkeys ▸ List.mem_map_of_mem hentry
  obtain ⟨entry', hentry', heq⟩ := List.mem_map.mp hmem
  rw [← heq]
  exact h.found entry' hentry'

/-- A dictionary whose values are within the limits. -/
theorem fits_map {W : Type} {entries : List (Scalar × W)} {natives : List (Scalar × Native)}
    (h : List.Forall₂ (fun entry native => native.1 = entry.1 ∧ Fits RawView native.2) entries natives)
    (hfits : LengthFits entries.length) (hkeyed : Keyed entries) (hkeys : ∀ entry ∈ entries, entry.1.Fits) :
    Keyed natives ∧ Fits RawView (.map natives) := by
  have hmap : natives.map Prod.fst = entries.map Prod.fst := by
    rw [← List.forall₂_eq_eq_eq, List.forall₂_map_left_iff, List.forall₂_map_right_iff]
    exact h.flip.imp fun _ _ hread => hread.1
  have hnatives := keyed_of_keys hkeyed hmap
  refine ⟨hnatives, .map (h.length_eq ▸ hfits) hnatives ?_ ?_⟩
  · intro native hnative
    obtain ⟨entry, hentry, hkey, _⟩ := exists_of_mem_of_forall₂ h hnative
    rw [hkey]
    exact hkeys entry hentry
  · intro native hnative
    obtain ⟨entry, _, _, hread⟩ := exists_of_mem_of_forall₂ h hnative
    exact hread

section

variable {V : Type} {decode : List Bytes → Native → Except SerialError V} {full : List Bytes}

theorem writes_native {v : V} {native : Native} (h : ∀ full, Fits RawView native ∧ decode full native = .ok v) :
    Writes (pure native) 0 (Reads decode v) := writes_pure fun full _ => h full

/-- Parts that are read one by one. -/
theorem reads_mapM {l : List V} {natives : List Native}
    (h : List.Forall₂ (fun v native => Reads decode v full native) l natives) (hlength : full.length ≤ 2 ^ 63) :
    natives.length = l.length ∧ (∀ native ∈ natives, Fits RawView native) ∧ natives.mapM (decode full) = .ok l := by
  refine ⟨h.length_eq.symm, ?_, ?_⟩
  · intro native hnative
    obtain ⟨v, _, hread⟩ := exists_of_mem_of_forall₂ h hnative
    exact (hread hlength).1
  · rw [mapM_eq_ok]
    exact h.flip.imp fun _ _ hread => (hread hlength).2

/-- What is written for an entry. -/
def ReadsEntry (decode : List Bytes → Native → Except SerialError V) (entry : String × V)
    (full : List Bytes) (native : Scalar × Native) : Prop :=
  native.1 = .str entry.1 ∧ Reads decode entry.2 full native.2

/-- A dictionary whose entries are read one by one. -/
theorem reads_entries {d : Dict String V} {natives : List (Scalar × Native)}
    (h : List.Forall₂ (fun entry native => ReadsEntry decode entry full native) d.entries natives)
    (hfits : LengthFits d.entries.length) (hkeys : ∀ entry ∈ d.entries, (Scalar.str entry.1).Fits) :
    Reads (fun full => decodeEntries (decode full)) d full (.map natives) := by
  intro hlength
  constructor
  · have hpairs : List.Forall₂ (fun entry native => native.1 = entry.1 ∧ Fits RawView native.2)
        (d.entries.map fun entry => (Scalar.str entry.1, entry.2)) natives :=
      List.forall₂_map_left_iff.mpr (h.imp fun _ _ hread => ⟨hread.1, (hread.2 hlength).1⟩)
    refine (fits_map hpairs (by rwa [List.length_map]) (keyed_of_nodup ?_ d.nodup) ?_).2
    · simp only [List.map_map]
      rfl
    · exact List.forall_mem_map.mpr hkeys
  · refine bind_eq_ok.mpr ⟨d.entries, ?_, ?_⟩
    · rw [mapM_eq_ok]
      apply h.flip.imp
      rintro ⟨_, native⟩ ⟨key, v⟩ ⟨rfl, hread⟩
      exact bind_eq_ok.mpr ⟨_, rfl, bind_eq_ok.mpr ⟨_, (hread hlength).2, rfl⟩⟩
    · exact congrArg Except.ok (Dict.ext (Dict.entries_insertAll_empty d.nodup))

theorem writes_encodeEntries {encode : V → Encoder Native} {count : V → Nat} {d : Dict String V}
    (h : ∀ entry ∈ d.entries, Writes (encode entry.2) (count entry.2) (Reads decode entry.2))
    (hfits : LengthFits d.entries.length) (hkeys : ∀ entry ∈ d.entries, (Scalar.str entry.1).Fits) :
    Writes (encodeEntries encode d) (d.entries.map fun entry => count entry.2).sum
      (Reads (fun full => decodeEntries (decode full)) d) := by
  have hentries := @writes_mapM _ _ (fun entry : String × V => do return (Scalar.str entry.1, ← encode entry.2))
    (fun entry => count entry.2) (ReadsEntry decode) d.entries fun entry hentry =>
      (h entry hentry).map fun _ _ hread => ⟨rfl, hread⟩
  exact hentries.map fun _ _ hread => reads_entries hread hfits hkeys

end

section

variable {T : Type} [TorchDType T] {sizeThreshold : Int}

theorem encodeNestedTensorsList_eq (elems : List (NestedTensors T)) :
    encodeNestedTensorsList sizeThreshold elems = elems.mapM (encodeNestedTensors sizeThreshold) := by
  induction elems with
  | nil => rfl
  | cons elem elems ih => rw [encodeNestedTensorsList, ih, List.mapM_cons]

theorem decodeNestedTensorsList_eq (full : List Bytes) (natives : List Native) :
    (decodeNestedTensorsList full natives : Except SerialError (List (NestedTensors T))) =
      natives.mapM (decodeNestedTensors full) := by
  induction natives with
  | nil => rfl
  | cons native natives ih => rw [decodeNestedTensorsList, ih, List.mapM_cons]

/-- What a nested tensor is never sent as: a string would mark the list around it as a tensor, and
`None` is the absence of data. -/
def Unmarked (native : Native) : Prop := isStr native = false ∧ native ≠ Native.none

theorem reads_tensorForm {obj : Tensor T} {full : List Bytes} {native : Native}
    (h : Reads decodeTensor obj full native) (hform : IsTensorForm native) :
    Reads decodeNestedTensors (.tensor obj) full native := by
  intro hlength
  obtain ⟨hfits, hdecode⟩ := h hlength
  refine ⟨hfits, ?_⟩
  obtain ⟨name, shape, data, rfl⟩ := hform
  have hhead : [Native.str name, shape, data].head?.any isStr = true := rfl
  rw [decodeNestedTensors, if_pos hhead, hdecode]
  rfl

/-- A list of nested tensors, none of which is sent as a string. -/
theorem reads_tensorList {elems : List (NestedTensors T)} {full : List Bytes} {natives : List Native}
    (hfits : LengthFits elems.length)
    (h : List.Forall₂ (fun elem native => Reads decodeNestedTensors elem full native ∧ Unmarked native)
      elems natives) : Reads decodeNestedTensors (.list elems) full (.array natives) := by
  intro hlength
  obtain ⟨hlen, hnatives, hdecode⟩ := reads_mapM (h.imp fun _ _ hread => hread.1) hlength
  refine ⟨.array (hlen ▸ hfits) hnatives, ?_⟩
  have hhead : natives.head?.any isStr = false := by
    cases h with
    | nil => rfl
    | cons hread _ => exact hread.2.1
  rw [decodeNestedTensors, if_neg (by rw [hhead]; exact Bool.false_ne_true), decodeNestedTensorsList_eq,
    hdecode]
  rfl

theorem writes_nestedTensors {nt : NestedTensors T} (h : nt.Sendable sizeThreshold) :
    Writes (encodeNestedTensors sizeThreshold nt) nt.arrays fun full native =>
      Reads decodeNestedTensors nt full native ∧ Unmarked native := by
  induction h with
  | tensor hobj =>
    apply (writes_tensor hobj).mono le_rfl
    rintro full native ⟨hread, hform⟩
    refine ⟨reads_tensorForm hread hform, ?_⟩
    obtain ⟨name, shape, data, rfl⟩ := hform
    exact ⟨rfl, fun heq => by cases heq⟩
  | bool => exact writes_pure fun _ => ⟨fun _ => ⟨.scalar trivial, rfl⟩, rfl, fun heq => by cases heq⟩
  | int hvalue => exact writes_pure fun _ => ⟨fun _ => ⟨.scalar hvalue, rfl⟩, rfl, fun heq => by cases heq⟩
  | float => exact writes_pure fun _ => ⟨fun _ => ⟨.scalar trivial, rfl⟩, rfl, fun heq => by cases heq⟩
  | @list elems hfits _ ih =>
    rw [encodeNestedTensors, encodeNestedTensorsList_eq, NestedTensors.arrays, NestedTensors.listArrays_eq]
    exact (writes_mapM ih).map fun _ _ hread =>
      ⟨reads_tensorList hfits hread, rfl, fun heq => by cases heq⟩

theorem fits_elem {data field : Native} (hdata : Fits RawView data) (hfield : Fits RawView field) :
    Fits RawView (.map [(.str "data", data), (.str "field", field)]) := by
  refine fits_keywords ["data", "field"] rfl (by decide) (by decide) (by decide) ?_
  simp only [List.mem_cons, List.not_mem_nil, or_false]
  rintro entry (rfl | rfl)
  · exact hdata
  · exact hfield

theorem writes_data {data : Option (NestedTensors T)} (h : ∀ nt, data = some nt → nt.Sendable sizeThreshold) :
    Writes (encodeData sizeThreshold data) (data.elim 0 NestedTensors.arrays) (Reads decodeData data) := by
  cases data with
  | none => exact writes_native fun _ => ⟨.scalar trivial, rfl⟩
  | some nt =>
    apply (writes_nestedTensors (h nt rfl)).mono le_rfl
    rintro full native ⟨hread, _, hnone⟩ hlength
    obtain ⟨hfits, hdecode⟩ := hread hlength
    refine ⟨hfits, ?_⟩
    unfold decodeData
    split
    case h_1 => exact absurd rfl hnone
    case h_2 =>
      rw [hdecode]
      rfl

theorem reads_elem {elem : MultiModalFieldElem T} {full : List Bytes} {native : Native}
    (hfield : elem.field.Fits) (h : Reads decodeData elem.data full native) :
    Reads decodeMmFieldElem elem full (.map [(.str "data", native), (.str "field", encodeMmField elem.field)]) := by
  intro hlength
  obtain ⟨hfits, hdecode⟩ := h hlength
  obtain ⟨hfits', hdecode'⟩ := reads_mmField hfield
  refine ⟨fits_elem hfits hfits', ?_⟩
  let obj : List (Scalar × Native) := [(.str "data", native), (.str "field", encodeMmField elem.field)]
  have hdata : item obj "data" = .ok native := by
    unfold item
    rw [show lookup obj (.str "data") = some native from lookup_cons_self]
  have hitem : item obj "field" = .ok (encodeMmField elem.field) := by
    unfold item
    rw [show lookup obj (.str "field") = some (encodeMmField elem.field) from
      (lookup_cons_of_ne (by decide)).trans lookup_cons_self]
  refine bind_eq_ok.mpr ⟨_, hdata, bind_eq_ok.mpr ⟨_, hdecode, ?_⟩⟩
  refine bind_eq_ok.mpr ⟨_, hitem, bind_eq_ok.mpr ⟨_, hdecode', ?_⟩⟩
  exact bind_eq_ok.mpr ⟨_, rfl, rfl⟩

theorem writes_elem {elem : MultiModalFieldElem T} (h : elem.Sendable sizeThreshold) :
    Writes (encodeMmFieldElem sizeThreshold elem) elem.arrays (Reads decodeMmFieldElem elem) :=
  (writes_data h.data).map fun _ _ hread => reads_elem h.field hread

theorem writes_item {item : MultiModalKwargsItem T} (h : MultiModalKwargsItem.Sendable sizeThreshold item) :
    Writes (encodeMmItem sizeThreshold item) (MultiModalKwargsItem.arrays item) (Reads decodeMmItem item) :=
  writes_encodeEntries (fun entry hentry => writes_elem (h.values entry hentry)) h.length h.keys

theorem writes_itemList {itemlist : List (MultiModalKwargsItem T)} (hfits : LengthFits itemlist.length)
    (h : ∀ item ∈ itemlist, MultiModalKwargsItem.Sendable sizeThreshold item) :
    Writes (do return .array (← itemlist.mapM (encodeMmItem sizeThreshold)))
      (itemlist.map MultiModalKwargsItem.arrays).sum (Reads decodeMmItemList itemlist) := by
  apply (writes_mapM fun item hitem => writes_item (h item hitem)).map
  intro full natives hread hlength
  obtain ⟨hlen, hnatives, hdecode⟩ := reads_mapM hread hlength
  exact ⟨.array (hlen ▸ hfits) hnatives, hdecode⟩

theorem writes_items {items : MultiModalKwargsItems T} (h : MultiModalKwargsItems.Sendable sizeThreshold items) :
    Writes (encodeMmItems sizeThreshold items) (MultiModalKwargsItems.arrays items) (Reads decodeMmItems items) :=
  @writes_encodeEntries _ decodeMmItemList
    (fun itemlist => do return .array (← itemlist.mapM (encodeMmItem sizeThreshold)))
    (fun itemlist => (itemlist.map MultiModalKwargsItem.arrays).sum) items
    (fun entry hentry => writes_itemList (h.values entry hentry).1 (h.values entry hentry).2) h.length h.keys

end

end Yuan.Serial
