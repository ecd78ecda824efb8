import Yuan.Serial.MsgpackDecoder

/-!
# The buffers beside a message

Encoders only ever append to the buffers, so an index that one of them hands out stays right. `Writes`
says what an encoder leaves: how many buffers it adds at most, and what holds of its result for
whoever has all the buffers in the end.
-/

namespace Yuan.Serial

open Yuan.Msgpack

/-- Buffers that start like `aux`, but for the packed message in front. -/
def Resolves (full aux : List Bytes) : Prop :=
  aux.length ≤ full.length ∧ ∀ i, 0 < i → i < aux.length → full[i]? = aux[i]?

theorem Resolves.mono {full aux aux' : List Bytes} (h : Resolves full aux') (hstart : aux <+: aux') :
    Resolves full aux := by
  obtain ⟨tail, rfl⟩ := hstart
  obtain ⟨hle, hget⟩ := h
  rw [List.length_append] at hle hget
  refine ⟨by omega, ?_⟩
  intro i hpos hi
  rw [hget i hpos (by omega), List.getElem?_append_left hi]

theorem resolves_set (packed : Bytes) (aux : List Bytes) : Resolves (aux.set 0 packed) aux := by
  refine ⟨by rw [List.length_set], ?_⟩
  intro i hpos _
  exact List.getElem?_set_ne (by omega)

variable {α β V : Type}

/-- The encoder succeeds and appends at most `count` buffers; `P` holds of its result and of whatever
buffers it is read with. -/
def Writes (x : Encoder α) (count : Nat) (P : List Bytes → α → Prop) : Prop :=
  ∀ aux, aux ≠ [] → ∃ a aux', x aux = .ok (a, aux') ∧ aux <+: aux' ∧ aux'.length ≤ aux.length + count ∧
    ∀ full, Resolves full aux' → P full a

section

variable {x : Encoder α} {f : α → Encoder β} {count count' : Nat} {P : List Bytes → α → Prop}

theorem Writes.mono {Q : List Bytes → α → Prop} (h : Writes x count P) (hcount : count ≤ count')
    (hmono : ∀ full a, P full a → Q full a) : Writes x count' Q := by
  intro aux haux
  obtain ⟨a, aux', hrun, hstart, hlength, hP⟩ := h aux haux
  exact ⟨a, aux', hrun, hstart, by omega, fun full hfull => hmono full a (hP full hfull)⟩

theorem writes_pure {a : α} (h : ∀ full, P full a) : Writes (pure a) 0 P := by
  intro aux _
  exact ⟨a, aux, rfl, List.prefix_refl aux, by omega, fun full _ => h full⟩

theorem Writes.bind {Q : α → List Bytes → β → Prop} (h : Writes x count P) (hf : ∀ a, Writes (f a) count' (Q a)) :
    Writes (x >>= f) (count + count') fun full b => ∃ a, P full a ∧ Q a full b := by
  intro aux haux
  obtain ⟨a, aux', hrun, hstart, hlength, hP⟩ := h aux haux
  have haux' : aux' ≠ [] := fun hnil => haux (List.prefix_nil.mp (hnil ▸ hstart))
  obtain ⟨b, aux'', hrun', hstart', hlength', hQ⟩ := hf a aux' haux'
  refine ⟨b, aux'', ?_, hstart.trans hstart', by omega, ?_⟩
  · show (x aux >>= fun r => f r.1 r.2) = _
    rw [hrun]
    exact hrun'
  · intro full hfull
    exact ⟨a, hP full (hfull.mono hstart'), hQ full hfull⟩

/-- An encoder whose result is put into something. -/
theorem Writes.map {g : α → β} {Q : List Bytes → β → Prop} (h : Writes x count P)
    (hmono : ∀ full a, P full a → Q full (g a)) : Writes (x >>= fun a => pure (g a)) count Q := by
  have hbind := h.bind (f := fun a => pure (g a)) (Q := fun a _ b => b = g a) fun a =>
    writes_pure fun _ => rfl
  apply hbind.mono le_rfl
  rintro full b ⟨a, hP, rfl⟩
  exact hmono full a hP

end

/-- Encoders one behind the other. -/
theorem writes_mapM {f : V → Encoder β} {count : V → Nat} {P : V → List Bytes → β → Prop} {l : List V}
    (h : ∀ v ∈ l, Writes (f v) (count v) (P v)) :
    Writes (l.mapM f) (l.map count).sum fun full results =>
      List.Forall₂ (fun v result => P v full result) l results := by
  induction l with
  | nil => exact writes_pure fun _ => .nil
  | cons v l ih =>
    rw [List.mapM_cons, List.map_cons]
    have htail := ih fun v hv => h v (List.mem_cons_of_mem _ hv)
    have hcons := (h v List.mem_cons_self).bind fun result => htail.map
      (g := fun results => result :: results)
      (Q := fun full results => ∃ tail, results = result :: tail ∧
        List.Forall₂ (fun v result => P v full result) l tail)
      fun full tail htail => ⟨tail, rfl, htail⟩
    apply hcons.mono le_rfl
    rintro full _ ⟨result, hP, tail, rfl, htail⟩
    exact .cons hP htail


end Yuan.Serial
