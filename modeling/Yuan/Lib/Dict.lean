import Mathlib.Data.List.Nodup
import Mathlib.Data.List.Dedup
import Mathlib.Data.List.Induction
import Mathlib.Algebra.BigOperators.Group.List.Basic

/-!
# Insertion-ordered dictionaries

A finite map whose keys keep the order in which they were first inserted: the behaviour of a
built-in dictionary in a language that iterates over it in insertion order. That no key occurs
twice is a field, so a lookup never depends on which entry is found first.

Reading is `get?`, writing is `set` (an existing key keeps its place), deleting is `erase`. Sums
over the entries come with the rule every counting argument needs: what one key contributes, next to
all the others.
-/

namespace Yuan

/-- A map from `α` to `β` that remembers the order of insertion. -/
@[ext]
structure Dict (α β : Type) where
  entries : List (α × β)
  nodup : (entries.map Prod.fst).Nodup

namespace Dict

variable {α β : Type} {d : Dict α β} {k k' : α} {v : β} {new : List (α × β)}

/-- The keys, oldest first. -/
def keys (d : Dict α β) : List α := d.entries.map Prod.fst

/-- The values, in the order of their keys. -/
def values (d : Dict α β) : List β := d.entries.map Prod.snd

/-- The dictionary without entries. -/
def empty : Dict α β := ⟨[], List.nodup_nil⟩

@[simp] theorem entries_empty : (empty : Dict α β).entries = [] := rfl
@[simp] theorem keys_empty : (empty : Dict α β).keys = [] := rfl

theorem nodup_keys (d : Dict α β) : d.keys.Nodup := d.nodup

theorem mem_keys_of_mem (h : (k, v) ∈ d.entries) : k ∈ d.keys :=
  List.mem_map_of_mem h

theorem mem_keys : k ∈ d.keys ↔ ∃ v, (k, v) ∈ d.entries := by
  constructor
  · intro h
    obtain ⟨⟨k', v⟩, hmem, rfl⟩ := List.mem_map.mp h
    exact ⟨v, hmem⟩
  · rintro ⟨v, h⟩
    exact mem_keys_of_mem h

/-- A key has one value. -/
theorem value_unique {w : β} (hv : (k, v) ∈ d.entries) (hw : (k, w) ∈ d.entries) : v = w := by
  have h := List.inj_on_of_nodup_map d.nodup hv hw rfl
  exact (Prod.mk.inj h).2

variable [DecidableEq α]

/-- The value stored under a key. -/
def get? (d : Dict α β) (k : α) : Option β := d.entries.lookup k

/-- Whether a key is present. -/
def contains (d : Dict α β) (k : α) : Bool := (d.get? k).isSome

theorem lookup_eq_some_of_mem {l : List (α × β)} (hl : (l.map Prod.fst).Nodup) (h : (k, v) ∈ l) :
    l.lookup k = some v := by
  induction l with
  | nil => simp at h
  | cons e l ih =>
    obtain ⟨k', v'⟩ := e
    rw [List.map_cons, List.nodup_cons] at hl
    rcases List.mem_cons.mp h with heq | htail
    · cases heq
      simp
    · have hne : k ≠ k' := by
        rintro rfl
        exact hl.1 (List.mem_map.mpr ⟨_, htail, rfl⟩)
      rw [List.lookup_cons, beq_false_of_ne hne]
      exact ih hl.2 htail

theorem mem_of_lookup_eq_some {l : List (α × β)} (h : l.lookup k = some v) : (k, v) ∈ l := by
  induction l with
  | nil => simp at h
  | cons e l ih =>
    obtain ⟨k', v'⟩ := e
    rw [List.lookup_cons] at h
    by_cases hk : k = k'
    · subst hk
      simp only [BEq.rfl, Option.some.injEq] at h
      subst h
      exact List.mem_cons_self
    · rw [beq_false_of_ne hk] at h
      exact List.mem_cons_of_mem _ (ih h)

theorem get?_eq_some : d.get? k = some v ↔ (k, v) ∈ d.entries :=
  ⟨mem_of_lookup_eq_some, lookup_eq_some_of_mem d.nodup⟩

theorem get?_eq_none : d.get? k = none ↔ k ∉ d.keys := by
  rw [← not_iff_not, not_not, mem_keys, ← ne_eq, Option.ne_none_iff_exists']
  exact exists_congr fun v => get?_eq_some

theorem isSome_get? : (d.get? k).isSome = true ↔ k ∈ d.keys := by
  rw [← not_iff_not, ← get?_eq_none]
  simp

theorem contains_iff : d.contains k = true ↔ k ∈ d.keys := isSome_get?

@[simp] theorem get?_empty (k : α) : (empty : Dict α β).get? k = none := rfl

/-! ## Writing -/

/-- Overwrite the value of a present key in its place. -/
def replace (l : List (α × β)) (k : α) (v : β) : List (α × β) :=
  l.map fun e => if e.1 = k then (k, v) else e

theorem map_fst_replace (l : List (α × β)) (k : α) (v : β) : (replace l k v).map Prod.fst = l.map Prod.fst := by
  rw [replace, List.map_map]
  apply List.map_congr_left
  intro e _
  by_cases he : e.1 = k
  · simp [he]
  · simp [he]

/-- Store a value; a key that is already present keeps its place. -/
def set (d : Dict α β) (k : α) (v : β) : Dict α β :=
  if h : k ∈ d.keys then
    ⟨replace d.entries k v, by rw [map_fst_replace]; exact d.nodup⟩
  else
    ⟨d.entries ++ [(k, v)], by
      rw [List.map_append, List.nodup_append]
      refine ⟨d.nodup, by simp, ?_⟩
      intro a ha b hb hab
      simp only [List.map_cons, List.map_nil, List.mem_singleton] at hb
      exact h (hb ▸ hab ▸ ha)⟩

/-- Delete a key. -/
def erase (d : Dict α β) (k : α) : Dict α β :=
  ⟨d.entries.filter (fun e => e.1 ≠ k), (List.filter_sublist.map Prod.fst).nodup d.nodup⟩

/-- Make a present key the newest one. -/
def moveToEnd (d : Dict α β) (k : α) : Dict α β :=
  match d.get? k with
  | none => d
  | some v => (d.erase k).set k v

omit [DecidableEq α] in
/-- Delete the `n` oldest keys. -/
def dropOldest (d : Dict α β) (n : Nat) : Dict α β :=
  ⟨d.entries.drop n, ((List.drop_sublist n d.entries).map Prod.fst).nodup d.nodup⟩

theorem mem_set {w : β} : (k', w) ∈ (d.set k v).entries ↔ (k' = k ∧ w = v) ∨ (k' ≠ k ∧ (k', w) ∈ d.entries) := by
  unfold set
  split
  case isTrue h =>
    simp only [replace, List.mem_map]
    constructor
    · rintro ⟨⟨a, b⟩, hab, he⟩
      by_cases hak : a = k
      · rw [if_pos hak] at he
        exact Or.inl ⟨(Prod.mk.inj he).1.symm, (Prod.mk.inj he).2.symm⟩
      · rw [if_neg hak] at he
        cases he
        exact Or.inr ⟨hak, hab⟩
    · rintro (⟨rfl, rfl⟩ | ⟨hne, hmem⟩)
      · obtain ⟨b, hb⟩ := mem_keys.mp h
        exact ⟨(k', b), hb, by simp⟩
      · exact ⟨(k', w), hmem, by simp [hne]⟩
  case isFalse h =>
    simp only [List.mem_append, List.mem_singleton, Prod.mk.injEq]
    constructor
    · rintro (hmem | ⟨rfl, rfl⟩)
      · exact Or.inr ⟨fun hk => h (hk ▸ mem_keys_of_mem hmem), hmem⟩
      · exact Or.inl ⟨rfl, rfl⟩
    · rintro (⟨rfl, rfl⟩ | ⟨-, hmem⟩)
      · exact Or.inr ⟨rfl, rfl⟩
      · exact Or.inl hmem

theorem mem_erase {w : β} : (k', w) ∈ (d.erase k).entries ↔ k' ≠ k ∧ (k', w) ∈ d.entries := by
  simp [erase, and_comm]

section

variable (d : Dict α β)

@[simp] theorem get?_set_self (k : α) (v : β) : (d.set k v).get? k = some v :=
  get?_eq_some.mpr (mem_set.mpr (Or.inl ⟨rfl, rfl⟩))

theorem get?_set_of_ne (v : β) (h : k' ≠ k) : (d.set k v).get? k' = d.get? k' := by
  apply Option.ext
  intro w
  rw [get?_eq_some, get?_eq_some, mem_set]
  simp [h]

theorem get?_set_of_not_mem {d : Dict α β} {ks : List α} (hk' : k' ∉ ks) (v : β) (hk : k ∈ ks) :
    (d.set k v).get? k' = d.get? k' := get?_set_of_ne d v fun heq => hk' (heq ▸ hk)

theorem get?_set (k k' : α) (v : β) : (d.set k v).get? k' = if k' = k then some v else d.get? k' := by
  by_cases h : k' = k
  · subst h; simp
  · rw [if_neg h, get?_set_of_ne d v h]

@[simp] theorem get?_erase_self (k : α) : (d.erase k).get? k = none := by
  rw [get?_eq_none, mem_keys]
  rintro ⟨v, hv⟩
  exact (mem_erase.mp hv).1 rfl

theorem get?_erase_of_ne (h : k' ≠ k) : (d.erase k).get? k' = d.get? k' := by
  apply Option.ext
  intro w
  rw [get?_eq_some, get?_eq_some, mem_erase]
  simp [h]

theorem get?_erase (k k' : α) : (d.erase k).get? k' = if k' = k then none else d.get? k' := by
  by_cases h : k' = k
  · subst h; simp
  · rw [if_neg h, get?_erase_of_ne d h]

end

theorem mem_keys_set : k' ∈ (d.set k v).keys ↔ k' = k ∨ k' ∈ d.keys := by
  rw [← isSome_get?, ← isSome_get?, get?_set]
  by_cases h : k' = k <;> simp [h]

theorem mem_keys_erase : k' ∈ (d.erase k).keys ↔ k' ≠ k ∧ k' ∈ d.keys := by
  rw [← isSome_get?, ← isSome_get?, get?_erase]
  by_cases h : k' = k <;> simp [h]

/-- Deleting an absent key changes nothing. -/
theorem erase_of_not_mem (h : k ∉ d.keys) : d.erase k = d := by
  apply Dict.ext
  show d.entries.filter _ = d.entries
  rw [List.filter_eq_self]
  rintro ⟨a, b⟩ hab
  simp only [decide_eq_true_eq]
  rintro rfl
  exact h (mem_keys_of_mem hab)

theorem erase_set (d : Dict α β) (k : α) (v : β) : (d.set k v).erase k = d.erase k := by
  apply Dict.ext
  unfold set
  split
  case isTrue hk =>
    show (replace d.entries k v).filter _ = d.entries.filter _
    rw [replace, List.filter_map]
    have hfun : ((fun e : α × β => decide (e.1 ≠ k)) ∘ fun e => if e.1 = k then (k, v) else e)
        = fun e : α × β => decide (e.1 ≠ k) := by
      funext e
      by_cases he : e.1 = k <;> simp [he]
    rw [hfun]
    have hid : (d.entries.filter fun e => decide (e.1 ≠ k)).map
        (fun e => if e.1 = k then (k, v) else e) =
        (d.entries.filter fun e => decide (e.1 ≠ k)).map id := by
      apply List.map_congr_left
      intro e he
      have hne : e.1 ≠ k := by simpa using (List.mem_filter.mp he).2
      simp [hne]
    rw [hid, List.map_id]
  case isFalse hk =>
    show (d.entries ++ [(k, v)]).filter _ = d.entries.filter _
    simp

@[simp] theorem erase_erase (d : Dict α β) (k : α) : (d.erase k).erase k = d.erase k := by
  apply Dict.ext
  simp [erase]

theorem entries_set_of_not_mem (h : k ∉ d.keys) (v : β) : (d.set k v).entries = d.entries ++ [(k, v)] := by
  rw [set, dif_neg h]

theorem entries_set_of_mem (h : k ∈ d.keys) (v : β) : (d.set k v).entries = replace d.entries k v := by
  rw [set, dif_pos h]

/-- Overwriting a value leaves the keys as they are. -/
theorem keys_set_of_mem (h : k ∈ d.keys) (v : β) : (d.set k v).keys = d.keys := by
  rw [keys, entries_set_of_mem h, map_fst_replace]
  rfl

theorem length_keys_set_of_not_mem (h : k ∉ d.keys) (v : β) : (d.set k v).keys.length = d.keys.length + 1 := by
  rw [keys, entries_set_of_not_mem h, List.map_append, List.length_append]
  rfl

/-- Overwriting one value changes what is read of the entries only at its key. -/
theorem map_entries_set {γ : Type} {w : β} (h : d.get? k = some v) {f g : α × β → γ} (hk : f (k, w) = g (k, v))
    (hne : ∀ e : α × β, e.1 ≠ k → f e = g e) : (d.set k w).entries.map f = d.entries.map g := by
  have hmem := get?_eq_some.mp h
  rw [entries_set_of_mem (mem_keys_of_mem hmem), replace, List.map_map]
  apply List.map_congr_left
  intro e he
  obtain ⟨k', x⟩ := e
  by_cases hkey : k' = k
  · subst hkey
    rw [value_unique he hmem]
    simp [hk]
  · simp [hkey, hne (k', x) hkey]

/-- Store a list of values, in order. -/
def insertAll (d : Dict α β) (new : List (α × β)) : Dict α β :=
  new.foldl (fun d e => d.set e.1 e.2) d

/-- New keys come behind the old ones; of several values for one key the last one stays. -/
theorem entries_insertAll (hnew : ∀ e ∈ new, e.1 ∉ d.keys) :
    ∃ added, (d.insertAll new).entries = d.entries ++ added ∧ (∀ e ∈ added, e ∈ new) ∧
      (∀ k, k ∈ added.map Prod.fst ↔ k ∈ new.map Prod.fst) ∧ ((new.map Prod.fst).Nodup → added = new) := by
  induction new using List.reverseRecOn with
  | nil => exact ⟨[], by simp [insertAll]⟩
  | append_singleton new last ih =>
    obtain ⟨added, hentries, hsub, hkeys, hsame⟩ :=
      ih fun e he => hnew e (List.mem_append_left _ he)
    have hlast := hnew last (by simp)
    have hinsert : d.insertAll (new ++ [last]) = (d.insertAll new).set last.1 last.2 := by
      simp [insertAll]
    have hmem : last.1 ∈ (d.insertAll new).keys ↔ last.1 ∈ new.map Prod.fst := by
      rw [keys, hentries, List.map_append, List.mem_append, ← hkeys]
      exact or_iff_right hlast
    by_cases hold : last.1 ∈ new.map Prod.fst
    · refine ⟨replace added last.1 last.2, ?_, ?_, ?_, ?_⟩
      · rw [hinsert, entries_set_of_mem (hmem.mpr hold), hentries, replace, List.map_append]
        congr 1
        conv_rhs => rw [← List.map_id d.entries]
        apply List.map_congr_left
        intro e he
        rw [if_neg]
        · rfl
        · intro heq
          exact hlast (heq ▸ List.mem_map_of_mem he)
      · intro e he
        obtain ⟨e', he', rfl⟩ := List.mem_map.mp he
        split
        case isTrue => exact List.mem_append_right _ (List.mem_singleton.mpr rfl)
        case isFalse => exact List.mem_append_left _ (hsub e' he')
      · intro k
        rw [map_fst_replace, hkeys, List.map_append, List.mem_append]
        constructor
        · exact Or.inl
        · rintro (h | h)
          · exact h
          · rw [List.map_singleton, List.mem_singleton] at h
            rw [h]
            exact hold
      · intro hnodup
        rw [List.map_append, List.nodup_append] at hnodup
        exact absurd rfl (hnodup.2.2 last.1 hold last.1 (by simp))
    · refine ⟨added ++ [last], ?_, ?_, ?_, ?_⟩
      · rw [hinsert, entries_set_of_not_mem (fun h => hold (hmem.mp h)), hentries,
          List.append_assoc]
      · intro e he
        rcases List.mem_append.mp he with he | he
        · exact List.mem_append_left _ (hsub e he)
        · exact List.mem_append_right _ he
      · intro k
        rw [List.map_append, List.map_append, List.mem_append, List.mem_append, hkeys]
      · intro hnodup
        rw [List.map_append] at hnodup
        rw [hsame hnodup.of_append_left]

theorem entries_insertAll_empty (hnodup : (new.map Prod.fst).Nodup) :
    ((empty : Dict α β).insertAll new).entries = new := by
  obtain ⟨added, hadded, -, -, hsame⟩ :=
    entries_insertAll (d := (empty : Dict α β)) fun e (_ : e ∈ new) => List.not_mem_nil
  rw [hadded, hsame hnodup]
  rfl

/-- A present key is one entry next to those that stay when it is deleted. -/
theorem perm_erase (h : d.get? k = some v) : d.entries.Perm ((k, v) :: (d.erase k).entries) := by
  rw [List.perm_ext_iff_of_nodup]
  · intro e
    obtain ⟨k', w⟩ := e
    rw [List.mem_cons, mem_erase]
    by_cases hk : k' = k
    · subst hk
      constructor
      · intro hmem
        exact Or.inl (by rw [value_unique hmem (get?_eq_some.mp h)])
      · rintro (heq | ⟨hne, -⟩)
        · rw [heq]
          exact get?_eq_some.mp h
        · exact absurd rfl hne
    · simp [hk]
  · exact List.Nodup.of_map Prod.fst d.nodup
  · rw [List.nodup_cons]
    exact ⟨fun hmem => (mem_erase.mp hmem).1 rfl, List.Nodup.of_map Prod.fst (d.erase k).nodup⟩

/-- After a write, the written entry stands next to those of the other keys. -/
theorem perm_set (d : Dict α β) (k : α) (v : β) : (d.set k v).entries.Perm ((k, v) :: (d.erase k).entries) := by
  rw [← erase_set d k v]
  exact perm_erase (get?_set_self d k v)

/-- A dictionary of lists, with one more element in the list of a key. -/
theorem flatten_values_append_perm {γ : Type} (d : Dict α (List γ)) (k : α) (x : γ) :
    ((d.set k ((d.get? k).getD [] ++ [x])).values.flatten).Perm (d.values.flatten ++ [x]) := by
  refine ((perm_set d k _).flatMap_right Prod.snd).trans ?_
  rw [List.flatMap_cons]
  have hold : ((d.get? k).getD [] ++ (d.erase k).entries.flatMap Prod.snd).Perm
      (d.entries.flatMap Prod.snd) := by
    cases hget : d.get? k with
    | none =>
      rw [erase_of_not_mem (get?_eq_none.mp hget)]
      exact List.Perm.refl _
    | some xs => exact ((perm_erase hget).flatMap_right Prod.snd).symm
  refine List.Perm.trans ?_ (hold.append_right [x])
  rw [List.append_assoc, List.append_assoc]
  exact List.perm_append_comm.append_left _

theorem length_keys_erase (h : d.get? k = some v) : (d.erase k).keys.length + 1 = d.keys.length := by
  have hlen := (perm_erase h).length_eq
  rw [keys, keys, List.length_map, List.length_map]
  exact hlen.symm

theorem perm_moveToEnd (d : Dict α β) (k : α) : (d.moveToEnd k).entries.Perm d.entries := by
  unfold moveToEnd
  cases h : d.get? k with
  | none => exact .refl _
  | some v =>
    have hnot : k ∉ (d.erase k).keys := fun hk => (mem_keys_erase.mp hk).1 rfl
    rw [entries_set_of_not_mem hnot]
    exact (List.perm_append_singleton _ _).trans (perm_erase h).symm

theorem mem_keys_moveToEnd : k' ∈ (d.moveToEnd k).keys ↔ k' ∈ d.keys := by
  rw [keys, keys, ((perm_moveToEnd d k).map Prod.fst).mem_iff]

theorem mem_keys_insertAll : k ∈ (d.insertAll new).keys ↔ k ∈ d.keys ∨ k ∈ new.map Prod.fst := by
  unfold insertAll
  induction new generalizing d with
  | nil => simp
  | cons e new ih =>
    rw [List.foldl_cons, ih, mem_keys_set, List.map_cons, List.mem_cons]
    tauto

/-- Delete a list of keys. -/
def eraseAll (d : Dict α β) (ks : List α) : Dict α β := ks.foldl erase d

theorem mem_keys_eraseAll {ks : List α} : k ∈ (d.eraseAll ks).keys ↔ k ∉ ks ∧ k ∈ d.keys := by
  unfold eraseAll
  induction ks generalizing d with
  | nil => simp
  | cons k' ks ih =>
    rw [List.foldl_cons, ih, mem_keys_erase, List.mem_cons]
    tauto

omit [DecidableEq α] in
theorem mem_keys_of_dropOldest {n : Nat} (h : k ∈ (d.dropOldest n).keys) : k ∈ d.keys :=
  ((List.drop_sublist n d.entries).map Prod.fst).subset h

/-! ## Sums over the entries -/

section Sum

variable {M : Type} [AddCommMonoid M]

/-- The sum of `f` over the entries. -/
def sum (d : Dict α β) (f : α → β → M) : M := (d.entries.map fun e => f e.1 e.2).sum

omit [DecidableEq α] in
@[simp] theorem sum_empty (f : α → β → M) : (empty : Dict α β).sum f = 0 := rfl

omit [DecidableEq α] in
/-- Two functions that agree on the entries have the same sum. -/
theorem sum_congr {d : Dict α β} {f g : α → β → M} (h : ∀ k v, (k, v) ∈ d.entries → f k v = g k v) :
    d.sum f = d.sum g := by
  unfold sum
  congr 1
  apply List.map_congr_left
  rintro ⟨k, v⟩ hkv
  exact h k v hkv

theorem sum_filter_ne {l : List (α × β)} (hl : (l.map Prod.fst).Nodup) {k : α} {v : β}
    (h : (k, v) ∈ l) (f : α → β → M) :
    ((l.filter fun e => e.1 ≠ k).map fun e => f e.1 e.2).sum + f k v =
      (l.map fun e => f e.1 e.2).sum := by
  induction l with
  | nil => simp at h
  | cons e l ih =>
    obtain ⟨k', v'⟩ := e
    rw [List.map_cons, List.nodup_cons] at hl
    rcases List.mem_cons.mp h with heq | htail
    · cases heq
      have hrest : l.filter (fun e => e.1 ≠ k) = l := by
        rw [List.filter_eq_self]
        rintro ⟨a, b⟩ hab
        simp only [decide_eq_true_eq]
        rintro rfl
        exact hl.1 (List.mem_map.mpr ⟨_, hab, rfl⟩)
      rw [List.filter_cons_of_neg (by simp), hrest, List.map_cons, List.sum_cons, add_comm]
    · have hne : k' ≠ k := by
        rintro rfl
        exact hl.1 (List.mem_map.mpr ⟨_, htail, rfl⟩)
      rw [List.filter_cons_of_pos (by simpa using hne), List.map_cons, List.sum_cons,
        List.map_cons, List.sum_cons, add_assoc, ih hl.2 htail]

/-- What deleting a key takes from a sum. -/
theorem sum_erase_add {d : Dict α β} {k : α} {v : β} (h : d.get? k = some v) (f : α → β → M) :
    (d.erase k).sum f + f k v = d.sum f :=
  sum_filter_ne d.nodup (get?_eq_some.mp h) f

/-- The entries next to a key, and the value of the key if it has one, make up the sum. -/
theorem sum_erase_getD (d : Dict α β) (k : α) (v : β) (f : α → β → M) (hv : f k v = 0) :
    (d.erase k).sum f + f k ((d.get? k).getD v) = d.sum f := by
  cases h : d.get? k with
  | some w => exact sum_erase_add h f
  | none =>
    rw [erase_of_not_mem (get?_eq_none.mp h), Option.getD_none, hv, add_zero]

end Sum

end Dict
end Yuan
