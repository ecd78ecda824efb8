import Mathlib.Data.List.Perm.Basic
import Mathlib.Tactic.Common
import Mathlib.Tactic.Ring

/-!
# Rows in flat buffers

A kernel finds the rows of its arguments in flat buffers: packed one behind the other and addressed through running
sums of their lengths, or in a grid with rows of one length. An access outside of a buffer has no meaning (`none`).

A launch runs one program for each row, in any order. When each program changes its own row only, the launch
changes every row by itself.
-/

namespace Yuan

variable {α : Type} {rows : List (List α)} {row l : List α} {i pos w : Nat} {a : α}

def load (buf : List α) (addr : Nat) : Option α := buf[addr]?

def store (buf : List α) (addr : Nat) (a : α) : Option (List α) :=
  if addr < buf.length then some (buf.set addr a) else none

/-- The buffers agree outside of the `w` addresses from `base` on. -/
def AgreeOutside (base w : Nat) (buf buf' : List α) : Prop := ∀ x, x < base ∨ base + w ≤ x → buf'[x]? = buf[x]?

namespace AgreeOutside

variable {base : Nat} {buf buf' buf'' : List α}

theorem refl : AgreeOutside base w buf buf := fun _ _ => rfl

theorem trans (h : AgreeOutside base w buf buf') (h' : AgreeOutside base w buf' buf'') :
    AgreeOutside base w buf buf'' :=
  fun x hx => (h' x hx).trans (h x hx)

theorem of_store (h : store buf (base + pos) a = some buf') (hpos : pos < w) : AgreeOutside base w buf buf' := by
  intro x hx
  unfold store at h
  split at h
  · cases h
    exact List.getElem?_set_ne (by omega)
  · cases h

end AgreeOutside

/-- The running sums of `counts`, from `acc` on. -/
def cumsumFrom (acc : Nat) : List Nat → List Nat
  | [] => []
  | n :: counts => (acc + n) :: cumsumFrom (acc + n) counts

/-- `cumsum`. -/
def cumsum (counts : List Nat) : List Nat := cumsumFrom 0 counts

theorem cumsumFrom_length (counts : List Nat) (acc : Nat) : (cumsumFrom acc counts).length = counts.length := by
  induction counts generalizing acc with
  | nil => rfl
  | cons n counts ih => rw [cumsumFrom, List.length_cons, ih, List.length_cons]

theorem cumsumFrom_getElem? (counts : List Nat) (acc : Nat) (hi : i < counts.length) :
    (cumsumFrom acc counts)[i]? = some (acc + (counts.take (i + 1)).sum) := by
  induction counts generalizing acc i with
  | nil => cases hi
  | cons n counts ih =>
    cases i with
    | zero => simp [cumsumFrom]
    | succ i =>
      have h := ih (acc + n) (Nat.lt_of_succ_lt_succ hi)
      rw [cumsumFrom, List.getElem?_cons_succ, h, List.take_succ_cons, List.sum_cons, Nat.add_assoc]

theorem load_cumsum {counts : List Nat} (hi : i < counts.length) :
    load (cumsum counts) i = some (counts.take (i + 1)).sum := by
  rw [load, cumsum, cumsumFrom_getElem? counts 0 hi, Nat.zero_add]

/-! ## Packed rows -/

/-- Where row `i` starts. -/
def rowStart (rows : List (List α)) (i : Nat) : Nat := ((rows.map List.length).take i).sum

theorem rowStart_succ (hrow : rows[i]? = some row) : rowStart rows (i + 1) = rowStart rows i + row.length := by
  have hlen : (rows.map List.length)[i]? = some row.length := by simp [hrow]
  rw [rowStart, rowStart, List.take_add_one, hlen, Option.toList_some, List.sum_append, List.sum_singleton]

theorem getElem?_flatten (hrow : rows[i]? = some row) (hpos : pos < row.length) :
    rows.flatten[rowStart rows i + pos]? = row[pos]? := by
  induction rows generalizing i with
  | nil => simp at hrow
  | cons first rows ih =>
    cases i with
    | zero =>
      obtain rfl : first = row := by simpa using hrow
      simp [rowStart, List.getElem?_append_left hpos]
    | succ i =>
      have h := ih (by simpa using hrow)
      have hstart : rowStart (first :: rows) (i + 1) + pos = first.length + (rowStart rows i + pos) := by
        simp [rowStart, Nat.add_assoc]
      rw [List.flatten_cons, hstart, List.getElem?_append_right (Nat.le_add_right _ _), Nat.add_sub_cancel_left, h]

theorem set_flatten (hrow : rows[i]? = some row) (hpos : pos < row.length) :
    rows.flatten.set (rowStart rows i + pos) a = (rows.set i (row.set pos a)).flatten := by
  induction rows generalizing i with
  | nil => simp at hrow
  | cons first rows ih =>
    cases i with
    | zero =>
      obtain rfl : first = row := by simpa using hrow
      simp [rowStart, List.set_append_left _ _ hpos]
    | succ i =>
      have h := ih (by simpa using hrow)
      have hstart : rowStart (first :: rows) (i + 1) + pos = first.length + (rowStart rows i + pos) := by
        simp [rowStart, Nat.add_assoc]
      rw [List.flatten_cons, hstart, List.set_append_right _ _ (Nat.le_add_right _ _), Nat.add_sub_cancel_left, h,
        List.set_cons_succ, List.flatten_cons]

/-! ## Grids -/

/-- All rows have length `w`. -/
def Grid (w : Nat) (rows : List (List α)) : Prop := ∀ row ∈ rows, row.length = w

section

variable (h : Grid w rows)
include h

theorem Grid.set (hrow : row.length = w) : Grid w (rows.set i row) := by
  intro row' hrow'
  rcases List.mem_or_eq_of_mem_set hrow' with hmem | rfl
  · exact h row' hmem
  · exact hrow

theorem Grid.rowStart (hi : i ≤ rows.length) : rowStart rows i = i * w := by
  have hlengths : rows.map List.length = List.replicate rows.length w :=
    List.eq_replicate_iff.mpr ⟨List.length_map _, fun n hn => by
      obtain ⟨row, hrow, rfl⟩ := List.mem_map.mp hn
      exact h row hrow⟩
  rw [Yuan.rowStart, hlengths, List.take_replicate, Nat.min_eq_left hi, List.sum_replicate_nat]

theorem Grid.length_flatten : rows.flatten.length = rows.length * w := by
  rw [List.length_flatten, ← h.rowStart le_rfl, Yuan.rowStart, ← List.length_map List.length, List.take_length]

theorem Grid.load (hrow : rows[i]? = some row) (hpos : pos < w) : load rows.flatten (i * w + pos) = row[pos]? := by
  obtain ⟨hi, rfl⟩ := List.getElem?_eq_some_iff.mp hrow
  rw [Yuan.load, ← h.rowStart hi.le]
  exact getElem?_flatten hrow (by rwa [h _ (List.getElem_mem hi)])

theorem Grid.store (hrow : rows[i]? = some row) (hpos : pos < w) :
    store rows.flatten (i * w + pos) a = some (rows.set i (row.set pos a)).flatten := by
  obtain ⟨hi, rfl⟩ := List.getElem?_eq_some_iff.mp hrow
  have hlt : i * w + pos < rows.flatten.length := by
    rw [h.length_flatten]
    calc i * w + pos < i * w + w := by omega
      _ = (i + 1) * w := by ring
      _ ≤ rows.length * w := Nat.mul_le_mul_right w hi
  rw [Yuan.store, if_pos hlt, ← h.rowStart hi.le]
  exact congrArg some (set_flatten hrow (by rwa [h _ (List.getElem_mem hi)]))

end

/-- The rows of a flat buffer. -/
def toRows (n w : Nat) (buf : List α) : List (List α) := (List.range n).map fun i => (buf.drop (i * w)).take w

theorem Grid.toRows (h : Grid w rows) : toRows rows.length w rows.flatten = rows := by
  induction rows with
  | nil => rfl
  | cons first rows ih =>
    have hfirst : first.length = w := h first (by simp)
    have ih := ih fun row hrow => h row (by simp [hrow])
    rw [Yuan.toRows, List.length_cons, List.range_succ_eq_map, List.map_cons, List.map_map]
    congr 1
    · simp [← hfirst]
    · conv_rhs => rw [← ih]
      apply List.map_congr_left
      intro i _
      have hdrop : (i + 1) * w = first.length + i * w := by rw [hfirst]; ring
      simp only [Function.comp, hdrop, List.flatten_cons, List.drop_length_add_append]

/-- A row depends on its own addresses only. -/
theorem toRows_getElem?_congr {n : Nat} {buf buf' : List α}
    (h : ∀ x, i * w ≤ x → x < i * w + w → buf'[x]? = buf[x]?) : (toRows n w buf')[i]? = (toRows n w buf)[i]? := by
  by_cases hi : i < n
  · simp only [toRows, List.getElem?_map, List.getElem?_range hi]
    refine congrArg some (List.ext_getElem? fun pos => ?_)
    rw [List.getElem?_take, List.getElem?_take, List.getElem?_drop, List.getElem?_drop]
    split
    · exact h _ (Nat.le_add_right _ _) (by omega)
    · rfl
  · simp [toRows, hi]

/-! ## Launches -/

/-- The programs `order` of a launch, one after the other. -/
def launch {σ ι : Type} (kernel : ι → σ → Option σ) (order : List ι) (s : σ) : Option σ :=
  order.foldlM (fun s i => kernel i s) s

/-- What every program keeps, a launch keeps. -/
theorem launch_invariant {σ ι : Type} {kernel : ι → σ → Option σ} {order : List ι} {P : σ → Prop} {s s' : σ}
    (hstep : ∀ i s s', P s → kernel i s = some s' → P s') (hs : P s) (h : launch kernel order s = some s') : P s' := by
  induction order generalizing s with
  | nil =>
    cases h
    exact hs
  | cons i order ih =>
    obtain ⟨s₁, hs₁, hrest⟩ := Option.bind_eq_some_iff.mp h
    exact ih (hstep i s s₁ hs hs₁) hrest

variable {kernel : Nat → List α → Option (List α)} {new : Nat → List α → List α} {order : List Nat} {n : Nat}

section

variable (hkernel : ∀ i rows row, rows.length = n → Grid w rows → rows[i]? = some row →
    kernel i rows.flatten = some (rows.set i (new i row)).flatten)
  (hnew : ∀ i row, row.length = w → i < n → (new i row).length = w)
include hkernel hnew

theorem launch_rows (hnodup : order.Nodup) (hbound : ∀ i ∈ order, i < n) (hn : rows.length = n) (hrows : Grid w rows) :
    launch kernel order rows.flatten =
      some (rows.mapIdx fun i row => if i ∈ order then new i row else row).flatten := by
  induction order generalizing rows with
  | nil => exact congrArg (fun rows => some (List.flatten rows)) (List.ext_getElem? fun i => by simp)
  | cons i order ih =>
    obtain ⟨hi, hnodup⟩ := List.nodup_cons.mp hnodup
    have hlt : i < n := hbound i (by simp)
    have hlt' : i < rows.length := hn ▸ hlt
    have hrow : rows[i]? = some rows[i] := List.getElem?_eq_getElem hlt'
    have hset : Grid w (rows.set i (new i rows[i])) :=
      hrows.set (hnew i _ (hrows _ (List.getElem_mem hlt')) hlt)
    have hrest := ih hnodup (fun j hj => hbound j (by simp [hj])) (by simpa using hn) hset
    rw [launch, List.foldlM_cons, hkernel i rows _ hn hrows hrow]
    refine hrest.trans (congrArg (fun rows => some (List.flatten rows)) (List.ext_getElem? fun j => ?_))
    by_cases hj : i = j
    · subst hj
      simp [hi, hlt']
    · simp [hj, Ne.symm hj]

theorem launch_all_rows (horder : order.Perm (List.range n)) (hn : rows.length = n) (hrows : Grid w rows) :
    launch kernel order rows.flatten = some (rows.mapIdx new).flatten := by
  have hmem : ∀ i, i ∈ order ↔ i < n := fun i => by rw [horder.mem_iff, List.mem_range]
  rw [launch_rows hkernel hnew (horder.nodup_iff.mpr List.nodup_range) (fun i hi => (hmem i).mp hi) hn hrows]
  refine congrArg (fun rows => some (List.flatten rows)) (List.ext_getElem? fun i => ?_)
  by_cases hi : i < n
  · simp [(hmem i).mpr hi]
  · simp [hn, hi]

end

end Yuan
