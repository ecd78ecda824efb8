import Yuan.Worker.BatchUpdate
import Yuan.Lib.Column
import Yuan.Lib.Dict
import Mathlib.Algebra.BigOperators.Pi
import Mathlib.Algebra.BigOperators.Ring.Finset

/-!
# Logits processors that follow the batch

A logits processor keeps something for each slot, and is told once per step what was added, removed and
moved. What it should keep afterwards is a `replay` of the three lists on a column with a blank value.
`process_dict_updates` and `MinPLogitsProcessor.update_state` are such replays, the one on a dictionary
whose missing keys are blank, the other on an array whose blank is zero, with a count of the others.
-/

namespace Yuan.Worker

/-! ## Replaying a batch update -/

section

variable {β : Type}

/-- The column after the added requests were written to it. -/
def addTo (value : AddedRequest → β) (col : Nat → β) (added : List AddedRequest) : Nat → β :=
  added.foldl (fun col a => Function.update col a.index (value a)) col

/-- The column with blanks at the removed indices. -/
def dropFrom (blank : β) (col : Nat → β) (removed : List Nat) : Nat → β :=
  fun k => if k ∈ removed then blank else col k

def moveIn (blank : β) (col : Nat → β) (m : MovedRequest) : Nat → β :=
  match m.direction with
  | .unidirectional => fun k =>
    if k = m.fromIndex then blank else if k = m.toIndex then col m.fromIndex else col k
  | .swap => fun k => col (Equiv.swap m.fromIndex m.toIndex k)

def replay (value : AddedRequest → β) (blank : β) (col : Nat → β) (u : BatchUpdate) : Nat → β :=
  u.moved.foldl (moveIn blank) (dropFrom blank (addTo value col u.added) u.removed)

theorem moveIn_blank (blank : β) (m : MovedRequest) :
    moveIn blank (fun _ => blank) m = fun _ => blank := by
  unfold moveIn
  split
  · funext k
    split
    · rfl
    · split <;> rfl
  · rfl

/-- Nothing happens to a blank column. -/
theorem foldl_moveIn_blank (blank : β) (moved : List MovedRequest) :
    moved.foldl (moveIn blank) (fun _ => blank) = fun _ => blank := by
  induction moved with
  | nil => rfl
  | cons m moved ih =>
    rw [List.foldl_cons, moveIn_blank]
    exact ih

theorem dropFrom_blank (blank : β) (removed : List Nat) :
    dropFrom blank (fun _ => blank) removed = fun _ => blank := by
  funext k
  unfold dropFrom
  split <;> rfl

/-- Dropping commutes with moves between other indices. -/
theorem foldl_moveIn_dropFrom (blank : β) {removed : List Nat} {moved : List MovedRequest}
    (h : ∀ m ∈ moved, m.fromIndex ∉ removed ∧ m.toIndex ∉ removed) (col : Nat → β) :
    moved.foldl (moveIn blank) (dropFrom blank col removed) =
      dropFrom blank (moved.foldl (moveIn blank) col) removed := by
  induction moved generalizing col with
  | nil => rfl
  | cons m moved ih =>
    obtain ⟨hfrom, hto⟩ := h m List.mem_cons_self
    have hstep : moveIn blank (dropFrom blank col removed) m =
        dropFrom blank (moveIn blank col m) removed := by
      funext k
      unfold moveIn dropFrom
      cases m.direction with
      | unidirectional =>
        dsimp only
        split
        · next heq => rw [if_neg (heq ▸ hfrom)]
        · split
          · next heq =>
              rw [heq, if_neg hto]
          · rfl
      | swap =>
        have hmem : Equiv.swap m.fromIndex m.toIndex k ∈ removed ↔ k ∈ removed := by
          rcases eq_or_ne k m.fromIndex with rfl | hk
          · rw [Equiv.swap_apply_left]
            exact iff_of_false hto hfrom
          · rcases eq_or_ne k m.toIndex with rfl | hk'
            · rw [Equiv.swap_apply_right]
              exact iff_of_false hfrom hto
            · rw [Equiv.swap_apply_of_ne_of_ne hk hk']
        simp only [hmem]
    rw [List.foldl_cons, List.foldl_cons, hstep]
    exact ih (fun m hm => h m (List.mem_cons_of_mem _ hm)) _

end

/-! ## Dictionaries -/

section

variable {T : Type}

/-- The loop over the added requests; the flag says whether a key was written or deleted. -/
def addEntries (newState : AddedRequest → Option T) :
    Dict Nat T → Bool → List AddedRequest → Dict Nat T × Bool
  | entries, updated, [] => (entries, updated)
  | entries, updated, a :: added =>
    match newState a with
    | some state => addEntries newState (entries.set a.index state) true added
    | none =>
      addEntries newState (entries.erase a.index) (updated || (entries.get? a.index).isSome) added

/-- The loop over the removed indices. A deleted value counts only if it is a true one. -/
def removeEntries (truthy : T → Bool) : Dict Nat T → Bool → List Nat → Dict Nat T × Bool
  | entries, updated, [] => (entries, updated)
  | entries, updated, index :: removed =>
    removeEntries truthy (entries.erase index) (updated || (entries.get? index).any truthy) removed

/-- Store a value if there is one. -/
def putEntry (entries : Dict Nat T) (index : Nat) : Option T → Dict Nat T
  | none => entries
  | some v => entries.set index v

/-- One turn of the loop over the moved indices. -/
def moveEntries (entries : Dict Nat T) (m : MovedRequest) : Dict Nat T × Bool :=
  let aEntry := entries.get? m.fromIndex
  let bEntry := (entries.erase m.fromIndex).get? m.toIndex
  let popped := (entries.erase m.fromIndex).erase m.toIndex
  let moved := putEntry popped m.toIndex aEntry
  (if m.direction = .swap then putEntry moved m.fromIndex bEntry else moved,
    aEntry.isSome || bEntry.isSome)

/-- `process_dict_updates`. -/
def processDictUpdates (truthy : T → Bool) (newState : AddedRequest → Option T)
    (reqEntries : Dict Nat T) : Option BatchUpdate → Dict Nat T × Bool
  | none => (reqEntries, false)
  | some u =>
    let added := addEntries newState reqEntries false u.added
    if added.1.entries = [] then added
    else
      u.moved.foldl (fun s m => ((moveEntries s.1 m).1, s.2 || (moveEntries s.1 m).2))
        (removeEntries truthy added.1 added.2 u.removed)

theorem get?_addEntries (newState : AddedRequest → Option T) (entries : Dict Nat T) (updated : Bool)
    (added : List AddedRequest) :
    (addEntries newState entries updated added).1.get? = addTo newState entries.get? added := by
  induction added generalizing entries updated with
  | nil => rfl
  | cons a added ih =>
    unfold addEntries addTo
    rw [List.foldl_cons]
    cases newState a with
    | some state =>
      have hcol : Function.update entries.get? a.index (some state) =
          (entries.set a.index state).get? := by
        funext k
        rw [Dict.get?_set, Function.update_apply]
      rw [hcol]
      exact ih _ _
    | none =>
      have hcol : Function.update entries.get? a.index none = (entries.erase a.index).get? := by
        funext k
        rw [Dict.get?_erase, Function.update_apply]
      rw [hcol]
      exact ih _ _

theorem get?_removeEntries (truthy : T → Bool) (entries : Dict Nat T) (updated : Bool) (removed : List Nat) :
    (removeEntries truthy entries updated removed).1.get? = dropFrom none entries.get? removed := by
  induction removed generalizing entries updated with
  | nil =>
    funext k
    simp [removeEntries, dropFrom]
  | cons index removed ih =>
    unfold removeEntries
    rw [ih]
    funext k
    unfold dropFrom
    rw [Dict.get?_erase]
    by_cases hk : k = index
    · simp [hk]
    · simp [hk]

theorem get?_putEntry {entries : Dict Nat T} {index : Nat} (h : entries.get? index = none)
    (v : Option T) (k : Nat) :
    (putEntry entries index v).get? k = if k = index then v else entries.get? k := by
  cases v with
  | none =>
    show entries.get? k = _
    split
    · next heq => rw [heq, h]
    · rfl
  | some v => exact Dict.get?_set entries index k v

theorem get?_moveEntries (entries : Dict Nat T) (m : MovedRequest)
    (hne : m.direction = .unidirectional → m.fromIndex ≠ m.toIndex) :
    (moveEntries entries m).1.get? = moveIn none entries.get? m := by
  have hpopped : ((entries.erase m.fromIndex).erase m.toIndex).get? m.toIndex = none :=
    Dict.get?_erase_self _ _
  have hmoved : ∀ k, (putEntry ((entries.erase m.fromIndex).erase m.toIndex) m.toIndex
      (entries.get? m.fromIndex)).get? k = if k = m.toIndex then entries.get? m.fromIndex
        else if k = m.fromIndex then none else entries.get? k := by
    intro k
    rw [get?_putEntry hpopped, Dict.get?_erase, Dict.get?_erase]
    grind
  funext k
  unfold moveEntries moveIn
  cases hdir : m.direction with
  | unidirectional =>
    grind
  | swap =>
    show (putEntry (putEntry _ m.toIndex _) m.fromIndex _).get? k = entries.get? _
    rw [Dict.get?_erase]
    by_cases hsame : m.fromIndex = m.toIndex
    · -- a request is exchanged with itself
      rw [if_pos hsame.symm]
      show (putEntry _ m.toIndex _).get? k = _
      grind
    · rw [if_neg (Ne.symm hsame), get?_putEntry (by rw [hmoved, if_neg hsame, if_pos rfl]), hmoved]
      rcases eq_or_ne k m.fromIndex with rfl | hk
      · rw [if_pos rfl, Equiv.swap_apply_left]
      · rw [if_neg hk]
        rcases eq_or_ne k m.toIndex with rfl | hk'
        · rw [if_pos rfl, Equiv.swap_apply_right]
        · rw [if_neg hk', if_neg hk, Equiv.swap_apply_of_ne_of_ne hk hk']

theorem get?_foldl_moveEntries (s : Dict Nat T × Bool) {moved : List MovedRequest}
    (hne : ∀ m ∈ moved, m.direction = .unidirectional → m.fromIndex ≠ m.toIndex) :
    (moved.foldl (fun s m => ((moveEntries s.1 m).1, s.2 || (moveEntries s.1 m).2)) s).1.get? =
      moved.foldl (moveIn none) s.1.get? := by
  induction moved generalizing s with
  | nil => rfl
  | cons m moved ih =>
    rw [List.foldl_cons, List.foldl_cons, ← get?_moveEntries s.1 m (hne m List.mem_cons_self)]
    exact ih _ fun m hm => hne m (List.mem_cons_of_mem _ hm)

/-- `process_dict_updates` replays the batch update. -/
theorem get?_processDictUpdates (truthy : T → Bool) (newState : AddedRequest → Option T)
    (entries : Dict Nat T) {u : BatchUpdate}
    (hne : ∀ m ∈ u.moved, m.direction = .unidirectional → m.fromIndex ≠ m.toIndex) :
    (processDictUpdates truthy newState entries (some u)).1.get? = replay newState none entries.get? u := by
  have hadded := get?_addEntries newState entries false u.added
  unfold replay
  rw [← hadded]
  by_cases hnil : (addEntries newState entries false u.added).1.entries = []
  · have hblank : (addEntries newState entries false u.added).1.get? = fun _ => none := by
      funext k
      rw [Dict.get?, hnil]
      rfl
    have hskip : processDictUpdates truthy newState entries (some u) =
        addEntries newState entries false u.added := if_pos hnil
    rw [hskip, hblank, dropFrom_blank, foldl_moveIn_blank]
  · have hrun : processDictUpdates truthy newState entries (some u) = _ := if_neg hnil
    rw [hrun, get?_foldl_moveEntries _ hne, get?_removeEntries]

end

/-! ## Counting the values that are not zero -/

/-- The number of the first `n` values that are not zero. -/
def nonzero (n : Nat) (col : Nat → Rat) : Int := ((Finset.range n).filter fun k => col k ≠ 0).card

/-- What one value adds to the count. -/
def weight (v : Rat) : Int := if v ≠ 0 then 1 else 0

theorem nonzero_eq_sum (n : Nat) (col : Nat → Rat) : nonzero n col = ∑ k ∈ Finset.range n, weight (col k) := by
  rw [nonzero, Finset.card_filter]
  push_cast
  rfl

theorem nonzero_update {n i : Nat} (hi : i < n) (col : Nat → Rat) (v : Rat) :
    nonzero n (Function.update col i v) = nonzero n col - weight (col i) + weight v := by
  have hmem : i ∈ Finset.range n := Finset.mem_range.mpr hi
  rw [nonzero_eq_sum, nonzero_eq_sum, ← Finset.add_sum_erase _ _ hmem,
    ← Finset.add_sum_erase _ (fun k => weight (col k)) hmem, Function.update_self]
  have hrest : ∑ k ∈ (Finset.range n).erase i, weight (Function.update col i v k) =
      ∑ k ∈ (Finset.range n).erase i, weight (col k) := by
    apply Finset.sum_congr rfl
    intro k hk
    rw [Function.update_of_ne (Finset.ne_of_mem_erase hk)]
  rw [hrest]
  ring

theorem eq_zero_of_nonzero {n : Nat} {col : Nat → Rat} (h : nonzero n col = 0) {k : Nat} (hk : k < n) : col k = 0 := by
  have hempty := Finset.card_eq_zero.mp (Int.ofNat_eq_zero.mp h)
  by_contra hne
  have hmem : k ∈ (Finset.range n).filter fun k => col k ≠ 0 :=
    Finset.mem_filter.mpr ⟨Finset.mem_range.mpr hk, hne⟩
  rw [hempty] at hmem
  exact absurd hmem (Finset.notMem_empty k)

/-! ## Min-p -/

/-- The host side of `MinPLogitsProcessor`. -/
structure MinPLogitsProcessor where
  minPCpu : Nat → Rat := fun _ => 0
  minPCount : Int := 0

namespace MinPLogitsProcessor

/-- The turn of the first loop for one added request. The array holds single precision numbers, and
the comparison is made in that precision too: `float32` is the rounding to it. -/
def addOne (float32 : Rat → Rat) (p : MinPLogitsProcessor) (a : AddedRequest) : MinPLogitsProcessor :=
  let minP := a.params.minP
  let minPBefore := p.minPCpu a.index
  if minPBefore ≠ float32 minP then
    { minPCpu := Function.update p.minPCpu a.index (float32 minP)
      minPCount :=
        if minP ≠ 0 ∧ minPBefore = 0 then p.minPCount + 1
        else if minP = 0 ∧ minPBefore ≠ 0 then p.minPCount - 1
        else p.minPCount }
  else p

def removeOne (p : MinPLogitsProcessor) (index : Nat) : MinPLogitsProcessor :=
  if p.minPCpu index ≠ 0 then
    { minPCpu := Function.update p.minPCpu index 0, minPCount := p.minPCount - 1 }
  else p

/-- The array after the assignments made where the two values differ. -/
def movedArray (col : Nat → Rat) (m : MovedRequest) : Nat → Rat :=
  let minPA := col m.fromIndex
  let minPB := col m.toIndex
  if minPA ≠ minPB then
    let col := Function.update col m.toIndex minPA
    if m.direction = .swap then Function.update col m.fromIndex minPB else col
  else col

def moveOne (p : MinPLogitsProcessor) (m : MovedRequest) : MinPLogitsProcessor :=
  let minPA := p.minPCpu m.fromIndex
  let minPB := p.minPCpu m.toIndex
  let col := movedArray p.minPCpu m
  if m.direction = .unidirectional then
    { minPCpu := if minPA ≠ 0 then Function.update col m.fromIndex 0 else col
      minPCount := if minPB ≠ 0 then p.minPCount - 1 else p.minPCount }
  else { p with minPCpu := col }

/-- `update_state`, without the copy to the device. -/
def updateState (float32 : Rat → Rat) (p : MinPLogitsProcessor) :
    Option BatchUpdate → MinPLogitsProcessor
  | none => p
  | some u =>
    let added := u.added.foldl (addOne float32) p
    if added.minPCount ≠ 0 then u.moved.foldl moveOne (u.removed.foldl removeOne added)
    else added

/-- The count is right, and behind the array there is nothing. -/
structure Counted (n : Nat) (p : MinPLogitsProcessor) : Prop where
  count : p.minPCount = nonzero n p.minPCpu
  within : ∀ k, n ≤ k → p.minPCpu k = 0

/-- The value an added request leaves in the array. -/
def storedMinP (float32 : Rat → Rat) (a : AddedRequest) : Rat := float32 a.params.minP

section

variable {n : Nat} {p : MinPLogitsProcessor} {float32 : Rat → Rat} {m : MovedRequest}

theorem addOne_spec {a : AddedRequest} (hzero : float32 a.params.minP = 0 ↔ a.params.minP = 0) (hlt : a.index < n)
    (h : Counted n p) : Counted n (p.addOne float32 a) ∧ (p.addOne float32 a).minPCpu =
        Function.update p.minPCpu a.index (storedMinP float32 a) := by
  unfold addOne storedMinP
  dsimp only
  split
  · next hne =>
      refine ⟨⟨?_, ?_⟩, rfl⟩
      · rw [nonzero_update hlt, h.count]
        unfold weight
        grind
      · intro k hk
        dsimp only
        rw [Function.update_of_ne (by omega)]
        exact h.within k hk
  · next heq =>
      refine ⟨h, ?_⟩
      rw [← not_ne_iff.mp heq, Function.update_eq_self]

theorem removeOne_spec {index : Nat} (hlt : index < n) (h : Counted n p) :
    Counted n (p.removeOne index) ∧ (p.removeOne index).minPCpu = Function.update p.minPCpu index 0 := by
  unfold removeOne
  split
  · next hne =>
      refine ⟨⟨?_, ?_⟩, rfl⟩
      · rw [nonzero_update hlt, h.count]
        simp [weight, hne]
      · intro k hk
        dsimp only
        rw [Function.update_of_ne (by omega)]
        exact h.within k hk
  · next heq =>
      refine ⟨h, ?_⟩
      rw [← not_ne_iff.mp heq, Function.update_eq_self]

/-- A move one way, as two assignments. -/
theorem moveIn_unidirectional (hdir : m.direction = .unidirectional) (col : Nat → Rat) : moveIn 0 col m =
      Function.update (Function.update col m.toIndex (col m.fromIndex)) m.fromIndex 0 := by
  funext k
  simp only [moveIn, hdir, Function.update_apply]

theorem moveIn_swap (hdir : m.direction = .swap) (col : Nat → Rat) :
    moveIn 0 col m = Column.swap col m.fromIndex m.toIndex := by
  funext k
  simp only [moveIn, hdir, Column.swap_apply]

theorem minPCpu_moveOne (p : MinPLogitsProcessor) (hne : m.direction = .unidirectional → m.fromIndex ≠ m.toIndex) :
    (p.moveOne m).minPCpu = moveIn 0 p.minPCpu m := by
  cases hdir : m.direction with
  | unidirectional =>
    rw [moveIn_unidirectional hdir]
    funext k
    simp only [moveOne, movedArray, hdir, if_true]
    grind
  | swap =>
    rw [moveIn_swap hdir]
    funext k
    simp only [moveOne, movedArray, hdir, Column.swap]
    grind

theorem nonzero_moveIn (hfrom : m.fromIndex < n) (hto : m.toIndex < n)
    (hne : m.direction = .unidirectional → m.fromIndex ≠ m.toIndex) (col : Nat → Rat) :
    nonzero n (moveIn 0 col m) = if m.direction = .unidirectional then
      nonzero n col - weight (col m.toIndex) else nonzero n col := by
  cases hdir : m.direction with
  | unidirectional =>
    have hne' := hne hdir
    rw [moveIn_unidirectional hdir, nonzero_update hfrom, nonzero_update hto,
      Function.update_of_ne hne']
    simp [weight]
  | swap =>
    have hlast : Function.update col m.fromIndex (col m.toIndex) m.toIndex = col m.toIndex := by
      rw [Function.update_apply]
      split
      · rfl
      · rfl
    rw [moveIn_swap hdir, Column.swap, nonzero_update hto, nonzero_update hfrom, hlast,
      if_neg (by decide)]
    ring

theorem moveOne_spec (hfrom : m.fromIndex < n) (hto : m.toIndex < n)
    (hne : m.direction = .unidirectional → m.fromIndex ≠ m.toIndex) (h : Counted n p) :
    Counted n (p.moveOne m) ∧ (p.moveOne m).minPCpu = moveIn 0 p.minPCpu m := by
  have hcpu := minPCpu_moveOne p hne
  refine ⟨⟨?_, ?_⟩, hcpu⟩
  · rw [hcpu, nonzero_moveIn hfrom hto hne, ← h.count]
    unfold moveOne weight
    grind
  · intro k hk
    rw [hcpu]
    have hk' := h.within k hk
    cases hdir : m.direction with
    | unidirectional =>
      rw [moveIn_unidirectional hdir, Function.update_of_ne (by omega),
        Function.update_of_ne (by omega), hk']
    | swap =>
      rw [moveIn_swap hdir, Column.swap_apply, Equiv.swap_apply_of_ne_of_ne (by omega) (by omega),
        hk']

theorem foldl_addOne_spec {added : List AddedRequest}
    (hzero : ∀ a ∈ added, float32 a.params.minP = 0 ↔ a.params.minP = 0) (hlt : ∀ a ∈ added, a.index < n)
    (h : Counted n p) :
    Counted n (added.foldl (addOne float32) p) ∧ (added.foldl (addOne float32) p).minPCpu =
        addTo (storedMinP float32) p.minPCpu added := by
  induction added generalizing p with
  | nil => exact ⟨h, rfl⟩
  | cons a added ih =>
    obtain ⟨hcounted, hcpu⟩ := addOne_spec (hzero a List.mem_cons_self) (hlt a List.mem_cons_self) h
    obtain ⟨hcounted', hcpu'⟩ := ih (fun b hb => hzero b (List.mem_cons_of_mem _ hb))
      (fun b hb => hlt b (List.mem_cons_of_mem _ hb)) hcounted
    refine ⟨hcounted', ?_⟩
    rw [List.foldl_cons, hcpu', hcpu]
    rfl

theorem foldl_removeOne_spec {removed : List Nat} (hlt : ∀ r ∈ removed, r < n) (h : Counted n p) :
    Counted n (removed.foldl removeOne p) ∧ (removed.foldl removeOne p).minPCpu = dropFrom 0 p.minPCpu removed := by
  induction removed generalizing p with
  | nil =>
    refine ⟨h, ?_⟩
    funext k
    simp [dropFrom]
  | cons index removed ih =>
    obtain ⟨hcounted, hcpu⟩ := removeOne_spec (hlt index List.mem_cons_self) h
    obtain ⟨hcounted', hcpu'⟩ := ih (fun r hr => hlt r (List.mem_cons_of_mem _ hr)) hcounted
    refine ⟨hcounted', ?_⟩
    rw [List.foldl_cons, hcpu', hcpu]
    funext k
    unfold dropFrom
    by_cases hk : k = index
    · simp [hk]
    · simp [hk]

theorem foldl_moveOne_spec {moved : List MovedRequest} (hlt : ∀ m ∈ moved, m.fromIndex < n ∧ m.toIndex < n)
    (hne : ∀ m ∈ moved, m.direction = .unidirectional → m.fromIndex ≠ m.toIndex) (h : Counted n p) :
    Counted n (moved.foldl moveOne p) ∧ (moved.foldl moveOne p).minPCpu = moved.foldl (moveIn 0) p.minPCpu := by
  induction moved generalizing p with
  | nil => exact ⟨h, rfl⟩
  | cons m moved ih =>
    obtain ⟨hfrom, hto⟩ := hlt m List.mem_cons_self
    obtain ⟨hcounted, hcpu⟩ := moveOne_spec hfrom hto (hne m List.mem_cons_self) h
    obtain ⟨hcounted', hcpu'⟩ := ih (fun m hm => hlt m (List.mem_cons_of_mem _ hm))
      (fun m hm => hne m (List.mem_cons_of_mem _ hm)) hcounted
    refine ⟨hcounted', ?_⟩
    rw [List.foldl_cons, List.foldl_cons, hcpu', hcpu]

/-- `update_state` replays the batch update and keeps the count right. -/
theorem updateState_spec {u : BatchUpdate} (hzero : ∀ a ∈ u.added, float32 a.params.minP = 0 ↔ a.params.minP = 0)
    (hadded : ∀ a ∈ u.added, a.index < n) (hremoved : ∀ r ∈ u.removed, r < n)
    (hmoved : ∀ m ∈ u.moved, m.fromIndex < n ∧ m.toIndex < n)
    (hne : ∀ m ∈ u.moved, m.direction = .unidirectional → m.fromIndex ≠ m.toIndex) (h : Counted n p) :
    Counted n (p.updateState float32 (some u)) ∧
      (p.updateState float32 (some u)).minPCpu = replay (storedMinP float32) 0 p.minPCpu u := by
  obtain ⟨hcounted, hcpu⟩ := foldl_addOne_spec hzero hadded h
  unfold replay
  rw [← hcpu]
  by_cases hcount : (u.added.foldl (addOne float32) p).minPCount = 0
  · have hskip : p.updateState float32 (some u) = u.added.foldl (addOne float32) p :=
      if_neg (not_not_intro hcount)
    have hblank : (u.added.foldl (addOne float32) p).minPCpu = fun _ => 0 := by
      funext k
      rcases Nat.lt_or_ge k n with hlt | hge
      · exact eq_zero_of_nonzero (hcounted.count.symm.trans hcount) hlt
      · exact hcounted.within k hge
    rw [hskip]
    refine ⟨hcounted, ?_⟩
    rw [hblank, dropFrom_blank, foldl_moveIn_blank]
  · have hrun : p.updateState float32 (some u) = u.moved.foldl moveOne
        (u.removed.foldl removeOne (u.added.foldl (addOne float32) p)) := if_pos hcount
    obtain ⟨hcounted', hcpu'⟩ := foldl_removeOne_spec hremoved hcounted
    rw [hrun, ← hcpu']
    exact foldl_moveOne_spec hmoved hne hcounted'

end

end MinPLogitsProcessor

end Yuan.Worker
