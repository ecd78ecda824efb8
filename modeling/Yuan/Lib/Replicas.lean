import Mathlib.Data.Finset.Card
import Mathlib.Data.Finset.Range
import Mathlib.Data.Set.Function
import Mathlib.Order.Interval.Finset.Nat
import Mathlib.Tactic.Common

/-!
# Replicas in slots

Each slot holds a replica of an object. A placement is right if every replica of every object lies in exactly one
slot. Slots may be permuted, objects renamed, and placements put side by side.

An assignment by an array of indices writes one entry after the other.
-/

namespace Yuan

variable {n : Nat} {f : Nat → Nat}

/-! ## Permutations of an initial segment -/

/-- `f` permutes the numbers below `n`. -/
structure Permutes (n : Nat) (f : Nat → Nat) : Prop where
  lt : ∀ i, i < n → f i < n
  inj : ∀ i j, i < n → j < n → f i = f j → i = j

theorem Permutes.surj (h : Permutes n f) {j : Nat} (hj : j < n) : ∃ i, i < n ∧ f i = j := by
  have hmaps : Set.MapsTo f (Finset.range n) (Finset.range n) := fun i hi => by
    rw [Finset.mem_coe, Finset.mem_range] at hi ⊢
    exact h.lt i hi
  have hinj : Set.InjOn f (Finset.range n) := fun i hi j hj heq => by
    rw [Finset.mem_coe, Finset.mem_range] at hi hj
    exact h.inj i j hi hj heq
  obtain ⟨i, hi, heq⟩ := Finset.surjOn_of_injOn_of_card_le f hmaps hinj (Nat.le_refl _)
    (Finset.mem_coe.mpr (Finset.mem_range.mpr hj))
  exact ⟨i, Finset.mem_range.mp (Finset.mem_coe.mp hi), heq⟩

theorem Permutes.congr {g : Nat → Nat} (hf : Permutes n f) (h : ∀ i, i < n → g i = f i) : Permutes n g := by
  refine ⟨fun i hi => ?_, fun i j hi hj heq => ?_⟩
  · rw [h i hi]
    exact hf.lt i hi
  · rw [h i hi, h j hj] at heq
    exact hf.inj i j hi hj heq

/-- A left inverse on the numbers below `n` is one on both sides, and a permutation. -/
theorem Permutes.of_leftInverse {g : Nat → Nat} (hf : Permutes n f) (h : ∀ i, i < n → g (f i) = i) :
    Permutes n g ∧ ∀ j, j < n → f (g j) = j := by
  have hright : ∀ j, j < n → f (g j) = j := by
    intro j hj
    obtain ⟨i, hi, rfl⟩ := hf.surj hj
    rw [h i hi]
  refine ⟨⟨fun j hj => ?_, fun i j hi hj heq => ?_⟩, hright⟩
  · obtain ⟨i, hi, rfl⟩ := hf.surj hj
    rw [h i hi]
    exact hi
  · rw [← hright i hi, ← hright j hj, heq]

/-- A permutation within each of the blocks of `m`. -/
theorem Permutes.blocks {m : Nat} {f : Nat → Nat → Nat} (h : ∀ b, b < n → Permutes m (f b)) :
    Permutes (n * m) fun i => i / m * m + f (i / m) (i % m) := by
  have hblock : ∀ i, i < n * m → 0 < m ∧ i / m < n ∧ f (i / m) (i % m) < m := by
    intro i hi
    have hm : 0 < m := Nat.pos_of_ne_zero fun hzero => by
      rw [hzero] at hi
      exact Nat.not_lt_zero _ hi
    have hb : i / m < n := Nat.div_lt_of_lt_mul (Nat.mul_comm n m ▸ hi)
    exact ⟨hm, hb, (h _ hb).lt _ (Nat.mod_lt _ hm)⟩
  refine ⟨fun i hi => ?_, fun i j hi hj heq => ?_⟩
  · obtain ⟨hm, hb, hlt⟩ := hblock i hi
    calc
      i / m * m + f (i / m) (i % m) < i / m * m + m := Nat.add_lt_add_left hlt _
      _ = (i / m + 1) * m := (Nat.succ_mul _ _).symm
      _ ≤ n * m := Nat.mul_le_mul_right m hb
  · obtain ⟨hm, hbi, hlti⟩ := hblock i hi
    obtain ⟨-, hbj, hltj⟩ := hblock j hj
    have hdiv : i / m = j / m := by
      have heq' := congrArg (· / m) heq
      rw [Nat.mul_comm _ m, Nat.mul_comm (j / m) m, Nat.mul_add_div hm, Nat.mul_add_div hm, Nat.div_eq_of_lt hlti,
        Nat.div_eq_of_lt hltj] at heq'
      exact heq'
    rw [hdiv] at heq
    have hmod := (h _ hbj).inj _ _ (Nat.mod_lt _ hm) (Nat.mod_lt _ hm) (Nat.add_left_cancel heq)
    rw [← Nat.div_add_mod i m, ← Nat.div_add_mod j m, hdiv, hmod]

/-- Blocks of `m` are permuted, each as a whole. -/
theorem Permutes.expand {m : Nat} (h : Permutes n f) : Permutes (n * m) fun i => f (i / m) * m + i % m := by
  have hblock : ∀ i, i < n * m → 0 < m ∧ i / m < n := by
    intro i hi
    refine ⟨Nat.pos_of_ne_zero fun hzero => ?_, Nat.div_lt_of_lt_mul (Nat.mul_comm n m ▸ hi)⟩
    rw [hzero] at hi
    exact Nat.not_lt_zero _ hi
  refine ⟨fun i hi => ?_, fun i j hi hj heq => ?_⟩
  · obtain ⟨hm, hb⟩ := hblock i hi
    calc
      f (i / m) * m + i % m < f (i / m) * m + m := Nat.add_lt_add_left (Nat.mod_lt _ hm) _
      _ = (f (i / m) + 1) * m := (Nat.succ_mul _ _).symm
      _ ≤ n * m := Nat.mul_le_mul_right m (h.lt _ hb)
  · obtain ⟨hm, hbi⟩ := hblock i hi
    obtain ⟨-, hbj⟩ := hblock j hj
    have hdiv := congrArg (· / m) heq
    have hmod := congrArg (· % m) heq
    rw [Nat.mul_comm _ m, Nat.mul_comm (f (j / m)) m, Nat.mul_add_div hm, Nat.mul_add_div hm,
      Nat.div_eq_of_lt (Nat.mod_lt _ hm), Nat.div_eq_of_lt (Nat.mod_lt _ hm)] at hdiv
    rw [Nat.mul_add_mod_of_lt (Nat.mod_lt _ hm), Nat.mul_add_mod_of_lt (Nat.mod_lt _ hm)] at hmod
    rw [← Nat.div_add_mod i m, ← Nat.div_add_mod j m, h.inj _ _ hbi hbj hdiv, hmod]

/-! ## Assignments by index arrays -/

/-- `array[keys] = values`, one entry after the other. -/
def scatter {κ α : Type} [DecidableEq κ] (n : Nat) (keys : Nat → κ) (values : Nat → α) (array : κ → α) : κ → α :=
  (List.range n).foldl (fun array i => Function.update array (keys i) (values i)) array

theorem scatter_succ {κ α : Type} [DecidableEq κ] (n : Nat) (keys : Nat → κ) (values : Nat → α) (array : κ → α) :
    scatter (n + 1) keys values array = Function.update (scatter n keys values array) (keys n) (values n) := by
  unfold scatter
  rw [List.range_succ, List.foldl_append]
  rfl

/-- An entry that no key names is kept. -/
theorem scatter_of_ne {κ α : Type} [DecidableEq κ] {keys : Nat → κ} {values : Nat → α} {array : κ → α} {k : κ}
    (h : ∀ i, i < n → keys i ≠ k) : scatter n keys values array k = array k := by
  induction n with
  | zero => rfl
  | succ n ih =>
    rw [scatter_succ, Function.update_of_ne (Ne.symm (h n (Nat.lt_succ_self n)))]
    exact ih fun i hi => h i (Nat.lt_succ_of_lt hi)

/-- An entry that one key names has its value. -/
theorem scatter_of_inj {κ α : Type} [DecidableEq κ] (keys : Nat → κ) {values : Nat → α} {array : κ → α}
    (h : ∀ i j, i < n → j < n → keys i = keys j → i = j) {i : Nat} (hi : i < n) :
    scatter n keys values array (keys i) = values i := by
  induction n with
  | zero => exact absurd hi (Nat.not_lt_zero i)
  | succ n ih =>
    rw [scatter_succ]
    rcases Nat.lt_succ_iff_lt_or_eq.mp hi with hlt | rfl
    · have hne : keys i ≠ keys n := fun heq =>
        absurd (h i n hi (Nat.lt_succ_self n) heq) (Nat.ne_of_lt hlt)
      rw [Function.update_of_ne hne]
      exact ih (fun i j hi hj => h i j (Nat.lt_succ_of_lt hi) (Nat.lt_succ_of_lt hj)) hlt
    · exact Function.update_self _ _ _

/-- What the entries stand for is assigned with them. -/
theorem scatter_comp {κ α β : Type} [DecidableEq κ] (n : Nat) (keys : Nat → κ) (values : Nat → α) (array : κ → α)
    (f : α → β) :
    scatter n keys (fun i => f (values i)) (fun k => f (array k)) = fun k => f (scatter n keys values array k) := by
  induction n with
  | zero => rfl
  | succ n ih =>
    rw [scatter_succ, scatter_succ, ih]
    funext k
    by_cases hk : k = keys n
    · rw [hk, Function.update_self, Function.update_self]
    · rw [Function.update_of_ne hk, Function.update_of_ne hk]

/-! ## Placements -/

/-- `slots` slots hold the replicas of `objects` objects: slot `i` holds replica `replica i` of object `object i`,
and an object has `count` replicas. -/
structure Placement (slots objects : Nat) (object replica count : Nat → Nat) : Prop where
  object_lt : ∀ i, i < slots → object i < objects
  replica_lt : ∀ i, i < slots → replica i < count (object i)
  unique : ∀ i j, i < slots → j < slots → object i = object j → replica i = replica j → i = j
  placed : ∀ e, e < objects → ∀ r, r < count e → ∃ i, i < slots ∧ object i = e ∧ replica i = r
  pos : ∀ e, e < objects → 0 < count e

namespace Placement

variable {slots objects : Nat} {object replica count : Nat → Nat}

/-- One slot for each object. -/
theorem refl (n : Nat) : Placement n n (fun i => i) (fun _ => 0) fun _ => 1 where
  object_lt _ hi := hi
  replica_lt _ _ := Nat.one_pos
  unique _ _ _ _ heq _ := heq
  placed e he _ hr := ⟨e, he, rfl, (Nat.lt_one_iff.mp hr).symm⟩
  pos _ _ := Nat.one_pos

section

variable (h : Placement slots objects object replica count)
include h

/-- One more replica, in one more slot. -/
theorem add {e : Nat} (he : e < objects) :
    Placement (slots + 1) objects (Function.update object slots e) (Function.update replica slots (count e))
      (Function.update count e (count e + 1)) := by
  have hold : ∀ i, i < slots → Function.update object slots e i = object i ∧
      Function.update replica slots (count e) i = replica i := fun i hi =>
    ⟨Function.update_of_ne (Nat.ne_of_lt hi) _ _, Function.update_of_ne (Nat.ne_of_lt hi) _ _⟩
  have hcount : ∀ e', count e' ≤ Function.update count e (count e + 1) e' := fun e' => by
    by_cases heq : e' = e
    · rw [heq, Function.update_self]
      exact Nat.le_succ _
    · rw [Function.update_of_ne heq]
  refine ⟨fun i hi => ?_, fun i hi => ?_, fun i j hi hj hobject hreplica => ?_, fun e' he' r hr => ?_, fun e' he' => ?_⟩
  · rcases Nat.lt_succ_iff_lt_or_eq.mp hi with hlt | rfl
    · rw [(hold i hlt).1]
      exact h.object_lt i hlt
    · rw [Function.update_self]
      exact he
  · rcases Nat.lt_succ_iff_lt_or_eq.mp hi with hlt | rfl
    · rw [(hold i hlt).1, (hold i hlt).2]
      exact Nat.lt_of_lt_of_le (h.replica_lt i hlt) (hcount _)
    · rw [Function.update_self, Function.update_self, Function.update_self]
      exact Nat.lt_succ_self _
  · have hlast : ∀ i, i < slots → Function.update object slots e i = e →
        Function.update replica slots (count e) i ≠ count e := by
      intro i hlt hobject hreplica
      rw [(hold i hlt).1] at hobject
      rw [(hold i hlt).2] at hreplica
      have hrlt := h.replica_lt i hlt
      rw [hobject, hreplica] at hrlt
      exact Nat.lt_irrefl _ hrlt
    rcases Nat.lt_succ_iff_lt_or_eq.mp hi with hlti | rfl
    · rcases Nat.lt_succ_iff_lt_or_eq.mp hj with hltj | rfl
      · rw [(hold i hlti).1, (hold j hltj).1] at hobject
        rw [(hold i hlti).2, (hold j hltj).2] at hreplica
        exact h.unique i j hlti hltj hobject hreplica
      · rw [Function.update_self] at hobject hreplica
        exact absurd hreplica (hlast i hlti hobject)
    · rcases Nat.lt_succ_iff_lt_or_eq.mp hj with hltj | rfl
      · rw [Function.update_self] at hobject hreplica
        exact absurd hreplica.symm (hlast j hltj hobject.symm)
      · rfl
  · by_cases hnew : e' = e ∧ r = count e
    · obtain ⟨rfl, rfl⟩ := hnew
      exact ⟨slots, Nat.lt_succ_self _, Function.update_self _ _ _, Function.update_self _ _ _⟩
    · have hr' : r < count e' := by
        by_cases heq : e' = e
        · rw [heq, Function.update_self] at hr
          rw [heq]
          omega
        · rw [Function.update_of_ne heq] at hr
          exact hr
      obtain ⟨i, hi, hobject, hreplica⟩ := h.placed e' he' r hr'
      refine ⟨i, Nat.lt_succ_of_lt hi, ?_, ?_⟩
      · rw [(hold i hi).1, hobject]
      · rw [(hold i hi).2, hreplica]
  · exact Nat.lt_of_lt_of_le (h.pos e' he') (hcount e')

/-- The slots are permuted. -/
theorem permute {f : Nat → Nat} (hf : Permutes slots f) :
    Placement slots objects (fun i => object (f i)) (fun i => replica (f i)) count := by
  refine ⟨fun i hi => h.object_lt _ (hf.lt i hi), fun i hi => h.replica_lt _ (hf.lt i hi),
    fun i j hi hj hobject hreplica => ?_, fun e he r hr => ?_, h.pos⟩
  · exact hf.inj i j hi hj (h.unique _ _ (hf.lt i hi) (hf.lt j hj) hobject hreplica)
  · obtain ⟨j, hj, hobject, hreplica⟩ := h.placed e he r hr
    obtain ⟨i, hi, rfl⟩ := hf.surj hj
    exact ⟨i, hi, hobject, hreplica⟩

/-- The objects get other names. -/
theorem rename {f g : Nat → Nat} (hf : Permutes objects f) (hg : ∀ e, e < objects → g (f e) = e) :
    Placement slots objects (fun i => f (object i)) replica fun e => count (g e) := by
  obtain ⟨hgPermutes, hright⟩ := hf.of_leftInverse hg
  refine ⟨fun i hi => hf.lt _ (h.object_lt i hi), fun i hi => ?_, fun i j hi hj hobject hreplica => ?_,
    fun e he r hr => ?_, fun e he => h.pos _ (hgPermutes.lt e he)⟩
  · rw [hg _ (h.object_lt i hi)]
    exact h.replica_lt i hi
  · exact h.unique i j hi hj (hf.inj _ _ (h.object_lt i hi) (h.object_lt j hj) hobject) hreplica
  · obtain ⟨i, hi, hobject, hreplica⟩ := h.placed (g e) (hgPermutes.lt e he) r hr
    exact ⟨i, hi, by rw [hobject, hright e he], hreplica⟩

end

/-- Placements side by side. -/
theorem sideBySide {n : Nat} {object replica count : Nat → Nat → Nat}
    (h : ∀ k, k < n → Placement slots objects (object k) (replica k) (count k)) :
    Placement (n * slots) (n * objects) (fun i => object (i / slots) (i % slots) + i / slots * objects)
      (fun i => replica (i / slots) (i % slots)) fun e => count (e / objects) (e % objects) := by
  have hin : ∀ {m i : Nat}, i < n * m → 0 < m ∧ i / m < n ∧ i % m < m := by
    intro m i hi
    have hm : 0 < m := Nat.pos_of_ne_zero fun hzero => by
      rw [hzero] at hi
      exact Nat.not_lt_zero _ hi
    exact ⟨hm, Nat.div_lt_of_lt_mul (Nat.mul_comm n m ▸ hi), Nat.mod_lt _ hm⟩
  have hparts : ∀ {m a b : Nat}, a < m → (a + b * m) / m = b ∧ (a + b * m) % m = a := by
    intro m a b ha
    have hm : 0 < m := Nat.lt_of_le_of_lt (Nat.zero_le a) ha
    rw [Nat.add_mul_div_right _ _ hm, Nat.div_eq_of_lt ha, Nat.zero_add, Nat.add_mul_mod_self_right,
      Nat.mod_eq_of_lt ha]
    exact ⟨rfl, rfl⟩
  have hbound : ∀ {m a b : Nat}, a < m → b < n → a + b * m < n * m := by
    intro m a b ha hb
    calc
      a + b * m < m + b * m := Nat.add_lt_add_right ha _
      _ = (b + 1) * m := by rw [Nat.succ_mul, Nat.add_comm]
      _ ≤ n * m := Nat.mul_le_mul_right m hb
  refine ⟨fun i hi => ?_, fun i hi => ?_, fun i j hi hj hobject hreplica => ?_, fun e he r hr => ?_, fun e he => ?_⟩
  · obtain ⟨hm, hk, hs⟩ := hin hi
    exact hbound ((h _ hk).object_lt _ hs) hk
  · obtain ⟨hm, hk, hs⟩ := hin hi
    rw [(hparts ((h _ hk).object_lt _ hs)).1, (hparts ((h _ hk).object_lt _ hs)).2]
    exact (h _ hk).replica_lt _ hs
  · obtain ⟨hm, hki, hsi⟩ := hin hi
    obtain ⟨-, hkj, hsj⟩ := hin hj
    have hpi := hparts (b := i / slots) ((h _ hki).object_lt _ hsi)
    have hpj := hparts (b := j / slots) ((h _ hkj).object_lt _ hsj)
    rw [hobject] at hpi
    have hdiv : i / slots = j / slots := hpi.1.symm.trans hpj.1
    have hlocal : object (i / slots) (i % slots) = object (j / slots) (j % slots) := hpi.2.symm.trans hpj.2
    rw [hdiv] at hlocal hreplica
    have hmod := (h _ hkj).unique _ _ hsi hsj hlocal hreplica
    rw [← Nat.div_add_mod i slots, ← Nat.div_add_mod j slots, hdiv, hmod]
  · obtain ⟨hm, hk, hs⟩ := hin he
    obtain ⟨i, hi, hobject, hreplica⟩ := (h _ hk).placed _ hs r hr
    refine ⟨i + e / objects * slots, hbound hi hk, ?_, ?_⟩
    · rw [(hparts hi).1, (hparts hi).2, hobject, Nat.add_comm, Nat.mul_comm, Nat.div_add_mod]
    · rw [(hparts hi).1, (hparts hi).2, hreplica]
  · obtain ⟨hm, hk, hs⟩ := hin he
    exact (h _ hk).pos _ hs

/-- An object has as many slots as replicas. -/
theorem count_eq (h : Placement slots objects object replica count) {e : Nat} (he : e < objects) :
    ((Finset.range slots).filter fun i => object i = e).card = count e := by
  rw [← Finset.card_range (count e)]
  refine Finset.card_bij (fun i _ => replica i) (fun i hi => ?_) (fun i hi j hj heq => ?_) (fun r hr => ?_)
  · obtain ⟨hi, hobject⟩ := Finset.mem_filter.mp hi
    rw [Finset.mem_range, ← hobject]
    exact h.replica_lt i (Finset.mem_range.mp hi)
  · obtain ⟨hi, hobjecti⟩ := Finset.mem_filter.mp hi
    obtain ⟨hj, hobjectj⟩ := Finset.mem_filter.mp hj
    exact h.unique i j (Finset.mem_range.mp hi) (Finset.mem_range.mp hj) (hobjecti.trans hobjectj.symm) heq
  · obtain ⟨i, hi, hobject, hreplica⟩ := h.placed e he r (Finset.mem_range.mp hr)
    exact ⟨i, Finset.mem_filter.mpr ⟨Finset.mem_range.mpr hi, hobject⟩, hreplica⟩

/-- The other objects leave an object this many replicas. -/
theorem count_le (h : Placement slots objects object replica count) {e : Nat} (he : e < objects) :
    count e ≤ slots - objects + 1 := by
  have hothers : objects - 1 ≤ ((Finset.range slots).filter fun i => ¬ object i = e).card := by
    have hsurj : Set.SurjOn object ((Finset.range slots).filter fun i => ¬ object i = e : Finset Nat)
        ((Finset.range objects).erase e : Finset Nat) := by
      intro e' he'
      obtain ⟨hne, hmem⟩ := Finset.mem_erase.mp (Finset.mem_coe.mp he')
      have hlt := Finset.mem_range.mp hmem
      obtain ⟨i, hi, hobject, -⟩ := h.placed e' hlt 0 (h.pos e' hlt)
      refine ⟨i, Finset.mem_coe.mpr (Finset.mem_filter.mpr ⟨Finset.mem_range.mpr hi, ?_⟩), hobject⟩
      rw [hobject]
      exact hne
    have hcard := Finset.card_le_card_of_surjOn object hsurj
    rw [Finset.card_erase_of_mem (Finset.mem_range.mpr he), Finset.card_range] at hcard
    exact hcard
  have hsplit := Finset.card_filter_add_card_filter_not (s := Finset.range slots) fun i => object i = e
  rw [h.count_eq he, Finset.card_range] at hsplit
  omega

end Placement

end Yuan
