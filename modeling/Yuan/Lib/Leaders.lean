import Mathlib.Data.List.Count
import Mathlib.Data.List.Range
import Mathlib.Tactic.Common

/-!
# Groups in a sequence

The positions with a property are grouped by `n`, in their order. The first of each group leads it. A position
whose group has come without a gap is as far behind its leader as the count says.
-/

namespace Yuan

/-- The number of positions before `p` with the property. -/
def countBefore (P : Nat → Bool) : Nat → Nat
  | 0 => 0
  | p + 1 => if P p then countBefore P p + 1 else countBefore P p

/-- The last position before `p` that leads a group of `n`. -/
def leader (n : Nat) (P : Nat → Bool) : Nat → Option Nat
  | 0 => none
  | p + 1 => if P p ∧ countBefore P p % n = 0 then some p else leader n P p

section

variable {n : Nat} {P : Nat → Bool} {p q t : Nat}

theorem countBefore_succ (h : P p = true) : countBefore P (p + 1) = countBefore P p + 1 := if_pos h

theorem countBefore_succ_of_not (h : ¬ P p = true) : countBefore P (p + 1) = countBefore P p := if_neg h

theorem countBefore_le (h : t ≤ p) :
    countBefore P t ≤ countBefore P p ∧ countBefore P p ≤ countBefore P t + (p - t) := by
  induction p with
  | zero =>
    cases Nat.le_zero.mp h
    exact ⟨Nat.le_refl _, Nat.le_refl _⟩
  | succ p ih =>
    rcases Nat.le_or_eq_of_le_succ h with hle | rfl
    · obtain ⟨hlow, hhigh⟩ := ih hle
      by_cases hp : P p = true
      · rw [countBefore_succ hp]
        omega
      · rw [countBefore_succ_of_not hp]
        omega
    · exact ⟨Nat.le_refl _, Nat.le_add_right _ _⟩

/-- No position is left out if and only if the count goes up with each. -/
theorem countBefore_eq_add (h : t ≤ p) :
    countBefore P p = countBefore P t + (p - t) ↔ ∀ q, t ≤ q → q < p → P q = true := by
  induction p with
  | zero =>
    cases Nat.le_zero.mp h
    exact iff_of_true rfl fun q _ hq => absurd hq (Nat.not_lt_zero q)
  | succ p ih =>
    rcases Nat.le_or_eq_of_le_succ h with hle | rfl
    · have hbounds := countBefore_le (P := P) hle
      constructor
      · intro hcount q htq hqp
        by_cases hp : P p = true
        · rcases Nat.lt_succ_iff_lt_or_eq.mp hqp with hlt | rfl
          · rw [countBefore_succ hp] at hcount
            exact (ih hle).mp (by omega) q htq hlt
          · exact hp
        · rw [countBefore_succ_of_not hp] at hcount
          omega
      · intro hall
        rw [countBefore_succ (hall p hle (Nat.lt_succ_self p)),
          (ih hle).mpr fun q htq hqp => hall q htq (Nat.lt_succ_of_lt hqp)]
        omega
    · refine iff_of_true ?_ fun q hle hlt => absurd hlt (by omega)
      rw [Nat.sub_self]
      rfl

/-- A leader is in front of its whole group. -/
theorem leader_eq_some (hn : 0 < n) (h : leader n P p = some t) :
    t < p ∧ P t = true ∧ countBefore P t % n = 0 ∧
      countBefore P p = countBefore P t + 1 + (countBefore P p - 1) % n := by
  induction p with
  | zero => cases h
  | succ p ih =>
    unfold leader at h
    split at h
    case isTrue hlead =>
      obtain ⟨hp, hcount⟩ := hlead
      cases h
      refine ⟨Nat.lt_succ_self t, hp, hcount, ?_⟩
      rw [countBefore_succ hp, Nat.add_sub_cancel, hcount]
    case isFalse hnot =>
      obtain ⟨hlt, ht, hcount, hgroup⟩ := ih h
      refine ⟨Nat.lt_succ_of_lt hlt, ht, hcount, ?_⟩
      by_cases hp : P p = true
      · rw [countBefore_succ hp]
        have hmod : countBefore P p % n ≠ 0 := fun hzero => hnot ⟨hp, hzero⟩
        obtain ⟨k, hk⟩ := Nat.dvd_of_mod_eq_zero hcount
        rw [Nat.add_sub_cancel]
        have hlt := Nat.mod_lt (countBefore P p - 1) hn
        -- the next one is still of this group
        have hnext : countBefore P p = (countBefore P p - 1) % n + 1 + n * k := by omega
        have hinside : (countBefore P p - 1) % n + 1 < n := by
          rcases Nat.lt_or_ge ((countBefore P p - 1) % n + 1) n with hlt | hge
          · exact hlt
          · exfalso
            apply hmod
            have hfull : (countBefore P p - 1) % n + 1 = n := by omega
            rw [hnext, hfull, Nat.add_mul_mod_self_left, Nat.mod_self]
        have hthis : countBefore P p % n = (countBefore P p - 1) % n + 1 := by
          conv_lhs => rw [hnext]
          rw [Nat.add_mul_mod_self_left, Nat.mod_eq_of_lt hinside]
        omega
      · rw [countBefore_succ_of_not hp]
        exact hgroup

/-- Behind a position with the property there is a leader. -/
theorem leader_isSome (h : 0 < countBefore P p) : (leader n P p).isSome := by
  induction p with
  | zero => exact absurd h (Nat.lt_irrefl 0)
  | succ p ih =>
    unfold leader
    split
    case isTrue => rfl
    case isFalse hnot =>
      apply ih
      by_cases hp : P p = true
      · apply Nat.pos_of_ne_zero
        intro hzero
        apply hnot
        rw [hzero]
        exact ⟨hp, rfl⟩
      · rw [countBefore_succ_of_not hp] at h
        exact h

/-- A group that has come without a gap. -/
theorem leader_of_run (hlead : countBefore P t % n = 0) (htp : t ≤ p) (hlt : p - t < n)
    (hall : ∀ q, t ≤ q → q ≤ p → P q = true) : leader n P (p + 1) = some t ∧ countBefore P p % n = p - t := by
  have hcount : countBefore P p = countBefore P t + (p - t) :=
    (countBefore_eq_add htp).mpr fun q htq hqp => hall q htq (Nat.le_of_lt hqp)
  have hmod : countBefore P p % n = p - t := by
    obtain ⟨k, hk⟩ := Nat.dvd_of_mod_eq_zero hlead
    rw [hcount, hk, Nat.mul_add_mod, Nat.mod_eq_of_lt hlt]
  refine ⟨?_, hmod⟩
  induction p with
  | zero =>
    cases Nat.le_zero.mp htp
    exact if_pos ⟨hall 0 (Nat.le_refl 0) (Nat.le_refl 0), hlead⟩
  | succ p ih =>
    rcases Nat.le_or_eq_of_le_succ htp with hle | rfl
    · have hnot : ¬ (P (p + 1) = true ∧ countBefore P (p + 1) % n = 0) := by
        rintro ⟨-, hzero⟩
        omega
      have hcount' : countBefore P p = countBefore P t + (p - t) :=
        (countBefore_eq_add hle).mpr fun q htq hqp => hall q htq (by omega)
      have hmod' : countBefore P p % n = p - t := by
        obtain ⟨k, hk⟩ := Nat.dvd_of_mod_eq_zero hlead
        rw [hcount', hk, Nat.mul_add_mod, Nat.mod_eq_of_lt (by omega)]
      rw [leader, if_neg hnot]
      exact ih hle (by omega) (fun q htq hqp => hall q htq (by omega)) hcount' hmod'
    · exact if_pos ⟨hall _ (Nat.le_refl _) (Nat.le_refl _), hlead⟩

/-- Two ways to group agree on a leader at the distance of the count if and only if the group has come
without a gap. -/
theorem leader_at_distance (hn : 0 < n) (hp : P p = true) (h : leader n P (p + 1) = some t)
    (hdistance : countBefore P p % n = p - t) :
    t ≤ p ∧ countBefore P t % n = 0 ∧ p - t < n ∧ ∀ q, t ≤ q → q ≤ p → P q = true := by
  obtain ⟨hlt, -, hlead, hgroup⟩ := leader_eq_some hn h
  have htp : t ≤ p := Nat.lt_succ_iff.mp hlt
  rw [countBefore_succ hp, Nat.add_sub_cancel] at hgroup
  have hall : ∀ q, t ≤ q → q < p → P q = true := (countBefore_eq_add htp).mp (by omega)
  refine ⟨htp, hlead, hdistance ▸ Nat.mod_lt _ hn, fun q htq hqp => ?_⟩
  rcases Nat.lt_or_eq_of_le hqp with hlt | rfl
  · exact hall q htq hlt
  · exact hp

end

end Yuan
