import Mathlib.Algebra.Order.Field.Rat
import Yuan.Lib.GreedyMinMax
import Yuan.Eplb.Packing

/-!
# Greedy replication is optimal

A redundant slot goes to an expert with the largest load per replica, which makes the largest load per replica as
small as any assignment of as many replicas does.
-/

namespace Yuan.Eplb

/-- Loads without rounding. -/
def exactLoads : Loads Rat where
  zero := 0
  add := (· + ·)
  sum := List.sum
  div w n := w / n

/-- The largest load of a replica. -/
def maxLoad (weight : Nat → Rat) (numLog : Nat) (logcnt : Nat → Nat) : WithBot Rat :=
  maxCost (Finset.range numLog) (fun e n => exactLoads.div (weight e) n) logcnt

variable {weight : Nat → Rat} {numLog : Nat}

theorem falling_load (hweight : ∀ e < numLog, 0 ≤ weight e) :
    Falling (Finset.range numLog) fun e n => exactLoads.div (weight e) n := by
  intro e he n n' hn hle
  have hpos : (0 : Rat) < n := by exact_mod_cast hn
  exact div_le_div_of_nonneg_left (hweight e (Finset.mem_range.mp he)) hpos (by exact_mod_cast hle)

/-- What the loop has dealt after `n` redundant slots. -/
theorem addReplicas_balanced (hweight : ∀ e < numLog, 0 ≤ weight e) (hpos : 0 < numLog) (n : Nat) :
    IsAssignment (Finset.range numLog) (numLog + n) (addReplicas exactLoads numLog weight n).logcnt ∧
      Balanced (Finset.range numLog) (fun e n => exactLoads.div (weight e) n)
        (addReplicas exactLoads numLog weight n).logcnt := by
  induction n with
  | zero =>
    have hone : IsAssignment (Finset.range numLog) (Finset.range numLog).card fun _ => 1 := IsAssignment.of_one
    rw [Finset.card_range] at hone
    exact ⟨hone, Balanced.of_one⟩
  | succ n ih =>
    obtain ⟨hassignment, hbalanced⟩ := ih
    have hstep : addReplicas exactLoads numLog weight (n + 1)
        = (addReplicas exactLoads numLog weight n).addReplica exactLoads numLog weight (numLog + n) := by
      unfold addReplicas
      rw [List.range_succ, List.foldl_append]
      rfl
    rw [hstep]
    generalize addReplicas exactLoads numLog weight n = m at hassignment hbalanced ⊢
    have hr := Finset.mem_range.mpr (argmax_lt (fun e => exactLoads.div (weight e) (m.logcnt e)) hpos)
    refine ⟨hassignment.add hr, hbalanced.add (falling_load hweight) hassignment.one_le hr fun e he => ?_⟩
    exact @le_argmax _ _ _ _ (fun e => exactLoads.div (weight e) (m.logcnt e)) (Finset.mem_range.mp he)

/-- `replicate_experts` gives every expert a replica, all replicas in all, and no assignment that does so has a
smaller largest load per replica. -/
theorem replicateExperts_minmax (weight : Nat → Nat → Rat) {numLog numPhy : Nat} (hle : numLog ≤ numPhy)
    (hweight : ∀ row, ∀ e < numLog, 0 ≤ weight row e) :
    ∃ experts, replicateExperts exactLoads weight numLog numPhy = some experts ∧ ∀ row,
      (0 < numLog → IsAssignment (Finset.range numLog) numPhy (experts row).logcnt) ∧
      ∀ logcnt, IsAssignment (Finset.range numLog) numPhy logcnt →
        maxLoad (weight row) numLog (experts row).logcnt ≤ maxLoad (weight row) numLog logcnt := by
  refine ⟨_, if_pos hle, fun row => ?_⟩
  rcases Nat.eq_zero_or_pos numLog with rfl | hpos
  · exact ⟨fun h => absurd h (Nat.lt_irrefl 0), fun _ _ => le_rfl⟩
  · obtain ⟨hassignment, hbalanced⟩ := addReplicas_balanced (hweight row) hpos (numPhy - numLog)
    rw [Nat.add_sub_cancel' hle] at hassignment
    exact ⟨fun _ => hassignment, fun logcnt h => hbalanced.maxCost_le (falling_load (hweight row)) hassignment h⟩

/-- Three experts on five slots, two of them with the same load. -/
theorem replicateExperts_minmax_five_slots :
    ∃ experts, replicateExperts exactLoads (fun _ e => if e = 0 then 4 else 6) 3 5 = some experts ∧ ∀ row,
      (0 < 3 → IsAssignment (Finset.range 3) 5 (experts row).logcnt) ∧
      ∀ logcnt, IsAssignment (Finset.range 3) 5 logcnt →
        maxLoad (fun e => if e = 0 then 4 else 6) 3 (experts row).logcnt
          ≤ maxLoad (fun e => if e = 0 then 4 else 6) 3 logcnt :=
  replicateExperts_minmax _ (by decide) fun _ e _ => by split <;> decide

end Yuan.Eplb
