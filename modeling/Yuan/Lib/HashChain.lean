import Mathlib.Data.List.Induction
import Mathlib.Logic.Function.Basic

/-!
# Hash chains

A chain hashes every item together with the hash before it: the hash of a list is a left fold. If
the hash function is injective in both arguments, a hash commits to the whole list of items, as long as
the lengths agree; if moreover the seed is not the hash of anything, it does so without that condition.
-/

namespace Yuan.HashChain

variable {α β : Type} {f : β → α → β} {seed : β}

/-- Of two lists of one length, equal hashes make equal lists. -/
theorem foldl_inj_of_length (hf : Function.Injective2 f) {l l' : List α}
    (hlen : l.length = l'.length) (h : l.foldl f seed = l'.foldl f seed) : l = l' := by
  induction l using List.reverseRecOn generalizing l' with
  | nil =>
    exact (List.length_eq_zero_iff.mp hlen.symm).symm
  | append_singleton l a ih =>
    rcases List.eq_nil_or_concat l' with rfl | ⟨l', b, rfl⟩
    · simp at hlen
    · simp only [List.foldl_append, List.concat_eq_append] at h
      obtain ⟨hprev, rfl⟩ := hf h
      rw [ih (by simpa using hlen) hprev, List.concat_eq_append]

/-- If the seed is no hash, equal hashes make equal lists. -/
theorem foldl_inj (hf : Function.Injective2 f) (hseed : ∀ b a, f b a ≠ seed) {l l' : List α}
    (h : l.foldl f seed = l'.foldl f seed) : l = l' := by
  induction l using List.reverseRecOn generalizing l' with
  | nil =>
    rcases List.eq_nil_or_concat l' with rfl | ⟨l', b, rfl⟩
    · rfl
    · simp only [List.concat_eq_append, List.foldl_append, List.foldl_cons] at h
      exact absurd h.symm (hseed _ _)
  | append_singleton l a ih =>
    rcases List.eq_nil_or_concat l' with rfl | ⟨l', b, rfl⟩
    · simp only [List.foldl_append, List.foldl_cons] at h
      exact absurd h (hseed _ _)
    · simp only [List.foldl_append, List.concat_eq_append] at h
      obtain ⟨hprev, rfl⟩ := hf h
      rw [ih hprev, List.concat_eq_append]

end Yuan.HashChain
