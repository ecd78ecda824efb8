import Mathlib.Logic.Function.Basic

/-! # FIFO channels

A family of channels holds, for every pair of ends, the messages sent and not yet received,
oldest first. -/

namespace Yuan

/-- The messages on their way over each channel. -/
abbrev Channels (ι μ : Type) := ι → List μ

namespace Channels

variable {ι μ : Type} [DecidableEq ι] {ch : Channels ι μ} {i j : ι} {m m' : μ} {ch' : Channels ι μ}

/-- Nothing on its way. -/
def empty : Channels ι μ := fun _ => []

/-- Put messages behind those of one channel. -/
def send (ch : Channels ι μ) (i : ι) (ms : List μ) : Channels ι μ :=
  Function.update ch i (ch i ++ ms)

/-- Take the oldest message of a channel. -/
def receive (ch : Channels ι μ) (i : ι) : Option (μ × Channels ι μ) :=
  match ch i with
  | [] => none
  | m :: rest => some (m, Function.update ch i rest)

/-- Send one message over every channel that is selected. -/
def broadcast (ch : Channels ι μ) (selected : ι → Bool) (ms : List μ) : Channels ι μ :=
  fun i => if selected i then ch i ++ ms else ch i

theorem mem_send {ms : List μ} : m ∈ ch.send i ms j ↔ m ∈ ch j ∨ (j = i ∧ m ∈ ms) := by
  rcases eq_or_ne j i with rfl | hne
  · simp [send]
  · simp [send, hne]

omit [DecidableEq ι] in
theorem mem_broadcast {selected : ι → Bool} {ms : List μ} :
    m ∈ ch.broadcast selected ms j ↔ m ∈ ch j ∨ (selected j = true ∧ m ∈ ms) := by
  unfold broadcast
  split
  · next h => simp [h]
  · next h => simp [h]

theorem receive_eq_some :
    ch.receive i = some (m, ch') ↔ ∃ rest, ch i = m :: rest ∧ ch' = Function.update ch i rest := by
  unfold receive
  split
  · next h => simp [h]
  · next m₀ rest h =>
      rw [h]
      constructor
      · intro heq
        cases heq
        exact ⟨rest, rfl, rfl⟩
      · rintro ⟨rest', heq, rfl⟩
        cases heq
        rfl

section

variable (h : ch.receive i = some (m, ch'))
include h

/-- A message received was on its way. -/
theorem mem_of_receive : m ∈ ch i := by
  obtain ⟨rest, hi, -⟩ := receive_eq_some.mp h
  rw [hi]
  exact List.mem_cons_self

/-- What is still on its way after a receipt was so before. -/
theorem mem_before (hm : m' ∈ ch' j) : m' ∈ ch j := by
  obtain ⟨rest, hi, rfl⟩ := receive_eq_some.mp h
  rcases eq_or_ne j i with rfl | hne
  · rw [Function.update_self] at hm
    rw [hi]
    exact List.mem_cons_of_mem _ hm
  · rwa [Function.update_of_ne hne] at hm

/-- A message on its way is the one received or still on its way. -/
theorem mem_after (hm : m' ∈ ch j) : (j = i ∧ m' = m) ∨ m' ∈ ch' j := by
  obtain ⟨rest, hi, rfl⟩ := receive_eq_some.mp h
  rcases eq_or_ne j i with rfl | hne
  · rw [hi] at hm
    rcases List.mem_cons.mp hm with rfl | hm
    · exact .inl ⟨rfl, rfl⟩
    · right
      rwa [Function.update_self]
  · right
    rwa [Function.update_of_ne hne]

end

end Channels

end Yuan
