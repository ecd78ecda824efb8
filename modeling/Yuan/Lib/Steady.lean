import Yuan.Lib.Py

/-!
# Steady computations

A computation with an argument is steady if it fails for every argument with the same error, or for none and its
result grows with the argument. Steady computations compose.
-/

namespace Yuan

section

variable {ε α β γ δ : Type}

/-- `run` fails always, or never and takes related arguments to related results. -/
def Steady (r : α → α → Prop) (s : β → β → Prop) (run : α → Except ε β) : Prop :=
  (∃ e, ∀ a, run a = .error e) ∨ ∃ f : α → β, (∀ a a', r a a' → s (f a) (f a')) ∧ ∀ a, run a = .ok (f a)

namespace Steady

variable {r : α → α → Prop} {s : β → β → Prop} {t : γ → γ → Prop}

/-- A result that grows. -/
theorem ok {f : α → β} (hf : ∀ a a', r a a' → s (f a) (f a')) : Steady r s fun a => (.ok (f a) : Except ε β) :=
  .inr ⟨f, hf, fun _ => rfl⟩

/-- A computation that does not look at its argument. -/
theorem const (hs : ∀ b, s b b) (x : Except ε β) : Steady r s fun _ => x := by
  cases x with
  | error e => exact .inl ⟨e, fun _ => rfl⟩
  | ok b => exact .ok fun _ _ _ => hs b

/-- One computation after another, which is steady on the results of the first. -/
theorem bindOn {run : α → Except ε β} {next : α → β → Except ε γ} (h : Steady r s run)
    (hnext : ∀ f : α → β, (∀ a a', r a a' → s (f a) (f a')) → (∀ a, run a = .ok (f a)) →
      Steady r t fun a => next a (f a)) : Steady r t fun a => run a >>= next a := by
  obtain ⟨e, he⟩ | ⟨f, hf, hrun⟩ := h
  · refine .inl ⟨e, fun a => ?_⟩
    dsimp only
    rw [he]
    rfl
  · have hsame : (fun a => run a >>= next a) = fun a => next a (f a) := by
      funext a
      rw [hrun, ok_bind]
    rw [hsame]
    exact hnext f hf hrun

/-- One computation after another. -/
theorem bind {run : α → Except ε β} {next : β → Except ε γ} (h : Steady r s run) (hnext : Steady s t next) :
    Steady r t fun a => run a >>= next := by
  refine h.bindOn fun f hf _ => ?_
  obtain ⟨e, he⟩ | ⟨g, hg, hnext⟩ := hnext
  · exact .inl ⟨e, fun a => he (f a)⟩
  · exact .inr ⟨fun a => g (f a), fun a a' haa' => hg _ _ (hf a a' haa'), fun a => hnext (f a)⟩

/-- A computation after one that does not look at the argument. -/
theorem bindConst {x : Except ε δ} {next : δ → α → Except ε γ} (h : ∀ d, x = .ok d → Steady r t (next d)) :
    Steady r t fun a => x >>= fun d => next d a := by
  cases x with
  | error e => exact .inl ⟨e, fun _ => rfl⟩
  | ok d => exact h d rfl

/-- The elements of a list, one by one. -/
theorem mapM {l : List δ} {run : δ → α → Except ε β} (h : ∀ d ∈ l, Steady r s (run d)) :
    Steady r (List.Forall₂ s) fun a => l.mapM fun d => run d a := by
  induction l with
  | nil => exact .inr ⟨fun _ => [], fun _ _ _ => .nil, fun _ => rfl⟩
  | cons d l ih =>
    simp only [List.mapM_cons]
    refine (h d List.mem_cons_self).bindOn fun f hf _ => ?_
    refine (ih fun d hd => h d (List.mem_cons_of_mem _ hd)).bindOn fun g hg _ => ?_
    exact .ok fun a a' haa' => .cons (hf a a' haa') (hg a a' haa')

end Steady

end

/-! ## Lists that grow -/

theorem sum_le_sum_of_forall₂ {l l' : List Int} (h : List.Forall₂ (· ≤ ·) l l') : l.sum ≤ l'.sum := by
  induction h with
  | nil => exact le_rfl
  | cons hab _ ih =>
    exact add_le_add hab ih

/-- The largest element grows with the elements. -/
theorem max?_le_of_forall₂ {l l' : List Int} (h : List.Forall₂ (· ≤ ·) l l') {m m' : Int} (hm : l.max? = some m)
    (hm' : l'.max? = some m') : m ≤ m' := by
  obtain ⟨a', ha', hle⟩ := exists_of_mem_of_forall₂ (R := fun a b => b ≤ a) h.flip (List.max?_mem hm)
  exact hle.trans ((List.max?_le_iff hm').mp le_rfl a' ha')

end Yuan
