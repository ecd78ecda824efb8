import Mathlib.Data.Int.Basic
import Mathlib.Data.List.Forall2
import Mathlib.Tactic.Linarith
import Mathlib.Tactic.Ring

/-!
# Python's exceptions and integer helpers

A call that may raise returns in `Except PyError`. The rules here take a computation in that monad
apart: a successful `bind` had two successful halves. Token counts are `Int`, because the code
subtracts them freely; `//` by a positive number is `Int`'s `/`.
-/

namespace Yuan

variable {α ε β : Type} {f : α → Except ε β} {l : List α} {r : List β} {R : α → β → Prop} {a b : Int}

/-- The exceptions the modelled code raises, with their messages. -/
inductive PyError where
  | assertionError (msg : String)
  | valueError (msg : String)
  | runtimeError (msg : String)
  | indexError (msg : String)
  | keyError (msg : String)
  | notImplementedError (msg : String)
  | zeroDivisionError (msg : String)
  | overflowError (msg : String)
  | typeError (msg : String)
  deriving DecidableEq, Repr

/-- `assert cond, msg`. -/
def pyAssert (cond : Bool) (msg : String) : Except PyError Unit :=
  if cond then .ok () else .error (.assertionError msg)

@[simp] theorem pyAssert_true (msg : String) : pyAssert true msg = .ok () := rfl

theorem pyAssert_eq_ok {cond : Bool} {msg : String} {u : Unit} : pyAssert cond msg = .ok u ↔ cond = true := by
  cases cond <;> simp [pyAssert]

/-- `l[:n]`; a negative index counts from the end. -/
def pyTake {α : Type} (l : List α) (n : Int) : List α :=
  l.take (if n < 0 then l.length + n else n).toNat

theorem pyTake_take (l : List α) (n : Int) : l.take (pyTake l n).length = pyTake l n := by
  unfold pyTake
  rw [List.length_take, ← List.take_take, List.take_length]

/-- Two pairs that are returned are equal in both parts. -/
theorem ok_pair {a a' : α} {b b' : β} (h : (Except.ok (a, b) : Except ε (α × β)) = .ok (a', b')) : a = a' ∧ b = b' :=
  Prod.mk.inj (Except.ok.inj h)

/-- A successful sequence of two computations had two successful halves. -/
theorem bind_eq_ok {x : Except ε α} {b : β} : x >>= f = .ok b ↔ ∃ a, x = .ok a ∧ f a = .ok b := by
  cases x with
  | error e => simp [bind, Except.bind]
  | ok a => simp [bind, Except.bind]

theorem bind_eq_error {x : Except ε α} {e : ε} :
    x >>= f = .error e ↔ x = .error e ∨ ∃ a, x = .ok a ∧ f a = .error e := by
  cases x <;> simp [bind, Except.bind]

theorem ok_bind {a : α} : Except.ok a >>= f = f a := rfl

theorem map_eq_ok {x : Except ε α} {f : α → β} {b : β} : x.map f = .ok b ↔ ∃ a, x = .ok a ∧ f a = b := by
  cases x <;> simp [Except.map]

/-- A relation that holds of every step, and is reflexive and transitive, holds of a fold. -/
theorem holds_of_foldlM {σ : Type} {R : σ → σ → Prop} {f : σ → α → Except ε σ} (hrefl : ∀ s, R s s)
    (htrans : ∀ {x y z}, R x y → R y z → R x z) (hstep : ∀ {s a s'}, f s a = .ok s' → R s s') {s s' : σ}
    (hrun : l.foldlM f s = .ok s') : R s s' := by
  induction l generalizing s with
  | nil =>
    cases hrun
    exact hrefl _
  | cons a l ih =>
    obtain ⟨s₁, hone, hrun⟩ := bind_eq_ok.mp hrun
    exact htrans (hstep hone) (ih hrun)

/-- What every step keeps, a fold keeps. -/
theorem kept_by_foldlM {σ : Type} {I : σ → Prop} {f : σ → α → Except ε σ}
    (hstep : ∀ {s a s'}, f s a = .ok s' → I s → I s') {s s' : σ} (hrun : l.foldlM f s = .ok s') (h : I s) : I s' :=
  holds_of_foldlM (R := fun s s' => I s → I s') (fun _ h => h) (fun h h' hx => h' (h hx)) hstep hrun h

/-- A successful traversal maps the elements one by one. -/
theorem mapM_eq_ok : l.mapM f = .ok r ↔ List.Forall₂ (fun a b => f a = .ok b) l r := by
  induction l generalizing r with
  | nil =>
    rw [List.mapM_nil, List.forall₂_nil_left_iff]
    constructor
    · intro h
      exact (Except.ok.inj h).symm
    · intro h
      rw [h]
      rfl
  | cons a l ih =>
    rw [List.mapM_cons]
    constructor
    · intro h
      obtain ⟨b, hb, h⟩ := bind_eq_ok.mp h
      obtain ⟨bs, hbs, h⟩ := bind_eq_ok.mp h
      cases h
      exact List.Forall₂.cons hb (ih.mp hbs)
    · intro h
      cases h with
      | cons hb hbs =>
        rw [hb, ok_bind, ih.mpr hbs]
        rfl

theorem mapM_ok {c : α → β} (h : ∀ a ∈ l, f a = .ok (c a)) : l.mapM f = .ok (l.map c) :=
  mapM_eq_ok.mpr (List.forall₂_map_right_iff.mpr (List.forall₂_same.mpr h))

/-- Where every element has a result, so has the list. -/
theorem exists_mapM (h : ∀ a ∈ l, ∃ b, f a = .ok b ∧ R a b) : ∃ r, l.mapM f = .ok r ∧ List.Forall₂ R l r := by
  induction l with
  | nil => exact ⟨[], rfl, .nil⟩
  | cons a l ih =>
    obtain ⟨b, hb, hab⟩ := h a List.mem_cons_self
    obtain ⟨r, hr, hall⟩ := ih fun a' ha' => h a' (List.mem_cons_of_mem _ ha')
    refine ⟨b :: r, ?_, .cons hab hall⟩
    rw [List.mapM_cons, hb, ok_bind, hr]
    rfl

/-- Every result comes from one of the elements. -/
theorem exists_of_mem_of_forall₂ (h : List.Forall₂ R l r) {b : β} (hb : b ∈ r) : ∃ a ∈ l, R a b := by
  induction h with
  | nil => cases hb
  | cons hab _ ih =>
    rcases List.mem_cons.mp hb with rfl | hb
    · exact ⟨_, List.mem_cons_self, hab⟩
    · obtain ⟨a, ha, hab⟩ := ih hb
      exact ⟨a, List.mem_cons_of_mem _ ha, hab⟩

/-- Related lists are related at each position. -/
theorem getElem?_of_forall₂ (h : List.Forall₂ R l r) {i : Nat} {a : α} (ha : l[i]? = some a) :
    ∃ b, r[i]? = some b ∧ R a b := by
  induction h generalizing i with
  | nil => cases ha
  | cons hab _ ih =>
    cases i with
    | zero =>
      cases ha
      exact ⟨_, rfl, hab⟩
    | succ i => exact ih ha

/-- A relation between three lists, through the one in the middle. -/
theorem forall₂_trans {γ : Type} {S : β → γ → Prop} {T : α → γ → Prop} {k : List β} {r : List γ}
    (hl : List.Forall₂ R l k) (hr : List.Forall₂ S k r) (h : ∀ a b c, R a b → S b c → T a c) : List.Forall₂ T l r := by
  induction hl generalizing r with
  | nil =>
    cases hr
    exact .nil
  | cons hab _ ih =>
    cases hr with
    | cons hbc hr => exact .cons (h _ _ _ hab hbc) (ih hr)

/-- A list between two others. -/
theorem exists_between {γ : Type} {P : α → γ → Prop} {Q : γ → β → Prop} (h : List.Forall₂ R l r)
    (hbetween : ∀ a ∈ l, ∀ b, R a b → ∃ c, P a c ∧ Q c b) : ∃ k, List.Forall₂ P l k ∧ List.Forall₂ Q k r := by
  induction h with
  | nil => exact ⟨[], .nil, .nil⟩
  | cons hab _ ih =>
    obtain ⟨c, hp, hq⟩ := hbetween _ List.mem_cons_self _ hab
    obtain ⟨k, hk, hr⟩ := ih fun a ha => hbetween a (List.mem_cons_of_mem _ ha)
    exact ⟨c :: k, .cons hp hk, .cons hq hr⟩

/-- `a // b`. -/
def floorDiv (a b : Int) : Except PyError Int :=
  if b = 0 then .error (.zeroDivisionError "integer division or modulo by zero") else .ok (a.fdiv b)

theorem floorDiv_eq_ok {q : Int} (hb : 0 ≤ b) (h : floorDiv a b = .ok q) : 0 < b ∧ q = a / b := by
  unfold floorDiv at h
  split at h
  · cases h
  · next hne =>
      cases h
      exact ⟨by omega, Int.fdiv_eq_ediv_of_nonneg a hb⟩

/-- Ceiling division. -/
def cdiv (a b : Int) : Int := -(a.fdiv (-b))

/-- `cdiv(a, b)`, which divides by `-b`. -/
def ceilDiv (a b : Int) : Except PyError Int :=
  if b = 0 then .error (.zeroDivisionError "integer division or modulo by zero") else .ok (cdiv a b)

theorem ceilDiv_eq_ok {q : Int} (h : ceilDiv a b = .ok q) : b ≠ 0 ∧ q = cdiv a b := by
  unfold ceilDiv at h
  split at h
  · cases h
  · next hne =>
      cases h
      exact ⟨hne, rfl⟩

section

variable (hb : 0 < b)
include hb

theorem cdiv_eq : cdiv a b = (a + b - 1) / b := by
  unfold cdiv
  rw [Int.fdiv_eq_ediv]
  have hneg : ¬ (0 ≤ -b) := by omega
  simp only [Int.ediv_neg, Int.neg_dvd]
  have hdiv := Int.mul_ediv_add_emod a b
  have hlt := Int.emod_lt_of_pos a hb
  by_cases hdvd : b ∣ a
  · rw [if_pos (Or.inr hdvd)]
    obtain ⟨k, rfl⟩ := hdvd
    have h1 : b * k / b = k := Int.mul_ediv_cancel_left k (by omega)
    have h2 : (b * k + b - 1) / b = k := by
      rw [show b * k + b - 1 = (b - 1) + b * k by ring, Int.add_mul_ediv_left _ _ (by omega),
        Int.ediv_eq_zero_of_lt (by omega) (by omega)]
      simp
    omega
  · rw [if_neg (by simp only [hdvd, or_false]; exact hneg)]
    have h2 : (a + b - 1) / b = a / b + 1 := by
      rw [show a + b - 1 = (a % b - 1) + b * (a / b + 1) by linarith [hdiv],
        Int.add_mul_ediv_left _ _ (by omega), Int.ediv_eq_zero_of_lt (by omega) (by omega)]
      ring
    omega

/-- As many whole `b`s as fit into `a` are at most its ceiling. -/
theorem le_cdiv {n : Int} (h : n * b ≤ a) : n ≤ cdiv a b := by
  rw [cdiv_eq hb]
  exact (Int.le_ediv_iff_mul_le hb).mpr (by omega)

/-- The ceiling covers the dividend. -/
theorem le_cdiv_mul : a ≤ cdiv a b * b := by
  rw [cdiv_eq hb]
  have hdiv := Int.mul_ediv_add_emod (a + b - 1) b
  have hlt := Int.emod_lt_of_pos (a + b - 1) hb
  rw [Int.mul_comm] at hdiv
  omega

theorem cdiv_le_iff {n : Int} : cdiv a b ≤ n ↔ a ≤ n * b := by
  rw [cdiv_eq hb, ← Int.lt_add_one_iff, Int.ediv_lt_iff_lt_mul hb, Int.add_mul]
  omega

theorem lt_cdiv_iff {n : Int} : n < cdiv a b ↔ n * b < a := by
  rw [← not_le, cdiv_le_iff hb, not_le]

theorem cdiv_mono {a' : Int} (h : a ≤ a') : cdiv a b ≤ cdiv a' b := by
  rw [cdiv_eq hb, cdiv_eq hb]
  exact Int.ediv_le_ediv hb (by omega)

end

end Yuan
