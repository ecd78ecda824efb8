import Mathlib.Data.List.Basic
import Mathlib.Tactic.Common

/-!
# Batches from two dataloaders

The trainer takes its batches from a short and a long dataloader in turns. Two flags on the trainer say which of
the two iterators has stopped; they are cleared when the training starts, and not between epochs.
-/

namespace Yuan.Trainer

/-- `self.stop_short` and `self.stop_long`. -/
structure Flags where
  stopShort : Bool := false
  stopLong : Bool := false
  deriving DecidableEq

/-- The two halves of the loop's body. -/
inductive Half where
  | first
  | second
  deriving DecidableEq

/-- The generator of `_alternate_iterators`: what is left of each iterator, and where the loop is. -/
structure Generator (α : Type) where
  flags : Flags
  iterShort : Option (List α)
  iterLong : Option (List α)
  half : Half := .first

variable {α : Type}

/-- The code in front of the loop. -/
def alternateIterators (flags : Flags) (iterShort iterLong : Option (List α)) : Generator α where
  flags := {
    stopShort := iterShort.isNone || flags.stopShort
    stopLong := iterLong.isNone || flags.stopLong }
  iterShort := iterShort
  iterLong := iterLong

/-- `try: yield next(iter_short)`: both halves have this body. -/
def Generator.nextShort (g : Generator α) : Option α × Generator α :=
  if g.flags.stopShort then (none, g)
  else
    match g.iterShort with
    | some (batch :: rest) => (some batch, { g with iterShort := some rest })
    | _ => (none, { g with flags := { g.flags with stopShort := true } })

/-- One half of a turn of the loop: the generator returns, or it goes on, perhaps with a batch. -/
def Generator.step (g : Generator α) : Option (Option α × Generator α) :=
  match g.half with
  | .first =>
    if g.flags.stopShort ∧ g.flags.stopLong then none
    else some (g.nextShort.1, { g.nextShort.2 with half := .second })
  | .second => some (g.nextShort.1, { g.nextShort.2 with half := .first })

/-- What an epoch comes to. -/
structure Epoch (α : Type) where
  batches : List α
  flags : Flags
  genSteps : Nat
  returned : Bool

/-- The loop of `fit` over the batches of an epoch. `keepsGenerating` says that the batch of a step has left no
prompt, so that the loop continues; otherwise the last step ends the training. -/
def runEpoch (totalTrainingSteps : Nat) (keepsGenerating : Nat → Bool) : Nat → Nat → Generator α → Option (Epoch α)
  | 0, _, _ => none
  | fuel + 1, genSteps, g =>
    match g.step with
    | none => some ⟨[], g.flags, genSteps, false⟩
    | some (none, g) => runEpoch totalTrainingSteps keepsGenerating fuel genSteps g
    | some (some batch, g) =>
      if totalTrainingSteps ≤ genSteps ∧ keepsGenerating genSteps = false then
        some ⟨[batch], g.flags, genSteps, true⟩
      else
        (runEpoch totalTrainingSteps keepsGenerating fuel (genSteps + 1) g).map fun epoch =>
          { epoch with batches := batch :: epoch.batches }

/-- `iter(dataloader) if dataloader else None`. -/
def iterOf (dataloader : List α) : Option (List α) := if dataloader = [] then none else some dataloader

section

variable (totalTrainingSteps : Nat) (keepsGenerating : Nat → Bool) (fuel : Nat) (short long : List α)

/-- The loop over the epochs: the batches of each. -/
def runEpochs : Nat → Nat → Flags → Option (List (List α))
  | 0, _, _ => some []
  | epochs + 1, genSteps, flags =>
    match runEpoch totalTrainingSteps keepsGenerating fuel genSteps
      (alternateIterators flags (iterOf short) (iterOf long)) with
    | none => none
    | some epoch =>
      if epoch.returned then some [epoch.batches]
      else (runEpochs epochs epoch.genSteps epoch.flags).map (epoch.batches :: ·)

/-- `fit`, without a checkpoint to resume from. -/
def fit (totalEpochs : Nat) : Option (List (List α)) :=
  runEpochs ((short.length + long.length) * totalEpochs) keepsGenerating fuel short long totalEpochs 1 {}

end

/-- The batches of two dataloaders in turns, while both last. -/
def alternate : List α → List α → List α
  | [], ys => ys
  | xs, [] => xs
  | x :: xs, y :: ys => x :: y :: alternate xs ys

/-- The training ends, and every epoch has had all batches of both dataloaders in turns. -/
def CoversBoth (keepsGenerating : Nat → Bool) (short long : List α) (totalEpochs : Nat) : Prop :=
  ∃ fuel, fit keepsGenerating fuel short long totalEpochs =
    some (List.replicate totalEpochs (alternate short long))

/-! ## The short dataloader alone -/

variable {totalTrainingSteps : Nat} {keepsGenerating : Nat → Bool} {g : Generator α} {genSteps : Nat}

theorem nextShort_cons {batch : α} {rest : List α} (hflag : g.flags.stopShort = false)
    (hiter : g.iterShort = some (batch :: rest)) : g.nextShort = (some batch, { g with iterShort := some rest }) := by
  unfold Generator.nextShort
  rw [hflag, hiter, if_neg Bool.false_ne_true]

theorem nextShort_nil (hflag : g.flags.stopShort = false) (hiter : g.iterShort = some []) :
    g.nextShort = (none, { g with flags := { g.flags with stopShort := true } }) := by
  unfold Generator.nextShort
  rw [hflag, hiter, if_neg Bool.false_ne_true]

theorem nextShort_stopped (hflag : g.flags.stopShort = true) : g.nextShort = (none, g) := by
  unfold Generator.nextShort
  rw [hflag, if_pos rfl]

/-- A generator that goes on takes a step of `nextShort`. -/
theorem step_going (h : g.half = .second ∨ ¬ (g.flags.stopShort = true ∧ g.flags.stopLong = true)) :
    ∃ half, g.step = some (g.nextShort.1, { g.nextShort.2 with half }) := by
  unfold Generator.step
  cases hhalf : g.half with
  | first =>
    rw [if_neg (h.resolve_left (by rw [hhalf]; decide))]
    exact ⟨.second, rfl⟩
  | second => exact ⟨.first, rfl⟩

/-- With both iterators stopped the generator returns. -/
theorem runEpoch_stopped {fuel : Nat} (hshort : g.flags.stopShort = true) (hlong : g.flags.stopLong = true)
    (hfirst : g.half = .first) :
    runEpoch totalTrainingSteps keepsGenerating (fuel + 1) genSteps g = some ⟨[], g.flags, genSteps, false⟩ := by
  have hstep : g.step = none := by
    unfold Generator.step
    rw [hfirst]
    exact if_pos ⟨hshort, hlong⟩
  rw [runEpoch, hstep]

/-- Without a long iterator the batches of the short one come, one by one. -/
theorem runEpoch_short (totalTrainingSteps : Nat) (keepsGenerating : Nat → Bool) (genSteps : Nat) {rest : List α}
    (hlong : g.flags.stopLong = true) (hshort : g.flags.stopShort = false) (hiter : g.iterShort = some rest)
    (hsteps : genSteps + rest.length ≤ totalTrainingSteps + 1) :
    ∃ fuel epoch, runEpoch totalTrainingSteps keepsGenerating fuel genSteps g = some epoch ∧ epoch.batches = rest := by
  induction rest generalizing genSteps g with
  | nil =>
    obtain ⟨half, hstep⟩ := step_going (g := g) (.inr fun h => by rw [hshort] at h; exact Bool.false_ne_true h.1)
    rw [nextShort_nil hshort hiter] at hstep
    cases half with
    | first =>
      refine ⟨2, ⟨[], { g.flags with stopShort := true }, genSteps, false⟩, ?_, rfl⟩
      rw [runEpoch, hstep]
      exact runEpoch_stopped rfl hlong rfl
    | second =>
      refine ⟨3, ⟨[], { g.flags with stopShort := true }, genSteps, false⟩, ?_, rfl⟩
      rw [runEpoch, hstep]
      dsimp only
      rw [runEpoch]
      exact runEpoch_stopped rfl hlong rfl
  | cons batch rest ih =>
    obtain ⟨half, hstep⟩ := step_going (g := g) (.inr fun h => by rw [hshort] at h; exact Bool.false_ne_true h.1)
    rw [nextShort_cons hshort hiter] at hstep
    rw [List.length_cons] at hsteps
    by_cases hlast : totalTrainingSteps ≤ genSteps ∧ keepsGenerating genSteps = false
    · -- the last step ends the training
      have hrest : rest = [] := List.length_eq_zero_iff.mp (by omega)
      refine ⟨1, ⟨[batch], g.flags, genSteps, true⟩, ?_, ?_⟩
      · rw [runEpoch, hstep]
        exact if_pos hlast
      · rw [hrest]
    · obtain ⟨fuel, epoch, hepoch, hbatches⟩ := ih (genSteps + 1)
        (g := { g with iterShort := some rest, half }) hlong hshort rfl (by omega)
      refine ⟨fuel + 1, { epoch with batches := batch :: epoch.batches }, ?_, ?_⟩
      · rw [runEpoch, hstep]
        dsimp only
        rw [if_neg hlast, hepoch]
        rfl
      · rw [hbatches]

/-- Before the last step nothing but the end of the short iterator ends the epoch, and both flags stay set. -/
theorem runEpoch_short_flags (rest : List α) {fuel : Nat} {epoch : Epoch α} (hlong : g.flags.stopLong = true)
    (hshort : g.flags.stopShort = false ∧ g.iterShort = some rest ∨ g.flags.stopShort = true ∧ rest = [])
    (hsteps : genSteps + rest.length ≤ totalTrainingSteps)
    (h : runEpoch totalTrainingSteps keepsGenerating fuel genSteps g = some epoch) :
    epoch.returned = false ∧ epoch.flags = ⟨true, true⟩ := by
  induction fuel generalizing rest genSteps g epoch with
  | zero => cases h
  | succ fuel ih =>
    rw [runEpoch] at h
    rcases hshort with ⟨hflag, hiter⟩ | ⟨hflag, rfl⟩
    · obtain ⟨half, hstep⟩ := step_going (g := g) (.inr fun h => by rw [hflag] at h; exact Bool.false_ne_true h.1)
      cases rest with
      | nil =>
        rw [nextShort_nil hflag hiter] at hstep
        rw [hstep] at h
        refine ih [] ?_ (.inr ⟨?_, rfl⟩) hsteps h
        · exact hlong
        · rfl
      | cons batch rest =>
        rw [nextShort_cons hflag hiter] at hstep
        rw [List.length_cons] at hsteps
        rw [hstep] at h
        dsimp only at h
        have hnot : ¬ (totalTrainingSteps ≤ genSteps ∧ keepsGenerating genSteps = false) := fun hlast => by
          omega
        rw [if_neg hnot] at h
        obtain ⟨epoch', hepoch', rfl⟩ := Option.map_eq_some_iff.mp h
        have hnext : epoch'.returned = false ∧ epoch'.flags = ⟨true, true⟩ := by
          refine ih rest ?_ (.inl ⟨?_, rfl⟩) ?_ hepoch'
          · exact hlong
          · exact hflag
          · omega
        exact hnext
    · by_cases hfirst : g.half = .first
      · have hstep : g.step = none := by
          unfold Generator.step
          rw [hfirst]
          exact if_pos ⟨hflag, hlong⟩
        rw [hstep] at h
        cases h
        refine ⟨rfl, ?_⟩
        show Flags.mk g.flags.stopShort g.flags.stopLong = ⟨true, true⟩
        rw [hflag, hlong]
      · obtain ⟨half, hstep⟩ := step_going (g := g) (.inl (by cases hhalf : g.half <;> simp_all))
        rw [nextShort_stopped hflag] at hstep
        rw [hstep] at h
        refine ih [] ?_ (.inr ⟨?_, rfl⟩) hsteps h
        · exact hlong
        · exact hflag

/-- The long iterator is never asked: an epoch with one does not end. -/
theorem runEpoch_long (rest : List α) {fuel : Nat} (hlong : g.flags.stopLong = false)
    (hshort : g.flags.stopShort = false ∧ g.iterShort = some rest ∨ g.flags.stopShort = true ∧ rest = [])
    (hsteps : genSteps + rest.length ≤ totalTrainingSteps) :
    runEpoch totalTrainingSteps keepsGenerating fuel genSteps g = none := by
  induction fuel generalizing rest genSteps g with
  | zero => rfl
  | succ fuel ih =>
    obtain ⟨half, hstep⟩ := step_going (g := g) (.inr fun h => by rw [hlong] at h; exact Bool.false_ne_true h.2)
    rw [runEpoch]
    rcases hshort with ⟨hflag, hiter⟩ | ⟨hflag, rfl⟩
    · cases rest with
      | nil =>
        rw [nextShort_nil hflag hiter] at hstep
        rw [hstep]
        exact ih [] hlong (.inr ⟨rfl, rfl⟩) hsteps
      | cons batch rest =>
        rw [nextShort_cons hflag hiter] at hstep
        rw [List.length_cons] at hsteps
        rw [hstep]
        dsimp only
        have hnot : ¬ (totalTrainingSteps ≤ genSteps ∧ keepsGenerating genSteps = false) := fun hlast => by
          omega
        rw [if_neg hnot, Option.map_eq_none_iff]
        refine ih rest ?_ (.inl ⟨?_, rfl⟩) ?_
        · exact hlong
        · exact hflag
        · omega
    · rw [nextShort_stopped hflag] at hstep
      rw [hstep]
      exact ih [] hlong (.inr ⟨hflag, rfl⟩) hsteps

/-! ## Epochs -/

theorem iterOf_nil : iterOf ([] : List α) = none := if_pos rfl

theorem iterOf_of_ne {dataloader : List α} (h : dataloader ≠ []) : iterOf dataloader = some dataloader := if_neg h

theorem alternate_nil (short : List α) : alternate short [] = short := by
  cases short <;> rfl

theorem runEpochs_nil {fuel epochs : Nat} {flags : Flags} :
    runEpochs totalTrainingSteps keepsGenerating (fuel + 1) ([] : List α) [] epochs genSteps flags =
      some (List.replicate epochs []) := by
  induction epochs generalizing genSteps flags with
  | zero => rfl
  | succ epochs ih =>
    rw [runEpochs, iterOf_nil, runEpoch_stopped rfl rfl rfl]
    dsimp only
    rw [if_neg Bool.false_ne_true, ih]
    rfl

/-- An epoch that starts with both flags set has no batch. -/
theorem runEpochs_stopped {fuel epochs : Nat} {short long : List α} {batches : List (List α)}
    (h : runEpochs totalTrainingSteps keepsGenerating fuel short long (epochs + 1) genSteps ⟨true, true⟩ =
      some batches) : batches.head? = some [] := by
  rw [runEpochs] at h
  cases fuel with
  | zero => cases h
  | succ fuel =>
    rw [runEpoch_stopped (by simp [alternateIterators]) (by simp [alternateIterators]) rfl] at h
    obtain ⟨rest, -, rfl⟩ := Option.map_eq_some_iff.mp h
    rfl

/-- Both dataloaders are covered only if the long one is empty, and there is one epoch, or nothing to cover. -/
theorem coversBoth_iff (keepsGenerating : Nat → Bool) (short long : List α) (totalEpochs : Nat) :
    CoversBoth keepsGenerating short long totalEpochs ↔
      totalEpochs = 0 ∨ long = [] ∧ (short = [] ∨ totalEpochs = 1) := by
  constructor
  · rintro ⟨fuel, hfit⟩
    unfold fit at hfit
    rcases totalEpochs with - | epochs
    · exact .inl rfl
    right
    by_cases hlong : long = []
    · refine ⟨hlong, ?_⟩
      rw [hlong] at hfit
      by_cases hshort : short = []
      · exact .inl hshort
      · right
        rcases epochs with - | epochs
        · rfl
        exfalso
        rw [runEpochs] at hfit
        cases hepoch : runEpoch ((short.length + [].length) * (epochs + 1 + 1)) keepsGenerating fuel 1
            (alternateIterators {} (iterOf short) (iterOf ([] : List α))) with
        | none =>
          rw [hepoch] at hfit
          cases hfit
        | some epoch =>
          rw [hepoch] at hfit
          dsimp only at hfit
          have hpos : 0 < short.length := List.length_pos_iff.mpr hshort
          rw [iterOf_nil, iterOf_of_ne hshort] at hepoch
          obtain ⟨hreturned, hflags⟩ := runEpoch_short_flags short rfl (.inl ⟨rfl, rfl⟩)
            (by
              rw [List.length_nil, Nat.add_zero, Nat.mul_add, Nat.mul_add]
              omega) hepoch
          -- the flags are still set in the second epoch
          rw [hreturned, if_neg Bool.false_ne_true, hflags] at hfit
          obtain ⟨rest, hrest, heq⟩ := Option.map_eq_some_iff.mp hfit
          have hhead := runEpochs_stopped hrest
          rw [alternate_nil, List.replicate_succ, List.replicate_succ] at heq
          obtain ⟨-, rfl⟩ := List.cons.inj heq
          rw [List.head?_cons, Option.some.injEq] at hhead
          exact hshort hhead
    · exfalso
      have hpos : 0 < long.length := List.length_pos_iff.mpr hlong
      have hsteps : 1 + short.length ≤ (short.length + long.length) * (epochs + 1) := by
        rw [Nat.mul_add]
        omega
      rw [runEpochs, iterOf_of_ne hlong] at hfit
      by_cases hshort : short = []
      · rw [hshort] at hsteps hfit
        rw [iterOf_nil, runEpoch_long [] rfl (.inr ⟨rfl, rfl⟩) hsteps] at hfit
        cases hfit
      · rw [iterOf_of_ne hshort, runEpoch_long short rfl (.inl ⟨rfl, rfl⟩) hsteps] at hfit
        cases hfit
  · rintro (rfl | ⟨rfl, rfl | rfl⟩)
    · exact ⟨0, rfl⟩
    · exact ⟨1, runEpochs_nil⟩
    · by_cases hshort : short = []
      · rw [hshort]
        exact ⟨1, runEpochs_nil⟩
      · obtain ⟨fuel, epoch, hepoch, hbatches⟩ := runEpoch_short short.length keepsGenerating 1
          (g := alternateIterators {} (some short) none) rfl rfl rfl (by omega)
        refine ⟨fuel, ?_⟩
        unfold fit
        rw [List.length_nil, Nat.add_zero, Nat.mul_one, runEpochs, iterOf_nil, iterOf_of_ne hshort, hepoch,
          alternate_nil]
        dsimp only
        rw [hbatches]
        split <;> rfl

/-- One batch each: the long one's is never yielded, and the epoch does not end. -/
theorem long_batches_lost : ¬ CoversBoth (fun _ => false) ["short"] ["long"] 1 := by
  rintro ⟨fuel, hfit⟩
  unfold fit at hfit
  rw [runEpochs, iterOf_of_ne (List.cons_ne_nil _ _), iterOf_of_ne (List.cons_ne_nil _ _),
    runEpoch_long ["short"] rfl (.inl ⟨rfl, rfl⟩) (by decide)] at hfit
  cases hfit

end Yuan.Trainer
