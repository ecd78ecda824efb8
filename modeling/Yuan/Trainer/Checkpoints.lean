import Yuan.Trainer.AlternateIterators
import Yuan.Lib.Runs

/-!
# Checkpoints of the dataloaders

A checkpoint stores the state of a dataloader that has not stopped, and the flags are guessed from the files
when the training is resumed: one file without the other means that the other dataloader had stopped. Two
missing files would be read as a start from scratch.

A run may save in any step, stop at any time and be resumed from any checkpoint. Batches are only taken from the
short dataloader, so in a step it has not stopped, and its file is there.
-/

namespace Yuan.Trainer

variable {α D S : Type}

/-! ## The trainer -/

/-- `torchdata.stateful_dataloader.StatefulDataLoader`, with what is published of it: dataloaders `D`, each with the
batches of its dataset, and states `S`. An iterator is the list of the batches that it still gives. A dataloader that
has loaded the state of one on the same dataset goes on where the iterator of that one was. -/
structure StatefulDataLoader (α D S : Type) where
  batches : D → List α
  iter : D → List α × D
  stateDict : D → (left : List α) → S
  loadStateDict : D → S → D
  batches_iter : ∀ d, batches (iter d).2 = batches d
  batches_loadStateDict : ∀ d state, batches (loadStateDict d state) = batches d
  iter_loadStateDict : ∀ d d' left, batches d = batches d' → left <:+ (iter d').1 →
    (iter (loadStateDict d (stateDict (iter d').2 left))).1 = left

namespace StatefulDataLoader

variable (loaders : StatefulDataLoader α D S)

/-- `if dataloader`: there is one, and it has batches. -/
def truthy (loader : Option D) : Bool := loader.any fun d => !(loaders.batches d).isEmpty

/-- `iter(dataloader) if dataloader else None`. -/
def iter? (loader : Option D) : Option (List α) :=
  if loaders.truthy loader then loader.map fun d => (loaders.iter d).1 else none

/-- The dataloader behind it. -/
def afterIter (loader : Option D) : Option D :=
  if loaders.truthy loader then loader.map fun d => (loaders.iter d).2 else loader

/-- `state_dict`, of a dataloader with an iterator. -/
def savedState (loader : Option D) (iterator : Option (List α)) : Option S :=
  loader.bind fun d => iterator.map (loaders.stateDict d)

/-- `load_state_dict`, if a state was saved; a missing dataloader does not have it. -/
def loadState (loader : Option D) : Option S → Option (Option D)
  | none => some loader
  | some state => loader.map fun d => some (loaders.loadStateDict d state)

end StatefulDataLoader

/-- `4k_data.pt` and `16k_data.pt` in the folder of a step. -/
structure StepFolder (S : Type) where
  data4k : Option S := none
  data16k : Option S := none

/-- The part of the trainer that deals with data. -/
structure RayDAPOTrainer (α D : Type) where
  train4kDataloader : Option D
  train16kDataloader : Option D
  flags : Flags := {}
  /-- The generator of the epoch, if one is running. -/
  generator : Option (Generator α) := none

namespace RayDAPOTrainer

/-- A fresh trainer: the flags are cleared before a checkpoint is loaded. -/
def fresh (short long : Option D) : RayDAPOTrainer α D where
  train4kDataloader := short
  train16kDataloader := long

variable (loaders : StatefulDataLoader α D S) (t : RayDAPOTrainer α D)

/-- `_save_checkpoint`, into a folder that may have been there before. -/
def saveCheckpoint (folder : StepFolder S) : StepFolder S where
  data4k :=
    if loaders.truthy t.train4kDataloader ∧ t.flags.stopShort = false then
      loaders.savedState t.train4kDataloader (t.generator.bind (·.iterShort))
    else folder.data4k
  data16k :=
    if loaders.truthy t.train16kDataloader ∧ t.flags.stopLong = false then
      loaders.savedState t.train16kDataloader (t.generator.bind (·.iterLong))
    else folder.data16k

/-- `_load_checkpoint`. Where just one file is there, the other dataloader is taken to have run out. -/
def loadCheckpoint (folder : StepFolder S) : Option (RayDAPOTrainer α D) := do
  let train16kDataloader ← loaders.loadState t.train16kDataloader folder.data16k
  let train4kDataloader ← loaders.loadState t.train4kDataloader folder.data4k
  return { t with
    train4kDataloader, train16kDataloader
    flags := {
      stopLong := folder.data16k.isNone && folder.data4k.isSome
      stopShort := folder.data4k.isNone && folder.data16k.isSome } }

/-- A new epoch. -/
def startEpoch : RayDAPOTrainer α D :=
  let g := alternateIterators t.flags (loaders.iter? t.train4kDataloader) (loaders.iter? t.train16kDataloader)
  { train4kDataloader := loaders.afterIter t.train4kDataloader
    train16kDataloader := loaders.afterIter t.train16kDataloader
    flags := g.flags
    generator := some g }

end RayDAPOTrainer

/-! ## Runs -/

/-- A training with its checkpoints. The flag says that a batch is being trained on. -/
structure Training (α D S : Type) where
  trainer : RayDAPOTrainer α D
  inStep : Bool := false
  globalSteps : Nat := 0
  folders : Nat → Option (StepFolder S) := fun _ => none

namespace Training

inductive Op where
  /-- `fit` in a fresh trainer, from scratch or from the checkpoint of a step. -/
  | fit (resumeStep : Option Nat)
  | startEpoch
  /-- The generator goes on. -/
  | resumeGenerator
  | saveCheckpoint
  /-- The end of a step; one that leaves no prompt is not counted. -/
  | endStep (counted : Bool)

variable (loaders : StatefulDataLoader α D S) (short long : Option D)

/-- One operation, in a training with the dataloaders that a fresh trainer makes. -/
def step (s : Training α D S) : Op → Option (Training α D S)
  | .fit none => some { s with trainer := .fresh short long, inStep := false, globalSteps := 1 }
  | .fit (some n) => do
    let folder ← s.folders n
    let trainer ← (RayDAPOTrainer.fresh short long).loadCheckpoint loaders folder
    return { s with trainer, inStep := false, globalSteps := n + 1 }
  | .startEpoch =>
    match s.trainer.generator with
    | none => some { s with trainer := s.trainer.startEpoch loaders }
    | some _ => none
  | .resumeGenerator =>
    match s.inStep, s.trainer.generator with
    | false, some g =>
      match g.step with
      | none => some { s with trainer := { s.trainer with generator := none } }
      | some (batch, g) =>
        some { s with trainer := { s.trainer with flags := g.flags, generator := some g }, inStep := batch.isSome }
    | _, _ => none
  | .saveCheckpoint =>
    if s.inStep then
      let folder := s.trainer.saveCheckpoint loaders ((s.folders s.globalSteps).getD {})
      some { s with folders := fun n => if n = s.globalSteps then some folder else s.folders n }
    else none
  | .endStep counted =>
    if s.inStep then some { s with inStep := false, globalSteps := s.globalSteps + counted.toNat } else none

/-- The trainings on two datasets, either of which may be missing. -/
def Reachable : Training α D S → Prop :=
  Reached (step loaders short long) { trainer := .fresh short long }

/-! ## What holds in every run -/

variable {loaders short long} {s s' : Training α D S} {loader dataset : Option D} {iterator : Option (List α)}

theorem truthy_congr {loader loader' : Option D} (h : loader.map loaders.batches = loader'.map loaders.batches) :
    loaders.truthy loader = loaders.truthy loader' := by
  have hany (l : Option D) : loaders.truthy l = (l.map loaders.batches).any fun batches => !batches.isEmpty := by
    cases l <;> rfl
  rw [hany, hany, h]

theorem isSome_iter? (loader : Option D) : (loaders.iter? loader).isSome = loaders.truthy loader := by
  unfold StatefulDataLoader.iter?
  split
  · next h =>
    cases loader with
    | none => cases h
    | some d => exact h.symm
  · next h => exact (Bool.eq_false_iff.mpr h).symm

theorem map_batches_afterIter : (loaders.afterIter loader).map loaders.batches = loader.map loaders.batches := by
  unfold StatefulDataLoader.afterIter
  split
  · rw [Option.map_map]
    exact Option.map_congr fun d _ => loaders.batches_iter d
  · rfl

/-- What is left of an iterator that a dataloader on this dataset has made. -/
def Going (loaders : StatefulDataLoader α D S) (dataset loader : Option D) (iterator : Option (List α)) : Prop :=
  ∀ left, iterator = some left → ∃ d d', dataset = some d ∧ loaders.batches d = loaders.batches d' ∧
    loader = some (loaders.iter d').2 ∧ left <:+ (loaders.iter d').1

theorem going_iter? (h : loader.map loaders.batches = dataset.map loaders.batches) :
    Going loaders dataset (loaders.afterIter loader) (loaders.iter? loader) := by
  intro left hleft
  unfold StatefulDataLoader.iter? at hleft
  unfold StatefulDataLoader.afterIter
  split at hleft
  · next htruthy =>
    obtain ⟨d', rfl, rfl⟩ := Option.map_eq_some_iff.mp hleft
    obtain ⟨d, rfl, hbatches⟩ := Option.map_eq_some_iff.mp h.symm
    exact ⟨d, d', rfl, hbatches, by rw [if_pos htruthy]; rfl, List.suffix_refl _⟩
  · cases hleft

theorem isSome_savedState (h : Going loaders dataset loader iterator) :
    (loaders.savedState loader iterator).isSome = iterator.isSome := by
  cases iterator with
  | none => cases loader <;> rfl
  | some left =>
    obtain ⟨d, d', -, -, rfl, -⟩ := h left rfl
    rfl

/-- A generator knows which iterators there are, and that a missing long one has stopped. -/
structure Started (loaders : StatefulDataLoader α D S) (short long : Option D) (t : RayDAPOTrainer α D)
    (g : Generator α) : Prop where
  iterShort : g.iterShort.isSome = loaders.truthy short
  iterLong : g.iterLong.isSome = loaders.truthy long
  goingShort : Going loaders short t.train4kDataloader g.iterShort
  goingLong : Going loaders long t.train16kDataloader g.iterLong
  stopLong : g.flags.stopLong = !loaders.truthy long

/-- The long iterator is never asked, so it never stops; in a step the short one has not stopped. Each folder
has a file for each dataset with batches. -/
structure Ok (loaders : StatefulDataLoader α D S) (short long : Option D) (s : Training α D S) : Prop where
  dataset4k : s.trainer.train4kDataloader.map loaders.batches = short.map loaders.batches
  dataset16k : s.trainer.train16kDataloader.map loaders.batches = long.map loaders.batches
  stopLong : loaders.truthy long = true → s.trainer.flags.stopLong = false
  generator : ∀ g, s.trainer.generator = some g → g.flags = s.trainer.flags ∧ Started loaders short long s.trainer g
  inStep : s.inStep = true →
    s.trainer.generator.isSome = true ∧ s.trainer.flags.stopShort = false ∧ loaders.truthy short = true
  folders : ∀ n folder, s.folders n = some folder →
    folder.data4k.isSome = true ∧ loaders.truthy short = true ∧ folder.data16k.isSome = loaders.truthy long

theorem ok_fresh (s : Training α D S) (globalSteps : Nat)
    (hfolders : ∀ n folder, s.folders n = some folder →
      folder.data4k.isSome = true ∧ loaders.truthy short = true ∧ folder.data16k.isSome = loaders.truthy long) :
    Ok loaders short long { s with trainer := .fresh short long, inStep := false, globalSteps } where
  dataset4k := rfl
  dataset16k := rfl
  stopLong _ := rfl
  generator g hg := by cases hg
  inStep h := by cases h
  folders := hfolders

theorem Started.next {t : RayDAPOTrainer α D} {g : Generator α} (h : Started loaders short long t g)
    {batch : Option α} {g' : Generator α} (hstep : g.step = some (batch, g')) :
    Started loaders short long t g' ∧
      (batch.isSome = true → g'.flags.stopShort = false ∧ loaders.truthy short = true) := by
  have hnext : ∀ half, Started loaders short long t { g.nextShort.2 with half } ∧
      (g.nextShort.1.isSome = true → g.nextShort.2.flags.stopShort = false ∧ loaders.truthy short = true) := by
    intro half
    unfold Generator.nextShort
    split
    · exact ⟨⟨h.iterShort, h.iterLong, h.goingShort, h.goingLong, h.stopLong⟩, fun hsome => by cases hsome⟩
    · next hstop =>
      split
      · next b rest hiter =>
        have hlive := h.iterShort
        rw [hiter] at hlive
        have hgoing : Going loaders short t.train4kDataloader (some rest) := by
          intro left hleft
          cases hleft
          obtain ⟨d, d', hdataset, hbatches, hloader, hsuffix⟩ := h.goingShort _ hiter
          exact ⟨d, d', hdataset, hbatches, hloader, (List.suffix_cons b rest).trans hsuffix⟩
        exact ⟨⟨hlive, h.iterLong, hgoing, h.goingLong, h.stopLong⟩,
          fun _ => ⟨Bool.eq_false_iff.mpr hstop, hlive.symm⟩⟩
      · exact ⟨⟨h.iterShort, h.iterLong, h.goingShort, h.goingLong, h.stopLong⟩, fun hsome => by cases hsome⟩
  unfold Generator.step at hstep
  split at hstep
  · split at hstep
    · cases hstep
    · obtain ⟨rfl, rfl⟩ := Prod.mk.inj (Option.some.inj hstep)
      exact hnext _
  · obtain ⟨rfl, rfl⟩ := Prod.mk.inj (Option.some.inj hstep)
    exact hnext _

/-- A dataloader after `_load_checkpoint`. -/
def resumedLoader (loaders : StatefulDataLoader α D S) (loader : Option D) (state : Option S) : Option D :=
  loader.map fun d => state.elim d (loaders.loadStateDict d)

theorem map_batches_resumedLoader (state : Option S) :
    (resumedLoader loaders loader state).map loaders.batches = loader.map loaders.batches := by
  unfold resumedLoader
  rw [Option.map_map]
  refine Option.map_congr fun d _ => ?_
  cases state with
  | none => rfl
  | some state => exact loaders.batches_loadStateDict d state

theorem loadState_eq {state : Option S} (h : state.isSome = true → loader.isSome = true) :
    loaders.loadState loader state = some (resumedLoader loaders loader state) := by
  cases state with
  | none => cases loader <;> rfl
  | some state =>
    obtain ⟨d, rfl⟩ := Option.isSome_iff_exists.mp (h rfl)
    rfl

theorem isSome_of_truthy (h : loaders.truthy loader = true) : loader.isSome = true := by
  cases loader with
  | none => cases h
  | some d => rfl

/-- The trainer after a checkpoint is loaded: the short dataloader goes on with the rest of its batches, and so
does the long one, if its state was saved. -/
def resumedFrom (loaders : StatefulDataLoader α D S) (short long : Option D) (folder : StepFolder S) :
    RayDAPOTrainer α D where
  train4kDataloader := resumedLoader loaders short folder.data4k
  train16kDataloader := resumedLoader loaders long folder.data16k
  flags := ⟨false, !loaders.truthy long⟩

theorem loadCheckpoint_fresh {folder : StepFolder S} (hdata4k : folder.data4k.isSome = true)
    (hshort : loaders.truthy short = true) (hdata16k : folder.data16k.isSome = loaders.truthy long) :
    (RayDAPOTrainer.fresh short long).loadCheckpoint loaders folder = some (resumedFrom loaders short long folder) := by
  have hload4k : loaders.loadState short folder.data4k = some (resumedLoader loaders short folder.data4k) :=
    loadState_eq fun _ => isSome_of_truthy hshort
  have hload16k : loaders.loadState long folder.data16k = some (resumedLoader loaders long folder.data16k) :=
    loadState_eq fun hsome => isSome_of_truthy (hdata16k ▸ hsome)
  unfold RayDAPOTrainer.loadCheckpoint resumedFrom RayDAPOTrainer.fresh
  rw [hload16k, hload4k, ← hdata16k]
  simp only [Option.bind_eq_bind, Option.bind_some, Option.pure_def, hdata4k, Bool.and_true, ← Option.not_isSome,
    Bool.not_true, Bool.false_and]

section

variable (h : Ok loaders short long s)
include h

/-- No file of a long dataset is left over where there is none. -/
theorem Ok.stale (n : Nat) : ((s.folders n).getD {}).data16k.isSome = true → loaders.truthy long = true := by
  intro hsome
  cases hfolder : s.folders n with
  | none =>
    rw [hfolder] at hsome
    cases hsome
  | some folder =>
    rw [hfolder] at hsome
    rw [← (h.folders n folder hfolder).2.2]
    exact hsome

/-- What is written in a step: where both iterators are. -/
theorem Ok.saved (hin : s.inStep = true) {folder : StepFolder S}
    (hfolder : folder.data16k.isSome = true → loaders.truthy long = true) :
    ∃ g, s.trainer.generator = some g ∧ Started loaders short long s.trainer g ∧ g.flags = s.trainer.flags ∧
      s.trainer.saveCheckpoint loaders folder = ⟨loaders.savedState s.trainer.train4kDataloader g.iterShort,
        loaders.savedState s.trainer.train16kDataloader g.iterLong⟩ := by
  obtain ⟨hsome, hstop, hlive⟩ := h.inStep hin
  obtain ⟨g, hg⟩ := Option.isSome_iff_exists.mp hsome
  obtain ⟨hflags, hstarted⟩ := h.generator g hg
  refine ⟨g, hg, hstarted, hflags, ?_⟩
  unfold RayDAPOTrainer.saveCheckpoint
  rw [truthy_congr h.dataset4k, truthy_congr h.dataset16k, hg, if_pos ⟨hlive, hstop⟩]
  cases hlong : loaders.truthy long with
  | true =>
    rw [if_pos ⟨rfl, h.stopLong hlong⟩]
    rfl
  | false =>
    -- there is no iterator, and no file
    have hfile : folder.data16k = none := by
      rw [← Option.not_isSome_iff_eq_none]
      intro hsome
      rw [hfolder hsome] at hlong
      cases hlong
    have hiter : g.iterLong = none := by
      rw [← Option.not_isSome_iff_eq_none, hstarted.iterLong, hlong]
      exact Bool.false_ne_true
    rw [if_neg (by simp), hfile, hiter]
    cases s.trainer.train16kDataloader <;> rfl

theorem Ok.saveCheckpoint (hin : s.inStep = true) :
    let folder := s.trainer.saveCheckpoint loaders ((s.folders s.globalSteps).getD {})
    folder.data4k.isSome = true ∧ loaders.truthy short = true ∧ folder.data16k.isSome = loaders.truthy long := by
  obtain ⟨g, -, hstarted, -, hsaved⟩ := h.saved hin (h.stale s.globalSteps)
  have hlive := (h.inStep hin).2.2
  dsimp only
  rw [hsaved, isSome_savedState hstarted.goingShort, isSome_savedState hstarted.goingLong]
  exact ⟨hstarted.iterShort.trans hlive, hlive, hstarted.iterLong⟩

theorem ok_step {op : Op} (hstep : s.step loaders short long op = some s') : Ok loaders short long s' := by
  cases op with
  | fit resumeStep =>
    cases resumeStep with
    | none =>
      cases hstep
      exact ok_fresh s 1 h.folders
    | some n =>
      obtain ⟨folder, hfolder, hstep⟩ := Option.bind_eq_some_iff.mp hstep
      obtain ⟨resumed, hload, hstep⟩ := Option.bind_eq_some_iff.mp hstep
      cases hstep
      obtain ⟨hdata4k, hshort, hdata16k⟩ := h.folders n folder hfolder
      rw [loadCheckpoint_fresh hdata4k hshort hdata16k] at hload
      cases hload
      refine ⟨map_batches_resumedLoader _, map_batches_resumedLoader _, fun hlive => ?_, fun g hg => ?_,
        fun hin => ?_, h.folders⟩
      · show (!loaders.truthy long) = false
        rw [hlive]
        rfl
      · cases hg
      · cases hin
  | startEpoch =>
    dsimp only [step] at hstep
    split at hstep
    · cases hstep
      have hshort := (isSome_iter? s.trainer.train4kDataloader).trans (truthy_congr h.dataset4k)
      have hlong := (isSome_iter? s.trainer.train16kDataloader).trans (truthy_congr h.dataset16k)
      have hstop : ((loaders.iter? s.trainer.train16kDataloader).isNone || s.trainer.flags.stopLong) =
          !loaders.truthy long := by
        rw [← Option.not_isSome, hlong]
        cases hlive : loaders.truthy long with
        | true => rw [h.stopLong hlive]; rfl
        | false => rfl
      refine ⟨map_batches_afterIter.trans h.dataset4k, map_batches_afterIter.trans h.dataset16k, fun hlive => ?_,
        fun g hg => ?_, fun hin => ?_, h.folders⟩
      · refine hstop.trans ?_
        rw [hlive]
        rfl
      · cases hg
        exact ⟨rfl, hshort, hlong, going_iter? h.dataset4k, going_iter? h.dataset16k, hstop⟩
      · next hnone =>
        have hsome := (h.inStep hin).1
        rw [hnone] at hsome
        cases hsome
    · cases hstep
  | resumeGenerator =>
    dsimp only [step] at hstep
    split at hstep
    · next g hidle hg =>
      obtain ⟨hflags, hstarted⟩ := h.generator g hg
      split at hstep
      · cases hstep
        refine ⟨h.dataset4k, h.dataset16k, h.stopLong, fun g hg => ?_, fun hin => ?_, h.folders⟩
        · cases hg
        · rw [hidle] at hin
          cases hin
      · next batch g' hnext =>
        cases hstep
        obtain ⟨hstarted', hbatch⟩ := hstarted.next hnext
        refine ⟨h.dataset4k, h.dataset16k, fun hlive => ?_, fun g hg => ?_, fun hin => ?_, h.folders⟩
        · refine hstarted'.stopLong.trans ?_
          rw [hlive]
          rfl
        · cases hg
          obtain ⟨hiterShort, hiterLong, hgoingShort, hgoingLong, hstop⟩ := hstarted'
          exact ⟨rfl, hiterShort, hiterLong, hgoingShort, hgoingLong, hstop⟩
        · exact ⟨rfl, hbatch hin⟩
    · cases hstep
  | saveCheckpoint =>
    dsimp only [step] at hstep
    split at hstep
    · next hin =>
      cases hstep
      refine ⟨h.dataset4k, h.dataset16k, h.stopLong, h.generator, h.inStep, fun n folder hfolder => ?_⟩
      dsimp only at hfolder
      split at hfolder
      · cases hfolder
        exact h.saveCheckpoint hin
      · exact h.folders n folder hfolder
    · cases hstep
  | endStep counted =>
    dsimp only [step] at hstep
    split at hstep
    · cases hstep
      exact ⟨h.dataset4k, h.dataset16k, h.stopLong, h.generator, fun hin => (by cases hin), h.folders⟩
    · cases hstep

end

theorem Reachable.ok (h : Reachable loaders short long s) : Ok loaders short long s :=
  h.invariant (ok_fresh { trainer := .fresh short long } 0 fun _ _ hfolder => by cases hfolder)
    fun _ _ _ hok _ hstep => ok_step hok hstep

/-- The first iterator after a resumption goes on where the saved one was. -/
theorem iter?_resumedLoader (hgoing : Going loaders dataset loader iterator)
    (hlive : iterator.isSome = loaders.truthy dataset) :
    loaders.iter? (resumedLoader loaders dataset (loaders.savedState loader iterator)) = iterator := by
  have htruthy : loaders.truthy (resumedLoader loaders dataset (loaders.savedState loader iterator)) =
      loaders.truthy dataset := truthy_congr (map_batches_resumedLoader _)
  rw [StatefulDataLoader.iter?, htruthy, ← hlive]
  cases iterator with
  | none => rfl
  | some left =>
    obtain ⟨d, d', rfl, hbatches, rfl, hsuffix⟩ := hgoing left rfl
    exact congrArg some (loaders.iter_loadStateDict d d' left hbatches hsuffix)

/-- The first epoch of a resumed trainer goes on with what both iterators had left. -/
theorem startEpoch_resumedFrom {t : RayDAPOTrainer α D} {g : Generator α} (hstarted : Started loaders short long t g)
    (hstop : g.flags.stopShort = false) (hlive : loaders.truthy short = true) :
    ((resumedFrom loaders short long ⟨loaders.savedState t.train4kDataloader g.iterShort,
      loaders.savedState t.train16kDataloader g.iterLong⟩).startEpoch loaders).generator =
        some { g with half := .first } := by
  unfold RayDAPOTrainer.startEpoch resumedFrom
  rw [iter?_resumedLoader hstarted.goingShort hstarted.iterShort,
    iter?_resumedLoader hstarted.goingLong hstarted.iterLong]
  unfold alternateIterators
  rw [← Option.not_isSome, ← Option.not_isSome, hstarted.iterShort, hstarted.iterLong, hlive, Bool.or_self,
    ← hstarted.stopLong]
  show some (Generator.mk ⟨false, g.flags.stopLong⟩ g.iterShort g.iterLong .first) = _
  rw [← hstop]

/-- In every run on one or two datasets, whatever was saved and resumed before: after a checkpoint is saved, every
later training that is resumed from this folder, as it is, has the flags of the save, and its first epoch goes on
with what both iterators had left. -/
theorem resume_restores_flags (h : Reachable loaders short long s)
    (hsave : s.step loaders short long .saveCheckpoint = some s') (later : Training α D S)
    (hfolder : later.folders s.globalSteps = s'.folders s.globalSteps) :
    ∃ resumed g, later.step loaders short long (.fit (some s.globalSteps)) = some resumed ∧
      resumed.trainer.flags = s.trainer.flags ∧ s.trainer.generator = some g ∧
      (resumed.trainer.startEpoch loaders).generator = some { g with half := .first } := by
  have hok := h.ok
  dsimp only [step] at hsave
  split at hsave
  · next hin =>
    cases hsave
    obtain ⟨g, hg, hstarted, hflags, hsaved⟩ := hok.saved hin (hok.stale s.globalSteps)
    obtain ⟨-, hstop, hlive⟩ := hok.inStep hin
    have hfiles := hok.saveCheckpoint hin
    dsimp only at hfolder hfiles
    rw [if_pos rfl, hsaved] at hfolder
    rw [hsaved] at hfiles
    have hload := loadCheckpoint_fresh hfiles.1 hlive hfiles.2.2
    rw [← hflags] at hstop ⊢
    refine ⟨{ later with
      trainer := resumedFrom loaders short long _
      inStep := false
      globalSteps := s.globalSteps + 1 }, g, ?_, ?_, hg, startEpoch_resumedFrom hstarted hstop hlive⟩
    · dsimp only [step]
      rw [hfolder]
      show (RayDAPOTrainer.loadCheckpoint _ _ _ >>= _) = _
      rw [hload]
      rfl
    · show Flags.mk false (!loaders.truthy long) = g.flags
      rw [← hstarted.stopLong, ← hstop]
  · cases hsave

/-- Dataloaders whose state is the number of batches that were taken: each has its batches, and where its next iterator
starts. -/
def countingLoaders : StatefulDataLoader α (List α × Nat) Nat where
  batches d := d.1
  iter d := (d.1.drop d.2, d.1, 0)
  stateDict d left := d.1.length - left.length
  loadStateDict d state := (d.1, state)
  batches_iter _ := rfl
  batches_loadStateDict _ _ := rfl
  iter_loadStateDict d d' left hbatches hsuffix := by
    show d.1.drop (d'.1.length - left.length) = left
    rw [hbatches]
    exact (List.suffix_iff_eq_drop.mp (hsuffix.trans (List.drop_suffix d'.2 d'.1))).symm

/-- Two short batches and no long dataset: the checkpoint of the first step has one file, and the long iterator
has stopped after the resumption, too. -/
theorem resume_restores_flags_short_only : ∃ s s' : Training String (List String × Nat) Nat,
    runAll (step countingLoaders (some (["a", "b"], 0)) none) { trainer := .fresh (some (["a", "b"], 0)) none }
      [.fit none, .startEpoch, .resumeGenerator] = some s ∧
    s.step countingLoaders (some (["a", "b"], 0)) none .saveCheckpoint = some s' ∧
    s.trainer.flags = ⟨false, true⟩ ∧
    ∃ resumed g, s'.step countingLoaders (some (["a", "b"], 0)) none (.fit (some 1)) = some resumed ∧
      resumed.trainer.flags = s.trainer.flags ∧ s.trainer.generator = some g ∧
      (resumed.trainer.startEpoch countingLoaders).generator = some { g with half := .first } := by
  obtain ⟨s, hrun, s', hsave, hflags⟩ : ∃ s : Training String (List String × Nat) Nat,
      runAll (step countingLoaders (some (["a", "b"], 0)) none) { trainer := .fresh (some (["a", "b"], 0)) none }
        [.fit none, .startEpoch, .resumeGenerator] = some s ∧
      ∃ s', s.step countingLoaders (some (["a", "b"], 0)) none .saveCheckpoint = some s' ∧
        s.trainer.flags = ⟨false, true⟩ ∧ s.globalSteps = 1 := ⟨_, rfl, _, rfl, rfl, rfl⟩
  have hreach : Reachable countingLoaders (some (["a", "b"], 0)) none s := reached_of_runAll hrun
  have hresume := resume_restores_flags hreach hsave s' rfl
  rw [hflags.2] at hresume
  exact ⟨s, s', hrun, hsave, hflags.1, hresume⟩

end Training
end Yuan.Trainer
