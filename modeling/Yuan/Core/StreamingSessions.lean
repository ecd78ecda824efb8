import Yuan.Core.Rescheduling

/-!
# Streaming sessions

A session keeps its prompt, the output tokens whose KV was computed, and nothing else, and goes on with
a new chunk of input. `_update_request_as_session` takes all of this from `num_computed_tokens`: it cuts
the token list there, and what it finds behind the prompt it appends to the prompt. That is right as
long as the cut is not inside of the prompt, and not behind the last token. Preemption sets the number
to zero, and an output that is cut at a stop token leaves it too large.
-/

namespace Yuan.Core

namespace Request

variable {β : Type}

/-- The prompt and the output are all tokens of a request. -/
def History (r : Request β) : Prop :=
  ∀ prompt, r.promptTokenIds = some prompt →
    r.allTokenIds = prompt ++ r.outputTokenIds ∧ r.numPromptTokens = prompt.length

/-- The prompt, and the output up to the last token whose KV was computed. -/
def keptTokenIds (session : Request β) : List Nat :=
  session.promptTokenIds.getD [] ++
    session.outputTokenIds.take (session.numComputedTokens - session.numPromptTokens).toNat

/-- The end of the computed tokens is behind the prompt, and not behind the last token. A negative end
counts from behind, where only the end of the prompt will do. -/
def KeepsPrompt (r : Request β) : Prop :=
  if r.numComputedTokens < 0 then (r.numTokens + r.numComputedTokens).toNat = r.numPromptTokens
  else r.numPromptTokens ≤ r.numComputedTokens ∧ r.numComputedTokens ≤ r.numTokens

end Request

section Update

variable {β : Type} {fns : HashFunctions β} {blockSize : Nat} {session session' : Request β}
variable {update : StreamingUpdate}

/-- The session goes on with the new chunk behind the tokens kept. -/
structure ContinuesSession (session : Request β) (update : StreamingUpdate) (session' : Request β) :
    Prop where
  promptTokenIds : session'.promptTokenIds =
    some (session.keptTokenIds ++ update.promptTokenIds.getD [])
  allTokenIds : session'.allTokenIds = session.keptTokenIds ++ update.promptTokenIds.getD []
  outputTokenIds : session'.outputTokenIds = []
  numPromptTokens : session'.numPromptTokens =
    (session.keptTokenIds ++ update.promptTokenIds.getD []).length
  numComputedTokens : session'.numComputedTokens ≤ session.keptTokenIds.length
  mmFeatures : session'.mmFeatures = session.mmFeatures ++
    (update.mmFeatures.getD []).map (shiftFeature session.keptTokenIds.length)

theorem ContinuesSession.history (h : ContinuesSession session update session') : session'.History := by
  intro prompt hprompt
  rw [h.promptTokenIds] at hprompt
  rw [← Option.some.inj hprompt, h.allTokenIds, h.outputTokenIds, List.append_nil]
  exact ⟨rfl, h.numPromptTokens⟩

/-- What the update makes of the tokens, whatever the number of computed tokens is. -/
theorem updateRequestAsSession_tokens {prompt : List Nat} (hprompt : session.promptTokenIds = some prompt)
    (hrun : updateRequestAsSession fns blockSize session update = .ok session') :
    let computed := pyTake session.allTokenIds session.numComputedTokens
    let promptTokenIds := prompt ++ computed.drop session.numPromptTokens ++ update.promptTokenIds.getD []
    session'.promptTokenIds = some promptTokenIds ∧
      session'.allTokenIds = computed ++ update.promptTokenIds.getD [] ∧
      session'.outputTokenIds = [] ∧ session'.numPromptTokens = promptTokenIds.length ∧
      session'.numComputedTokens = session.numComputedTokens ∧
      session'.mmFeatures = session.mmFeatures ++
        (update.mmFeatures.getD []).map (shiftFeature computed.length) := by
  unfold updateRequestAsSession at hrun
  rw [hprompt] at hrun
  cases hrun
  exact ⟨rfl, rfl, rfl, rfl, rfl, rfl⟩

section

variable (h : session.History)
include h

/-- Where the cut keeps the prompt, it keeps the computed output behind it, and nothing else. -/
theorem Request.KeepsPrompt.pyTake {prompt : List Nat} (hprompt : session.promptTokenIds = some prompt)
    (hkeeps : session.KeepsPrompt) : pyTake session.allTokenIds session.numComputedTokens = session.keptTokenIds := by
  obtain ⟨hall, hnum⟩ := h prompt hprompt
  unfold Request.KeepsPrompt Request.numTokens at hkeeps
  unfold Yuan.pyTake Request.keptTokenIds
  rw [hprompt, Option.getD_some]
  split at hkeeps
  case isTrue hneg =>
    have hzero : (session.numComputedTokens - prompt.length).toNat = 0 := by omega
    rw [if_pos hneg, hkeeps, hnum, hall, List.take_left, hzero, List.take_zero, List.append_nil]
  case isFalse hneg =>
    have hbehind : session.numComputedTokens.toNat =
        prompt.length + (session.numComputedTokens - session.numPromptTokens).toNat := by omega
    rw [if_neg hneg, hall, hbehind, List.take_length_add_append]

/-- Exactly then the session is continued as it is meant to. -/
theorem continuesSession_iff (hrun : updateRequestAsSession fns blockSize session update = .ok session') :
    ContinuesSession session update session' ↔ session.KeepsPrompt := by
  cases hprompt : session.promptTokenIds with
  | none =>
    unfold updateRequestAsSession at hrun
    rw [hprompt] at hrun
    cases hrun
  | some prompt =>
    obtain ⟨hall, hnum⟩ := h prompt hprompt
    obtain ⟨hprompt', hall', hout', hnum', hcomputed', hmm'⟩ := updateRequestAsSession_tokens hprompt hrun
    have hlength : session.keptTokenIds.length = prompt.length +
        min (session.numComputedTokens - session.numPromptTokens).toNat session.outputTokenIds.length := by
      unfold Request.keptTokenIds
      rw [hprompt, Option.getD_some, List.length_append, List.length_take]
    have htotal : session.numTokens = prompt.length + session.outputTokenIds.length := by
      unfold Request.numTokens
      rw [hall, List.length_append]
    constructor
    · intro hcontinues
      have hcut : pyTake session.allTokenIds session.numComputedTokens = session.keptTokenIds :=
        List.append_cancel_right (hall'.symm.trans hcontinues.allTokenIds)
      have hcutLength := congrArg List.length hcut
      have hbound := hcontinues.numComputedTokens
      unfold pyTake at hcutLength
      rw [List.length_take, show session.allTokenIds.length = session.numTokens from rfl] at hcutLength
      unfold Request.KeepsPrompt
      split at hcutLength
      case isTrue hneg =>
        rw [if_pos hneg]
        omega
      case isFalse hneg =>
        rw [if_neg hneg]
        omega
    · intro hkeeps
      have hcut := hkeeps.pyTake h hprompt
      have hdrop : prompt ++ session.keptTokenIds.drop session.numPromptTokens = session.keptTokenIds := by
        unfold Request.keptTokenIds
        rw [hprompt, Option.getD_some, hnum, List.drop_left]
      rw [hcut] at hprompt' hall' hnum' hmm'
      rw [hdrop] at hprompt' hnum'
      refine ⟨hprompt', hall', hout', hnum', ?_, hmm'⟩
      unfold Request.KeepsPrompt at hkeeps
      split at hkeeps <;> omega

/-! ## Output tokens -/

theorem Request.History.appendOutputTokenIds (tokenIds : List Nat) :
    (appendOutputTokenIds fns blockSize session tokenIds).History := by
  intro prompt hprompt
  obtain ⟨hall, hnum⟩ := h prompt hprompt
  refine ⟨?_, hnum⟩
  show session.allTokenIds ++ tokenIds = prompt ++ (session.outputTokenIds ++ tokenIds)
  rw [hall, List.append_assoc]

theorem Request.History.checkStop {maxModelLen : Nat} {stopped : Bool}
    (hrun : checkStop session maxModelLen = .ok (session', stopped)) : session'.History := by
  obtain ⟨_, -, hrun⟩ := bind_eq_ok.mp hrun
  split at hrun
  case h_1 => cases hrun
  case h_2 => cases hrun
  case h_3 =>
    split at hrun
    · cases hrun
      exact h
    · cases hrun
      exact h

theorem Request.History.updateRequestWithOutput {newTokenIds kept : List Nat} {stopped : Bool} {maxModelLen : Nat}
    (hrun : updateRequestWithOutput fns blockSize maxModelLen session newTokenIds =
      .ok (session', kept, stopped)) : session'.History := by
  induction newTokenIds generalizing session kept stopped with
  | nil =>
    cases hrun
    exact h
  | cons token rest ih =>
    obtain ⟨⟨checked, done⟩, hcheck, hrun⟩ := bind_eq_ok.mp hrun
    have hchecked := (h.appendOutputTokenIds [token]).checkStop hcheck
    cases done with
    | true =>
      cases hrun
      exact hchecked
    | false =>
      obtain ⟨⟨last, kept', stopped'⟩, hloop, hrun⟩ := bind_eq_ok.mp hrun
      cases hrun
      exact ih hchecked hloop

theorem Request.History.rescheduled (hr : session.Rescheduled session') : session'.History := by
  obtain ⟨_, _, _, _, _, _, _, _, _, rfl⟩ := hr
  exact h

end

end Update

end Yuan.Core
