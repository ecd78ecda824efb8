import Yuan.Lib.Runs
import Mathlib.Tactic.Common

/-!
# `XgrammarGrammar`: a grammar that follows tokens

The grammar of a request wraps a matcher, which accepts tokens one by one, takes accepted tokens back, and
fills a row of the bitmask with the tokens it would accept next. The matcher itself is a parameter.
-/

namespace Yuan.StructuredOutput

/-- A row of the bitmask: which tokens it allows. -/
abbrev Bitmask := Nat → Bool

/-- The row that allows all tokens. -/
def fullMask : Bitmask := fun _ => true

/-- `xgr.GrammarMatcher`. A token that is not accepted leaves the matcher as it was. -/
structure GrammarMatcher (σ : Type) where
  acceptToken : σ → Int → Option σ
  rollback : σ → Nat → σ
  isTerminated : σ → Bool
  fillNextTokenBitmask : σ → Bitmask

/-- A rollback undoes accepts, and a terminated matcher accepts nothing. -/
structure GrammarMatcher.Lawful {σ : Type} (m : GrammarMatcher σ) : Prop where
  undoes : ∀ s s' tokens, runAll m.acceptToken s tokens = some s' → m.rollback s' tokens.length = s
  stopped : ∀ s token, m.isTerminated s = true → m.acceptToken s token = none

/-- The grammar of a request. -/
@[ext]
structure XgrammarGrammar (σ : Type) where
  matcher : σ
  numProcessedTokens : Int := 0
  isTerminated : Bool := false

namespace XgrammarGrammar

variable {σ : Type} (m : GrammarMatcher σ) (g : XgrammarGrammar σ)

/-- The loop of `accept_tokens`. Tokens before the rejected one stay accepted. -/
def acceptLoop : XgrammarGrammar σ → List Int → Bool × XgrammarGrammar σ
  | g, [] => (true, { g with isTerminated := m.isTerminated g.matcher })
  | g, token :: tokens =>
    match m.acceptToken g.matcher token with
    | none => (false, g)
    | some matcher =>
      acceptLoop { g with matcher, numProcessedTokens := g.numProcessedTokens + 1 } tokens

/-- `accept_tokens`: whether all tokens were accepted. -/
def acceptTokens (tokens : List Int) : Bool × XgrammarGrammar σ :=
  if g.isTerminated then (false, g) else acceptLoop m g tokens

/-- The loop of `validate_tokens`. -/
def validateLoop : σ → List Int → List Int × σ
  | s, [] => ([], s)
  | s, token :: tokens =>
    match m.acceptToken s token with
    | none => ([], s)
    | some s =>
      let validated := validateLoop s tokens
      (token :: validated.1, validated.2)

/-- `validate_tokens`: the tokens that would be accepted, up to the first that would not. -/
def validateTokens (tokens : List Int) : List Int × XgrammarGrammar σ :=
  let validated := validateLoop m g.matcher tokens
  if 0 < validated.1.length then
    (validated.1, { g with matcher := m.rollback validated.2 validated.1.length })
  else (validated.1, { g with matcher := validated.2 })

/-- `rollback`. -/
def rollback (numTokens : Nat) : XgrammarGrammar σ :=
  { matcher := m.rollback g.matcher numTokens
    numProcessedTokens := g.numProcessedTokens - numTokens
    isTerminated := m.isTerminated (m.rollback g.matcher numTokens) }

/-- The row that `_fill_bitmasks` writes for a grammar. -/
def maskRow (applyBitmask : Bool) : Bitmask :=
  if applyBitmask && !g.isTerminated then m.fillNextTokenBitmask g.matcher else fullMask

/-- The grammar after it was given tokens one by one. -/
def after (tokens : List Int) : XgrammarGrammar σ := tokens.foldl (fun g token => (g.acceptTokens m [token]).2) g

/-- Every token is accepted in turn, up to padding or to the end of the grammar. -/
def Accepts : XgrammarGrammar σ → List Int → Prop
  | _, [] => True
  | g, token :: tokens =>
    token = -1 ∨ g.isTerminated = true ∨
      (g.acceptTokens m [token]).1 = true ∧ Accepts (g.acceptTokens m [token]).2 tokens

/-! ## Accepting and rolling back -/

variable {m g}

theorem acceptTokens_of_terminated (h : g.isTerminated = true) (tokens : List Int) :
    g.acceptTokens m tokens = (false, g) := by
  rw [acceptTokens, h, if_pos rfl]

/-- One accepted token. -/
theorem acceptTokens_one {token : Int} (h : (g.acceptTokens m [token]).1 = true) :
    g.isTerminated = false ∧ ∃ s, m.acceptToken g.matcher token = some s ∧
      (g.acceptTokens m [token]).2 = ⟨s, g.numProcessedTokens + 1, m.isTerminated s⟩ := by
  cases hterm : g.isTerminated with
  | true => simp [acceptTokens_of_terminated hterm] at h
  | false =>
    refine ⟨rfl, ?_⟩
    simp only [acceptTokens, hterm, acceptLoop] at h ⊢
    cases hs : m.acceptToken g.matcher token with
    | none => simp [hs] at h
    | some s => exact ⟨s, rfl, rfl⟩

/-- `g'` is `g` some accepted tokens later. -/
structure Ahead (m : GrammarMatcher σ) (g g' : XgrammarGrammar σ) (n : Nat) : Prop where
  run : ∃ tokens, tokens.length = n ∧ runAll m.acceptToken g.matcher tokens = some g'.matcher
  numProcessedTokens : g'.numProcessedTokens = g.numProcessedTokens + n
  notTerminated : 0 < n → g.isTerminated = false
  same : n = 0 → g' = g

theorem Ahead.refl (g : XgrammarGrammar σ) : Ahead m g g 0 :=
  ⟨⟨[], rfl, rfl⟩, by simp, fun h => absurd h (Nat.lt_irrefl 0), fun _ => rfl⟩

theorem Ahead.step {g' : XgrammarGrammar σ} {token : Int} {n : Nat} (htoken : (g.acceptTokens m [token]).1 = true)
    (h : Ahead m (g.acceptTokens m [token]).2 g' n) : Ahead m g g' (n + 1) := by
  obtain ⟨hterm, s, hs, hnext⟩ := acceptTokens_one htoken
  obtain ⟨tokens, hlength, hrun⟩ := h.run
  have hnum := h.numProcessedTokens
  rw [hnext] at hrun hnum
  refine ⟨⟨token :: tokens, by rw [List.length_cons, hlength], ?_⟩, ?_, fun _ => hterm,
    fun h => absurd h n.succ_ne_zero⟩
  · simp [runAll, hs, hrun]
  · rw [hnum]
    push_cast
    omega

/-- A rollback by what a grammar is ahead restores it. -/
theorem Ahead.rollback (hm : m.Lawful) {g' : XgrammarGrammar σ} {n : Nat} (h : Ahead m g g' n) (hpos : 0 < n) :
    g'.rollback m n = g := by
  obtain ⟨tokens, hlength, hrun⟩ := h.run
  have hmatcher : m.rollback g'.matcher n = g.matcher := hlength ▸ hm.undoes _ _ _ hrun
  have hterm : m.isTerminated g.matcher = false := by
    cases htokens : tokens with
    | nil =>
      rw [htokens] at hlength
      exact absurd hlength (Nat.ne_of_lt hpos)
    | cons token tokens =>
      by_contra hstop
      rw [Bool.not_eq_false] at hstop
      rw [htokens] at hrun
      simp [runAll, hm.stopped _ token hstop] at hrun
  refine XgrammarGrammar.ext hmatcher ?_ ?_
  · show g'.numProcessedTokens - n = g.numProcessedTokens
    rw [h.numProcessedTokens, Int.add_sub_cancel]
  · show m.isTerminated (m.rollback g'.matcher n) = g.isTerminated
    rw [hmatcher, hterm, h.notTerminated hpos]

/-! ## Validated drafts -/

/-- Validated drafts with padding behind them are accepted. -/
theorem accepts_validateTokens (g : XgrammarGrammar σ) (tokens : List Int) (n : Nat) :
    Accepts m g ((g.validateTokens m tokens).1 ++ List.replicate n (-1)) := by
  have hfirst : (g.validateTokens m tokens).1 = (validateLoop m g.matcher tokens).1 := by grind [validateTokens]
  rw [hfirst]
  induction tokens generalizing g with
  | nil => cases n <;> simp [validateLoop, List.replicate, Accepts]
  | cons token tokens ih =>
    cases hs : m.acceptToken g.matcher token with
    | none => cases n <;> simp [validateLoop, hs, List.replicate, Accepts]
    | some s =>
      rw [validateLoop, hs]
      cases hterm : g.isTerminated with
      | true => exact .inr (.inl hterm)
      | false =>
        have hone : g.acceptTokens m [token] = (true, ⟨s, g.numProcessedTokens + 1, m.isTerminated s⟩) := by
          simp [acceptTokens, hterm, acceptLoop, hs]
        refine .inr (.inr ⟨by rw [hone], ?_⟩)
        rw [hone]
        exact ih ⟨s, _, _⟩ (by grind [validateTokens])

end XgrammarGrammar
end Yuan.StructuredOutput
