import Yuan.Lib.Text

/-!
# Markers in a text

A marker begins with an opening character that does not occur in it again. Between the characters of a text that does
not contain it, every occurrence of a marker is one that was inserted, so deleting the marker undoes the insertions.
-/

namespace Yuan.Markers

variable {α : Type}

/-- A character of the text, or a marker. -/
inductive Token (α : Type) where
  | char (c : α)
  | mark (m : List α)
  deriving DecidableEq

/-- The text without the markers. -/
def chars (tokens : List (Token α)) : List α :=
  tokens.filterMap fun t =>
    match t with
    | .char c => some c
    | .mark _ => none

/-- The text with the markers. -/
def render (tokens : List (Token α)) : List α :=
  tokens.flatMap fun t =>
    match t with
    | .char c => [c]
    | .mark m => m

@[simp] theorem chars_char (c : α) (tokens : List (Token α)) : chars (.char c :: tokens) = c :: chars tokens := rfl
@[simp] theorem chars_mark (m : List α) (tokens : List (Token α)) : chars (.mark m :: tokens) = chars tokens := rfl
@[simp] theorem render_char (c : α) (tokens : List (Token α)) : render (.char c :: tokens) = c :: render tokens := rfl
@[simp] theorem render_mark (m : List α) (tokens : List (Token α)) : render (.mark m :: tokens) = m ++ render tokens :=
  rfl

theorem chars_append (tokens tokens' : List (Token α)) : chars (tokens ++ tokens') = chars tokens ++ chars tokens' :=
  List.filterMap_append

theorem render_append (tokens tokens' : List (Token α)) :
    render (tokens ++ tokens') = render tokens ++ render tokens' := List.flatMap_append

/-- The tokens of a text without markers. -/
theorem chars_map_char (text : List α) : chars (text.map Token.char) = text := by
  induction text with
  | nil => rfl
  | cons c text ih => rw [List.map_cons, chars_char, ih]

theorem render_map_char (text : List α) : render (text.map Token.char) = text := by
  induction text with
  | nil => rfl
  | cons c text ih => rw [List.map_cons, render_char, ih]

/-- The opening character of a marker occurs at its front only. -/
def Opens (o : α) (m : List α) : Prop := ∃ body, m = o :: body ∧ o ∉ body

theorem Opens.ne_nil {o : α} {m : List α} (h : Opens o m) : m ≠ [] := by
  obtain ⟨body, rfl, -⟩ := h
  exact List.cons_ne_nil o body

variable {o : α} {tokens : List (Token α)}

/-- A text without the opening character cannot reach into a marker. -/
theorem prefix_chars (hmarks : ∀ m, .mark m ∈ tokens → Opens o m) {body : List α} (hbody : o ∉ body)
    (h : body <+: render tokens) : body <+: chars tokens := by
  induction tokens generalizing body with
  | nil => exact h
  | cons t tokens ih =>
    have hrest : ∀ m, .mark m ∈ tokens → Opens o m := fun m hm => hmarks m (List.mem_cons_of_mem t hm)
    cases body with
    | nil => exact List.nil_prefix
    | cons b body =>
      obtain ⟨hb, hbody⟩ := List.ne_and_not_mem_of_not_mem_cons hbody
      cases t with
      | char c =>
        rw [render_char, List.cons_prefix_cons] at h
        rw [chars_char, List.cons_prefix_cons]
        exact ⟨h.1, ih hrest hbody h.2⟩
      | mark m =>
        obtain ⟨rest, rfl, -⟩ := hmarks m List.mem_cons_self
        rw [render_mark, List.cons_append, List.cons_prefix_cons] at h
        exact absurd h.1.symm hb

/-- No marker begins at a character of a text that does not contain it. -/
theorem not_prefix_char {old : List α} (hold : Opens o old) (hmarks : ∀ m, .mark m ∈ tokens → Opens o m) {c : α}
    (hchars : ¬ old <:+: chars (.char c :: tokens)) : ¬ old <+: render (.char c :: tokens) := by
  intro h
  obtain ⟨body, rfl, hbody⟩ := hold
  rw [render_char, List.cons_prefix_cons] at h
  refine hchars (List.IsPrefix.isInfix ?_)
  rw [chars_char, List.cons_prefix_cons]
  exact ⟨h.1, prefix_chars hmarks hbody h.2⟩

/-- No marker begins inside another one, or at one that differs from it. -/
theorem not_prefix_mark {old m rest : List α} (hold : Opens o old) (hm : Opens o m) (hne : ¬ old <+: m ∧ ¬ m <+: old)
    {s : List α} (hs : s ≠ []) (hsuffix : s <:+ m) : ¬ old <+: s ++ rest := by
  intro h
  by_cases hall : s = m
  · rw [hall] at h
    rcases List.prefix_or_prefix_of_prefix h (List.prefix_append m rest) with hle | hle
    · exact hne.1 hle
    · exact hne.2 hle
  · -- `s` lies behind the opening character
    obtain ⟨body, rfl, hbody⟩ := hm
    obtain ⟨body', rfl, -⟩ := hold
    obtain ⟨c, s, rfl⟩ := List.exists_cons_of_ne_nil hs
    rw [List.cons_append, List.cons_prefix_cons] at h
    rcases List.suffix_cons_iff.mp hsuffix with heq | htail
    · exact hall heq
    · rw [← h.1] at htail
      exact hbody (htail.subset List.mem_cons_self)

theorem chars_filter {p : Token α → Bool} (hp : ∀ c, p (.char c) = true) (tokens : List (Token α)) :
    chars (tokens.filter p) = chars tokens := by
  induction tokens with
  | nil => rfl
  | cons t tokens ih =>
    cases t with
    | char c => rw [List.filter_cons_of_pos (hp c), chars_char, chars_char, ih]
    | mark m =>
      by_cases hm : p (.mark m) = true
      · rw [List.filter_cons_of_pos hm, chars_mark, chars_mark, ih]
      · rw [List.filter_cons_of_neg hm, chars_mark, ih]

/-- Without the markers, the text is what it was. -/
theorem render_eq_chars (h : ∀ m, .mark m ∉ tokens) : render tokens = chars tokens := by
  induction tokens with
  | nil => rfl
  | cons t tokens ih =>
    have hrest := ih fun m hm => h m (List.mem_cons_of_mem t hm)
    cases t with
    | char c => rw [render_char, chars_char, hrest]
    | mark m => exact absurd List.mem_cons_self (h m)

variable [DecidableEq α]

/-- Deleting a marker deletes what was inserted of it. -/
theorem delete_render {old : List α} (hold : Opens o old)
    (hmarks : ∀ m, .mark m ∈ tokens → Opens o m ∧ (m = old ∨ ¬ old <+: m ∧ ¬ m <+: old))
    (hchars : ¬ old <:+: chars tokens) :
    Text.replace old [] (render tokens) = render (tokens.filter fun t => t ≠ .mark old) := by
  induction tokens with
  | nil => rfl
  | cons t tokens ih =>
    have hrest : ∀ m, .mark m ∈ tokens → Opens o m ∧ (m = old ∨ ¬ old <+: m ∧ ¬ m <+: old) :=
      fun m hm => hmarks m (List.mem_cons_of_mem t hm)
    cases t with
    | char c =>
      have hnot := not_prefix_char hold (fun m hm => (hrest m hm).1) hchars
      have hih := ih hrest fun h => hchars (h.trans (List.suffix_cons c _).isInfix)
      have hcopy := Text.replace_append_of_not []
        fun s hs hsuffix => by
          rcases List.suffix_cons_iff.mp hsuffix with rfl | hnil
          · exact hnot
          · exact absurd (List.suffix_nil.mp hnil) hs
      rw [List.filter_cons_of_pos (by rfl), render_char, render_char, ← hih]
      exact hcopy
    | mark m =>
      have hih := ih hrest hchars
      obtain ⟨hm, heq | hne⟩ := hmarks m List.mem_cons_self
      · rw [heq, List.filter_cons_of_neg (by simp), render_mark, Text.replace_append hold.ne_nil, hih]
        rfl
      · have hkeep : Token.mark m ≠ .mark old := fun h => by
          rw [Token.mark.inj h] at hne
          exact hne.1 (List.prefix_refl old)
        rw [List.filter_cons_of_pos (by simpa using hkeep), render_mark, render_mark, ← hih]
        exact Text.replace_append_of_not [] fun s hs hsuffix => not_prefix_mark hold hm hne hs hsuffix

/-- Replacing the first marker of one kind replaces the first one that was inserted. -/
theorem replaceFirst_render {old : List α} (new : List α) (hold : Opens o old)
    (hmarks : ∀ m, .mark m ∈ tokens → m = old) (hchars : ¬ old <:+: chars tokens) :
    ∃ tokens', chars tokens' = chars tokens ∧ Text.replaceFirst old new (render tokens) = render tokens' ∧
      ∀ m, .mark m ∈ tokens' → m = old ∨ m = new := by
  induction tokens with
  | nil => exact ⟨[], rfl, rfl, fun m hm => absurd hm List.not_mem_nil⟩
  | cons t tokens ih =>
    have hrest : ∀ m, .mark m ∈ tokens → m = old := fun m hm => hmarks m (List.mem_cons_of_mem t hm)
    cases t with
    | char c =>
      have hopens : ∀ m, .mark m ∈ tokens → Opens o m := fun m hm => by
        rw [hrest m hm]
        exact hold
      obtain ⟨tokens', hchars', hrender, hmarks'⟩ :=
        ih hrest fun h => hchars (h.trans (List.suffix_cons c _).isInfix)
      refine ⟨.char c :: tokens', ?_, ?_, fun m hm => ?_⟩
      · rw [chars_char, chars_char, hchars']
      · rw [render_char, render_char, ← hrender]
        exact Text.replaceFirst_cons_of_not (not_prefix_char hold hopens hchars)
      · rcases List.mem_cons.mp hm with heq | hm
        · cases heq
        · exact hmarks' m hm
    | mark m =>
      have heq := hmarks m List.mem_cons_self
      refine ⟨.mark new :: tokens, rfl, ?_, fun m' hm' => ?_⟩
      · rw [heq, render_mark, render_mark, Text.replaceFirst_append hold.ne_nil]
      · rcases List.mem_cons.mp hm' with heq' | hm'
        · exact Or.inr (Token.mark.inj heq')
        · exact Or.inl (hrest m' hm')

end Yuan.Markers
