import Mathlib.Data.List.Infix

/-!
# Texts as lists of characters

`str.replace`, `str.split` and `str.strip`. An occurrence that has been found is skipped as a whole.
-/

namespace Yuan.Text

section

variable {α : Type} [DecidableEq α] {old : List α}

/-- The loop of `replace`: the number is how much of the last occurrence is still to be skipped. -/
def replaceFrom (old new : List α) : Nat → List α → List α
  | _, [] => []
  | skip + 1, _ :: rest => replaceFrom old new skip rest
  | 0, c :: rest =>
    if old <+: c :: rest then new ++ replaceFrom old new (old.length - 1) rest else c :: replaceFrom old new 0 rest

/-- `text.replace(old, new)`, for an `old` that is not empty. -/
def replace (old new text : List α) : List α := replaceFrom old new 0 text

/-- `text.replace(old, new, 1)`. -/
def replaceFirst (old new : List α) : List α → List α
  | [] => []
  | c :: rest => if old <+: c :: rest then new ++ (c :: rest).drop old.length else c :: replaceFirst old new rest

/-- The loop of `split`, with the piece so far. -/
def splitFrom (sep : List α) : Nat → List α → List α → List (List α)
  | _, piece, [] => [piece]
  | skip + 1, piece, _ :: rest => splitFrom sep skip piece rest
  | 0, piece, c :: rest =>
    if sep <+: c :: rest then piece :: splitFrom sep (sep.length - 1) [] rest else splitFrom sep 0 (piece ++ [c]) rest

/-- `text.split(sep)`, for a `sep` that is not empty. -/
def split (sep text : List α) : List (List α) := splitFrom sep 0 [] text

theorem replaceFrom_skip (old new skipped rest : List α) :
    replaceFrom old new skipped.length (skipped ++ rest) = replaceFrom old new 0 rest := by
  induction skipped with
  | nil => rfl
  | cons c skipped ih => exact ih

/-- An occurrence in front is replaced. -/
theorem replace_append (hold : old ≠ []) (new rest : List α) :
    replace old new (old ++ rest) = new ++ replace old new rest := by
  cases old with
  | nil => exact absurd rfl hold
  | cons c old =>
    have hinitial : c :: old <+: c :: (old ++ rest) := ⟨rest, rfl⟩
    unfold replace
    rw [List.cons_append, replaceFrom, if_pos hinitial, List.length_cons, Nat.add_sub_cancel, replaceFrom_skip]

/-- Where no occurrence begins, the text is copied. -/
theorem replace_append_of_not (new : List α) {front rest : List α}
    (h : ∀ s, s ≠ [] → s <:+ front → ¬ old <+: s ++ rest) :
    replace old new (front ++ rest) = front ++ replace old new rest := by
  induction front with
  | nil => rfl
  | cons c front ih =>
    have hnot := h (c :: front) (List.cons_ne_nil _ _) List.suffix_rfl
    have hrest := ih fun s hs hsuffix => h s hs (hsuffix.trans (List.suffix_cons c front))
    unfold replace at hrest ⊢
    rw [List.cons_append] at hnot ⊢
    rw [replaceFrom, if_neg hnot, hrest, List.cons_append]

/-- A text without an occurrence is kept. -/
theorem replace_of_not_infix {new text : List α} (h : ¬ old <:+: text) : replace old new text = text := by
  have hcopy := replace_append_of_not new fun s _ hsuffix hinitial => by
    rw [List.append_nil] at hinitial
    exact h (hinitial.isInfix.trans hsuffix.isInfix)
  rw [List.append_nil] at hcopy
  rw [hcopy]
  exact List.append_nil text

theorem replaceFirst_append (hold : old ≠ []) (new rest : List α) :
    replaceFirst old new (old ++ rest) = new ++ rest := by
  cases old with
  | nil => exact absurd rfl hold
  | cons c old =>
    have hinitial : c :: old <+: c :: (old ++ rest) := ⟨rest, rfl⟩
    rw [List.cons_append, replaceFirst, if_pos hinitial, List.length_cons, List.drop_succ_cons, List.drop_left]

theorem replaceFirst_cons_of_not {new : List α} {c : α} {rest : List α} (h : ¬ old <+: c :: rest) :
    replaceFirst old new (c :: rest) = c :: replaceFirst old new rest := if_neg h

theorem one_le_length_splitFrom (sep : List α) (skip : Nat) (piece text : List α) :
    1 ≤ (splitFrom sep skip piece text).length := by
  induction text generalizing skip piece with
  | nil =>
    exact Nat.le_refl 1
  | cons c text ih =>
    cases skip with
    | zero =>
      unfold splitFrom
      split
      · exact Nat.le_add_left 1 _
      · exact ih _ _
    | succ skip => exact ih _ _

/-- A separator makes at least two pieces. -/
theorem two_le_length_split {sep : List α} (hsep : sep ≠ []) {text : List α} (h : sep <:+: text) :
    2 ≤ (split sep text).length := by
  have hfrom : ∀ (text piece : List α), sep <:+: text → 2 ≤ (splitFrom sep 0 piece text).length := by
    intro text
    induction text with
    | nil => exact fun _ h => absurd (List.infix_nil.mp h) hsep
    | cons c text ih =>
      intro piece h
      unfold splitFrom
      split
      · exact Nat.succ_le_succ (one_le_length_splitFrom sep _ _ text)
      · next hinitial => exact ih _ ((List.infix_cons_iff.mp h).resolve_left hinitial)
  exact hfrom text [] h

end

/-- What `str.strip` strips. -/
def isSpace (c : Char) : Bool :=
  c.toNat ∈ [0x20, 0x85, 0xA0, 0x1680, 0x2028, 0x2029, 0x202F, 0x205F, 0x3000] ∨ 0x09 ≤ c.toNat ∧ c.toNat ≤ 0x0D ∨
    0x1C ≤ c.toNat ∧ c.toNat ≤ 0x1F ∨ 0x2000 ≤ c.toNat ∧ c.toNat ≤ 0x200A

/-- `text.strip()`. -/
def strip (text : List Char) : List Char := ((text.dropWhile isSpace).reverse.dropWhile isSpace).reverse

/-- `text.strip(c)`. -/
def stripChar (c : Char) (text : List Char) : List Char :=
  ((text.dropWhile (· = c)).reverse.dropWhile (· = c)).reverse

/-- `text.rstrip(c)`. -/
def rstripChar (c : Char) (text : List Char) : List Char := (text.reverse.dropWhile (· = c)).reverse

/-- `text.startswith(..)` for a tuple of texts. -/
def startsWithAny (fronts : List String) (text : List Char) : Bool := fronts.any fun front => front.toList <+: text

/-- `text.endswith(..)` for a tuple of texts. -/
def endsWithAny (ends : List String) (text : List Char) : Bool := ends.any fun back => back.toList <:+ text

/-- `sub in text`. -/
def contains (sub : String) (text : List Char) : Bool := sub.toList <:+: text

end Yuan.Text
