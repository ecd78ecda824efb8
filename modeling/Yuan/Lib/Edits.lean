import Mathlib.Data.List.Basic
import Mathlib.Data.List.Range
import Mathlib.Data.List.Chain

/-!
# Edits of a text

An edit puts a content in the place of a range of a text. A list of edits is applied from left to right: up to the
range of the next edit the text is copied, then comes its content, and the text goes on behind its range. Nothing makes
the ranges follow each other; `layout` says what is written in any case, and `Rendered` what is written if they do.
-/

namespace Yuan

/-- `content` in the place of the positions `start .. stop`. -/
structure Edit (α : Type) where
  start : Nat
  stop : Nat
  content : List α
  deriving DecidableEq

namespace Edit

variable {α : Type} {text : List α} {es : List (Edit α)} {placed : List (Nat × List α)} {out : List α} {offset : Nat}

/-- One edit: the position in the text that is reached, and what has been written. -/
def step (text : List α) (s : Nat × List α) (e : Edit α) : Nat × List α :=
  (e.stop, s.2 ++ (text.take e.start).drop s.1 ++ e.content)

/-- The text with the edits. -/
def applyAll (text : List α) (es : List (Edit α)) : List α :=
  (es.foldl (step text) (0, [])).2 ++ text.drop (es.foldl (step text) (0, [])).1

/-- What is written from a position on: positions of a text of length `n`, and elements of the contents. -/
def layout (n : Nat) : Nat → List (Edit α) → List (Nat ⊕ α)
  | pos, [] => (List.range' pos (n - pos)).map .inl
  | pos, e :: es => (List.range' pos (e.start - pos)).map .inl ++ e.content.map .inr ++ layout n e.stop es

/-- Where the contents stand in what is written, which starts at offset `at`. -/
def places : Nat → Nat → List (Edit α) → List Nat
  | _, _, [] => []
  | pos, offset, e :: es =>
    (offset + (e.start - pos)) :: places e.stop (offset + (e.start - pos) + e.content.length) es

/-- The ranges lie in a text of length `n`. -/
def Within (n : Nat) (es : List (Edit α)) : Prop := ∀ e ∈ es, e.start ≤ e.stop ∧ e.stop ≤ n

/-- No range starts in front of the end of an earlier one. -/
def Ordered (es : List (Edit α)) : Prop := es.Pairwise fun e e' => e.stop ≤ e'.start

/-- A position that no range covers. -/
def Uncovered (es : List (Edit α)) (p : Nat) : Prop := ∀ e ∈ es, ¬ (e.start ≤ p ∧ p < e.stop)

instance (es : List (Edit α)) (p : Nat) : Decidable (Uncovered es p) :=
  inferInstanceAs (Decidable (∀ e ∈ es, ¬ (e.start ≤ p ∧ p < e.stop)))

/-- The output is the text in which every content stands in the place of its range, and every position that no range
covers occurs once and in order. -/
structure Rendered (text : List α) (es : List (Edit α)) (out : List α) : Prop where
  ordered : Ordered es
  written : out.map some = (layout text.length 0 es).map (Sum.elim (fun p => text[p]?) some)
  kept : (layout text.length 0 es).filterMap Sum.getLeft? = (List.range text.length).filter fun p => Uncovered es p

/-! ## What is written -/

theorem map_some_slice (text : List α) (pos stop : Nat) (hstop : stop ≤ text.length) :
    ((text.take stop).drop pos).map some = (List.range' pos (stop - pos)).map fun p => text[p]? := by
  refine List.ext_getElem (by simp [Nat.min_eq_left hstop]) fun i hi _ => ?_
  simp only [List.getElem_map, List.getElem_drop, List.getElem_take, List.getElem_range', Nat.one_mul]
  rw [List.getElem?_eq_getElem]

theorem map_some_drop (text : List α) (pos : Nat) :
    (text.drop pos).map some = (List.range' pos (text.length - pos)).map fun p => text[p]? := by
  have h := map_some_slice text pos text.length le_rfl
  rwa [List.take_length] at h

theorem foldl_step_written (hes : Within text.length es) (pos : Nat) (out : List α) :
    ((es.foldl (step text) (pos, out)).2 ++ text.drop (es.foldl (step text) (pos, out)).1).map some
      = out.map some ++ (layout text.length pos es).map (Sum.elim (fun p => text[p]?) some) := by
  induction es generalizing pos out with
  | nil =>
    rw [List.foldl_nil, List.map_append, map_some_drop, layout, List.map_map]
    rfl
  | cons e es ih =>
    have he := hes e List.mem_cons_self
    rw [List.foldl_cons, step, ih fun e' h => hes e' (List.mem_cons_of_mem e h)]
    simp only [layout, List.map_append, List.map_map, map_some_slice text pos e.start (he.1.trans he.2),
      List.append_assoc]
    rfl

theorem applyAll_written (hes : Within text.length es) :
    (applyAll text es).map some = (layout text.length 0 es).map (Sum.elim (fun p => text[p]?) some) := by
  have h := foldl_step_written hes 0 []
  rwa [List.map_nil] at h

/-- Behind ranges that follow each other, the text goes on behind each of them. -/
theorem stop_le_foldl {n : Nat} (hes : Within n es) (hordered : Ordered es) (s : Nat × List α) :
    ∀ e ∈ es, e.stop ≤ (es.foldl (step text) s).1 := by
  induction es generalizing s with
  | nil => exact fun _ h => absurd h List.not_mem_nil
  | cons first es ih =>
    obtain ⟨hfirst, hrest⟩ := List.pairwise_cons.mp hordered
    have hwithin : Within n es := fun e h => hes e (List.mem_cons_of_mem first h)
    intro e he
    rcases List.mem_cons.mp he with rfl | he
    · cases es with
      | nil => exact le_rfl
      | cons next es =>
        have hnext : next ∈ next :: es := List.mem_cons_self
        exact ((hfirst next hnext).trans (hwithin next hnext).1).trans (ih hwithin hrest _ next hnext)
    · exact ih hwithin hrest _ e he

/-! ## Kept positions -/

theorem filterMap_layout_cons (n pos : Nat) (e : Edit α) (es : List (Edit α)) :
    (layout n pos (e :: es)).filterMap Sum.getLeft?
      = List.range' pos (e.start - pos) ++ (layout n e.stop es).filterMap Sum.getLeft? := by
  have hleft : ∀ l : List Nat, (l.map (Sum.inl : Nat → Nat ⊕ α)).filterMap Sum.getLeft? = l := fun l => by
    rw [List.filterMap_map]
    exact List.filterMap_some
  have hright : ∀ l : List α, (l.map (Sum.inr : α → Nat ⊕ α)).filterMap Sum.getLeft? = [] := fun l => by
    rw [List.filterMap_map, List.filterMap_eq_nil_iff]
    exact fun _ _ => rfl
  rw [layout, List.filterMap_append, List.filterMap_append, hleft, hright, List.append_nil]

theorem filter_range'_eq_self {pos n : Nat} (h : ∀ p, pos ≤ p → p < pos + n → Uncovered es p) :
    ((List.range' pos n).filter fun p => Uncovered es p) = List.range' pos n := by
  rw [List.filter_eq_self]
  intro p hp
  rw [List.mem_range'_1] at hp
  exact decide_eq_true (h p hp.1 hp.2)

/-- In front of the ranges that follow each other, and behind them, every position is kept. -/
theorem kept_layout {n pos : Nat} (hes : Within n es) (hordered : Ordered es) (hpos : ∀ e ∈ es, pos ≤ e.start)
    (hle : pos ≤ n) :
    (layout n pos es).filterMap Sum.getLeft? = (List.range' pos (n - pos)).filter fun p => Uncovered es p := by
  induction es generalizing pos with
  | nil =>
    rw [layout, List.filterMap_map, filter_range'_eq_self fun p _ _ e he => absurd he List.not_mem_nil]
    exact List.filterMap_some
  | cons e es ih =>
    obtain ⟨hfirst, hrest⟩ := List.pairwise_cons.mp hordered
    have he := hes e List.mem_cons_self
    have hstart := hpos e List.mem_cons_self
    have hsplit : List.range' pos (n - pos)
        = List.range' pos (e.start - pos) ++ (List.range' e.start (e.stop - e.start)
          ++ List.range' e.stop (n - e.stop)) := by
      have h₁ : e.start = pos + 1 * (e.start - pos) := by omega
      have h₂ : e.stop = e.start + 1 * (e.stop - e.start) := by omega
      conv_rhs => rw [show List.range' e.stop (n - e.stop)
        = List.range' (e.start + 1 * (e.stop - e.start)) (n - e.stop) by rw [← h₂], List.range'_append]
      conv_rhs => rw [show List.range' e.start (e.stop - e.start + (n - e.stop))
        = List.range' (pos + 1 * (e.start - pos)) (e.stop - e.start + (n - e.stop)) by rw [← h₁], List.range'_append]
      congr 1
      omega
    have hfront : ((List.range' pos (e.start - pos)).filter fun p => Uncovered (e :: es) p)
        = List.range' pos (e.start - pos) := by
      refine filter_range'_eq_self fun p _ hp e' he' hcovered => ?_
      rcases List.mem_cons.mp he' with rfl | he'
      · omega
      · have := hfirst e' he'
        omega
    have hcovered : ((List.range' e.start (e.stop - e.start)).filter fun p => Uncovered (e :: es) p) = [] := by
      rw [List.filter_eq_nil_iff]
      intro p hp hdecide
      rw [List.mem_range'_1] at hp
      exact of_decide_eq_true hdecide e List.mem_cons_self ⟨hp.1, by omega⟩
    have hback : ((List.range' e.stop (n - e.stop)).filter fun p => Uncovered (e :: es) p)
        = (List.range' e.stop (n - e.stop)).filter fun p => Uncovered es p := by
      refine List.filter_congr fun p hp => decide_eq_decide.mpr ?_
      rw [List.mem_range'_1] at hp
      refine ⟨fun h e' he' => h e' (List.mem_cons_of_mem e he'), fun h e' he' hcovered => ?_⟩
      rcases List.mem_cons.mp he' with rfl | he'
      · omega
      · exact h e' he' hcovered
    rw [filterMap_layout_cons, ih (fun e' h => hes e' (List.mem_cons_of_mem e h)) hrest hfirst he.2, hsplit,
      List.filter_append, List.filter_append, hfront, hcovered, hback, List.nil_append]

/-- Edits whose ranges follow each other are rendered. -/
theorem rendered_applyAll (hes : Within text.length es) (hordered : Ordered es) :
    Rendered text es (applyAll text es) where
  ordered := hordered
  written := applyAll_written hes
  kept := by
    rw [kept_layout hes hordered (fun _ _ => Nat.zero_le _) (Nat.zero_le _), Nat.sub_zero, ← List.range_eq_range']

/-! ## Places of the contents -/

/-- The contents stand one behind the other, each at its place. -/
inductive PlacedFrom (out : List α) : Nat → List (Nat × List α) → Prop
  | nil {offset : Nat} : PlacedFrom out offset []
  | cons {offset place : Nat} {content : List α} {rest : List (Nat × List α)} (le : offset ≤ place)
      (stands : content <+: out.drop place) (tail : PlacedFrom out (place + content.length) rest) :
      PlacedFrom out offset ((place, content) :: rest)

theorem PlacedFrom.le (h : PlacedFrom out offset placed) : ∀ p ∈ placed, offset ≤ p.1 := by
  induction h with
  | nil => exact fun _ h => absurd h List.not_mem_nil
  | cons hle _ _ ih =>
    intro p hp
    rcases List.mem_cons.mp hp with rfl | hp
    · exact hle
    · exact (hle.trans (Nat.le_add_right _ _)).trans (ih p hp)

theorem PlacedFrom.stands (h : PlacedFrom out offset placed) : ∀ p ∈ placed, p.2 <+: out.drop p.1 := by
  induction h with
  | nil => exact fun _ h => absurd h List.not_mem_nil
  | cons _ hstands _ ih =>
    intro p hp
    rcases List.mem_cons.mp hp with rfl | hp
    · exact hstands
    · exact ih p hp

theorem PlacedFrom.pairwise (h : PlacedFrom out offset placed) : placed.Pairwise fun p q => p.1 + p.2.length ≤ q.1 := by
  induction h with
  | nil => exact .nil
  | cons _ _ htail ih => exact .cons htail.le ih

theorem foldl_step_placed (hes : Within text.length es) (pos : Nat) (out : List α) :
    PlacedFrom ((es.foldl (step text) (pos, out)).2 ++ text.drop (es.foldl (step text) (pos, out)).1) out.length
      ((places pos out.length es).zip (es.map content)) ∧
      out <+: (es.foldl (step text) (pos, out)).2 ++ text.drop (es.foldl (step text) (pos, out)).1 := by
  induction es generalizing pos out with
  | nil => exact ⟨.nil, List.prefix_append _ _⟩
  | cons e es ih =>
    have he := hes e List.mem_cons_self
    have hslice : ((text.take e.start).drop pos).length = e.start - pos := by
      rw [List.length_drop, List.length_take, Nat.min_eq_left (he.1.trans he.2)]
    have hrest := ih (fun e' h => hes e' (List.mem_cons_of_mem e h)) e.stop
      (out ++ (text.take e.start).drop pos ++ e.content)
    have hlen : (out ++ (text.take e.start).drop pos ++ e.content).length
        = out.length + (e.start - pos) + e.content.length := by
      rw [List.length_append, List.length_append, hslice]
    have hoffset : (out ++ (text.take e.start).drop pos).length = out.length + (e.start - pos) := by
      rw [List.length_append, hslice]
    rw [hlen] at hrest
    rw [List.foldl_cons, step, places, List.map_cons]
    refine ⟨.cons (Nat.le_add_right _ _) ?_ hrest.1, ?_⟩
    · obtain ⟨rest, hout⟩ := hrest.2
      rw [← hout, List.append_assoc _ e.content, ← hoffset, List.drop_left]
      exact List.prefix_append _ _
    · have hout : out <+: out ++ (text.take e.start).drop pos ++ e.content := by
        rw [List.append_assoc]
        exact List.prefix_append _ _
      exact hout.trans hrest.2

theorem applyAll_placed (hes : Within text.length es) :
    PlacedFrom (applyAll text es) 0 ((places 0 0 es).zip (es.map content)) :=
  (foldl_step_placed hes 0 []).1

end Edit

end Yuan
