import Mathlib.Data.List.Chain
import Mathlib.Data.List.Nodup
import Mathlib.Logic.Function.Basic

/-!
# Doubly linked queues between two sentinels

An intrusive doubly linked list: every node carries a `prev` and a `next` reference, and two
sentinels, `head` and `tail`, spare the code the empty cases. The links are two partial maps on
nodes, so overwriting one reference is overwriting one value.

All surgery on such a list is made of two writes: `connect x y` makes `y` follow `x`, and `clear x`
detaches `x`. `Represents L l` says that the links `L` spell the list `l`: forwards and backwards
agree, nothing outside `l` is linked. The rules at the end give, for each way of cutting and
joining, the list that the new links represent.
-/

namespace Yuan.LinkedQueue

variable {α : Type}

/-- A node of the queue: one of the two sentinels, or an element. -/
inductive Node (α : Type) where
  | head
  | tail
  | elem (a : α)
  deriving DecidableEq

/-- The two references of every node. -/
@[ext]
structure Links (α : Type) where
  prev : Node α → Option (Node α)
  next : Node α → Option (Node α)

namespace Links

/-- `v` follows `u`, and both references say so. -/
def Linked (L : Links α) (u v : Node α) : Prop := L.next u = some v ∧ L.prev v = some u

variable [DecidableEq α]

/-- Make `y` follow `x`. -/
def connect (L : Links α) (x y : Node α) : Links α where
  prev := Function.update L.prev y (some x)
  next := Function.update L.next x (some y)

/-- Detach `x`. -/
def clear (L : Links α) (x : Node α) : Links α where
  prev := Function.update L.prev x none
  next := Function.update L.next x none

section

variable (L : Links α) {x : Node α}

@[simp] theorem next_connect_self (x y : Node α) : (L.connect x y).next x = some y :=
  Function.update_self ..

@[simp] theorem prev_connect_self (x y : Node α) : (L.connect x y).prev y = some x :=
  Function.update_self ..

theorem next_connect_of_ne {y u : Node α} (h : u ≠ x) : (L.connect x y).next u = L.next u := Function.update_of_ne h ..

theorem prev_connect_of_ne {y v : Node α} (h : v ≠ y) : (L.connect x y).prev v = L.prev v := Function.update_of_ne h ..

@[simp] theorem next_clear_self (x : Node α) : (L.clear x).next x = none :=
  Function.update_self ..

@[simp] theorem prev_clear_self (x : Node α) : (L.clear x).prev x = none :=
  Function.update_self ..

theorem next_clear_of_ne {u : Node α} (h : u ≠ x) : (L.clear x).next u = L.next u := Function.update_of_ne h ..

theorem prev_clear_of_ne {v : Node α} (h : v ≠ x) : (L.clear x).prev v = L.prev v := Function.update_of_ne h ..

end

end Links

/-- Make the nodes of a list follow `x`, one behind the other. -/
def Links.connectFrom [DecidableEq α] (L : Links α) (x : Node α) : List (Node α) → Links α
  | [] => L
  | y :: ys => (L.connect x y).connectFrom y ys

section Commute

variable [DecidableEq α] (L : Links α)

/-- Writes to different references commute. -/
theorem Links.connect_comm {x y u v : Node α} (hxu : x ≠ u) (hyv : y ≠ v) :
    (L.connect x y).connect u v = (L.connect u v).connect x y := by
  apply Links.ext
  · exact Function.update_comm hyv _ _ _
  · exact Function.update_comm hxu _ _ _

theorem Links.connectFrom_comm {x u v : Node α} {ys : List (Node α)} (hu : u ∉ x :: ys)
    (hv : v ∉ ys) : (L.connectFrom x ys).connect u v = (L.connect u v).connectFrom x ys := by
  induction ys generalizing L x with
  | nil => rfl
  | cons y ys ih =>
    simp only [List.mem_cons, not_or] at hu hv
    simp only [Links.connectFrom]
    rw [ih _ (by simp [hu]) hv.2, Links.connect_comm _ (Ne.symm hu.1) (Ne.symm hv.1)]

end Commute

/-! ## Chains of linked nodes -/

/-- Weaken a chain using what is known of its pairs: the left one is not last, the right one not
first. -/
theorem isChain_imp {β : Type} {R S : β → β → Prop} :
    ∀ {l : List β}, (∀ a b, a ∈ l.dropLast → b ∈ l.tail → R a b → S a b) → List.IsChain R l → List.IsChain S l
  | [], _, _ => List.IsChain.nil
  | [a], _, _ => List.IsChain.singleton a
  | a :: b :: l, himp, h => by
      rw [List.isChain_cons_cons] at h ⊢
      refine ⟨himp a b (by simp) (by simp) h.1, isChain_imp (fun u v hu hv => ?_) h.2⟩
      exact himp u v (by rw [List.dropLast_cons_of_ne_nil (by simp)]; exact List.mem_cons_of_mem _ hu)
        (List.mem_of_mem_tail hv)

section Chain

variable [DecidableEq α] {L : Links α}

/-- Two chains joined by `connect` are one chain. -/
theorem isChain_connect {X Y : List (Node α)} {x y : Node α}
    (hX : List.IsChain L.Linked (X ++ [x])) (hY : List.IsChain L.Linked (y :: Y)) (hnd : (X ++ [x] ++ y :: Y).Nodup) :
    List.IsChain (L.connect x y).Linked (X ++ x :: y :: Y) := by
  rw [List.nodup_append] at hnd
  obtain ⟨hndX, hndY, hdisj⟩ := hnd
  have hx : x ∉ X := fun h => (List.nodup_append.mp hndX).2.2 x h x (by simp) rfl
  rw [List.isChain_append_cons_cons]
  refine ⟨isChain_imp (fun u v hu hv h => ?_) hX, ⟨by simp, by simp⟩,
    isChain_imp (fun u v hu hv h => ?_) hY⟩
  · have hux : u ≠ x := by
      rintro rfl
      exact hx (by simpa using hu)
    have hvy : v ≠ y := fun h => hdisj v (List.mem_of_mem_tail hv) y (by simp) h
    exact ⟨by rw [Links.next_connect_of_ne L hux]; exact h.1,
      by rw [Links.prev_connect_of_ne L hvy]; exact h.2⟩
  · have hux : u ≠ x := fun h => hdisj x (by simp) u (List.dropLast_subset _ hu) h.symm
    have hvy : v ≠ y := by
      rintro rfl
      exact (List.nodup_cons.mp hndY).1 (by simpa using hv)
    exact ⟨by rw [Links.next_connect_of_ne L hux]; exact h.1,
      by rw [Links.prev_connect_of_ne L hvy]; exact h.2⟩

/-- Detaching a node does not disturb a chain it is not on. -/
theorem isChain_clear {l : List (Node α)} {x : Node α} (h : List.IsChain L.Linked l) (hx : x ∉ l) :
    List.IsChain (L.clear x).Linked l := by
  refine isChain_imp (fun u v hu hv huv => ?_) h
  have hux : u ≠ x := fun e => hx (e ▸ List.dropLast_subset _ hu)
  have hvx : v ≠ x := fun e => hx (e ▸ List.mem_of_mem_tail hv)
  exact ⟨by rw [Links.next_clear_of_ne L hux]; exact huv.1,
    by rw [Links.prev_clear_of_ne L hvx]; exact huv.2⟩

end Chain

/-! ## The list that links represent -/

/-- The nodes of the queue holding `l`, sentinels included. -/
def nodes (l : List α) : List (Node α) := .head :: (l.map .elem ++ [.tail])

theorem nodup_nodes {l : List α} (h : l.Nodup) : (nodes l).Nodup := by
  have hinj : Function.Injective (Node.elem : α → Node α) := fun a b e => Node.elem.inj e
  simp [nodes, List.nodup_append, h.map hinj]

theorem elem_mem_nodes {l : List α} {a : α} : Node.elem a ∈ nodes l ↔ a ∈ l := by
  simp [nodes]

theorem nodes_append_cons (l₁ l₂ : List α) (a : α) :
    nodes (l₁ ++ a :: l₂) = (.head :: l₁.map .elem) ++ .elem a :: (l₂.map .elem ++ [.tail]) := by
  simp [nodes]

theorem nodes_append (l₁ l₂ : List α) : nodes (l₁ ++ l₂) = (.head :: l₁.map .elem) ++ (l₂.map .elem ++ [.tail]) := by
  simp [nodes]

/-- The links spell `l`, and only `l`. -/
structure Represents (L : Links α) (l : List α) : Prop where
  nodup : l.Nodup
  chain : List.IsChain L.Linked (nodes l)
  prev_head : L.prev .head = none
  next_tail : L.next .tail = none
  outside : ∀ a, a ∉ l → L.prev (.elem a) = none ∧ L.next (.elem a) = none

namespace Represents

variable {L : Links α} {a : α}

/-- An element of the queue stands between two nodes. -/
theorem linked_of_mem {l₁ l₂ : List α} (h : Represents L (l₁ ++ a :: l₂)) :
    ∃ X p q Y, .head :: l₁.map .elem = X ++ [p] ∧ l₂.map .elem ++ [.tail] = q :: Y ∧
      L.Linked p (.elem a) ∧ L.Linked (.elem a) q ∧
      List.IsChain L.Linked (X ++ [p]) ∧ List.IsChain L.Linked (q :: Y) := by
  obtain ⟨X, p, hX⟩ : ∃ X p, Node.head :: l₁.map Node.elem = X ++ [p] :=
    ⟨_, _, (List.dropLast_append_getLast (by simp)).symm⟩
  obtain ⟨q, Y, hY⟩ : ∃ q Y, l₂.map Node.elem ++ [Node.tail] = q :: Y :=
    List.exists_cons_of_ne_nil (by simp)
  have hchain := h.chain
  rw [nodes_append_cons, hX, hY, List.append_assoc, List.singleton_append,
    List.isChain_append_cons_cons, List.isChain_cons_cons] at hchain
  exact ⟨X, p, q, Y, hX, hY, hchain.2.1, hchain.2.2.1, hchain.1, hchain.2.2.2⟩

theorem next_ne_none {l : List α} (h : Represents L l) (ha : a ∈ l) : ∃ q, L.next (.elem a) = some q := by
  obtain ⟨l₁, l₂, rfl⟩ := List.append_of_mem ha
  obtain ⟨X, p, q, Y, -, -, -, hq, -⟩ := h.linked_of_mem
  exact ⟨q, hq.1⟩

theorem prev_ne_none {l : List α} (h : Represents L l) (ha : a ∈ l) : ∃ p, L.prev (.elem a) = some p := by
  obtain ⟨l₁, l₂, rfl⟩ := List.append_of_mem ha
  obtain ⟨X, p, q, Y, -, -, hp, -⟩ := h.linked_of_mem
  exact ⟨p, hp.2⟩

variable [DecidableEq α]

/-- Joining the neighbours of `a` and detaching `a` removes it. -/
theorem remove {l₁ l₂ : List α} {p q : Node α} (h : Represents L (l₁ ++ a :: l₂)) (hp : L.prev (.elem a) = some p)
    (hq : L.next (.elem a) = some q) : Represents ((L.connect p q).clear (.elem a)) (l₁ ++ l₂) := by
  obtain ⟨X, p', q', Y, hX, hY, hpa, haq, hchX, hchY⟩ := h.linked_of_mem
  obtain rfl : p' = p := Option.some.inj (hpa.2.symm.trans hp)
  obtain rfl : q' = q := Option.some.inj (haq.1.symm.trans hq)
  have hnd' : (l₁ ++ l₂).Nodup := h.nodup.sublist (by simp)
  have hnodes : nodes (l₁ ++ l₂) = X ++ p' :: q' :: Y := by
    rw [nodes_append, hX, hY]; simp
  have ha : a ∉ l₁ ++ l₂ := by
    have := (List.nodup_middle.mp h.nodup)
    exact (List.nodup_cons.mp this).1
  have hap : p' ∈ nodes (l₁ ++ l₂) := by rw [hnodes]; simp
  have haq' : q' ∈ nodes (l₁ ++ l₂) := by rw [hnodes]; simp
  refine ⟨hnd', ?_, ?_, ?_, ?_⟩
  · rw [hnodes]
    apply isChain_clear
    · apply isChain_connect hchX hchY
      have := nodup_nodes hnd'
      rw [hnodes] at this
      simpa using this
    · rw [← hnodes, elem_mem_nodes]
      exact ha
  · rw [Links.prev_clear_of_ne _ (by simp), Links.prev_connect_of_ne]
    · exact h.prev_head
    · intro e
      have : Node.head ∈ q' :: Y := by rw [← e]; simp
      rw [← hY] at this
      simp at this
  · rw [Links.next_clear_of_ne _ (by simp), Links.next_connect_of_ne]
    · exact h.next_tail
    · intro e
      have : Node.tail ∈ X ++ [p'] := by rw [← e]; simp
      rw [← hX] at this
      simp at this
  · intro b hb
    by_cases hba : b = a
    · subst hba; simp
    · have hb' : b ∉ l₁ ++ a :: l₂ := by simp_all
      have hne : Node.elem b ∉ nodes (l₁ ++ l₂) := fun hm => hb (elem_mem_nodes.mp hm)
      rw [Links.prev_clear_of_ne _ (by simpa using hba), Links.next_clear_of_ne _ (by simpa using hba),
        Links.prev_connect_of_ne _ (fun e => hne (by rw [e]; exact haq')),
        Links.next_connect_of_ne _ (fun e => hne (by rw [e]; exact hap))]
      exact h.outside b hb'

end Represents

/-! ## Growing at the back

While elements are being appended the tail sentinel still hangs behind the old last element, so the
invariant of the loop speaks of the chain from the head sentinel only. -/

/-- The links spell `l` from the head sentinel on; what follows its last element is left open. -/
structure OpenBack (L : Links α) (l : List α) : Prop where
  nodup : l.Nodup
  chain : List.IsChain L.Linked (.head :: l.map .elem)
  prev_head : L.prev .head = none
  next_tail : L.next .tail = none
  outside : ∀ a, a ∉ l → L.prev (.elem a) = none ∧ L.next (.elem a) = none

/-- The last node of the queue before the tail sentinel. -/
def lastNode (l : List α) : Node α := (Node.head :: l.map .elem).getLast (by simp)

@[simp] theorem lastNode_append_singleton (l : List α) (a : α) : lastNode (l ++ [a]) = .elem a := by
  simp [lastNode]

theorem lastNode_append_cons (l : List α) (b : α) (bs : List α) :
    lastNode (l ++ b :: bs) = .elem ((b :: bs).getLast (by simp)) := by
  have hne : (b :: bs).map Node.elem ≠ [] := by simp
  have hlast : ((b :: bs).map Node.elem).getLast hne = Node.elem ((b :: bs).getLast (by simp)) :=
    List.getLast_map hne
  rw [← hlast]
  simp [lastNode]

theorem lastNode_ne_tail (l : List α) : lastNode l ≠ .tail := by
  intro e
  have : lastNode l ∈ Node.head :: l.map Node.elem := List.getLast_mem _
  rw [e] at this
  simp at this

theorem split_lastNode (l : List α) :
    Node.head :: l.map Node.elem = (Node.head :: l.map Node.elem).dropLast ++ [lastNode l] :=
  (List.dropLast_append_getLast _).symm

theorem nodes_eq_lastNode (l : List α) :
    nodes l = (Node.head :: l.map Node.elem).dropLast ++ lastNode l :: [.tail] := by
  rw [nodes, ← List.cons_append, split_lastNode]
  simp

theorem Represents.prev_tail {L : Links α} {l : List α} (h : Represents L l) : L.prev .tail = some (lastNode l) := by
  have hchain := h.chain
  rw [nodes_eq_lastNode, List.isChain_append_cons_cons] at hchain
  exact hchain.2.1.2

theorem Represents.openBack {L : Links α} {l : List α} (h : Represents L l) : OpenBack L l := by
  refine ⟨h.nodup, ?_, h.prev_head, h.next_tail, h.outside⟩
  have hchain := h.chain
  rw [nodes_eq_lastNode, List.isChain_append_cons_cons, ← split_lastNode] at hchain
  exact hchain.1

namespace OpenBack

variable [DecidableEq α] {L : Links α} {l : List α}

omit [DecidableEq α] in
/-- Without any links, the queue is empty and nothing hangs behind the head sentinel. -/
theorem nil : OpenBack (⟨fun _ => none, fun _ => none⟩ : Links α) [] :=
  ⟨List.nodup_nil, List.IsChain.singleton _, rfl, rfl, fun _ _ => ⟨rfl, rfl⟩⟩

/-- Connecting a fresh element behind the last node appends it. -/
theorem push {a : α} (h : OpenBack L l) (ha : a ∉ l) : OpenBack (L.connect (lastNode l) (.elem a)) (l ++ [a]) := by
  have hnd : (l ++ [a]).Nodup := by
    rw [List.nodup_append]
    exact ⟨h.nodup, by simp, by rintro x hx y hy rfl; exact ha ((List.mem_singleton.mp hy) ▸ hx)⟩
  have hlast : lastNode l ∈ Node.head :: l.map Node.elem := List.getLast_mem _
  refine ⟨hnd, ?_, ?_, ?_, ?_⟩
  · have hsplit := split_lastNode l
    have hchain : List.IsChain L.Linked ((Node.head :: l.map Node.elem).dropLast ++ [lastNode l]) :=
      hsplit ▸ h.chain
    have := isChain_connect (y := Node.elem a) (Y := []) hchain (List.IsChain.singleton _) (by
      rw [← hsplit]
      have := nodup_nodes hnd
      simp only [nodes] at this
      exact this.sublist (by simp))
    rw [List.map_append, ← List.cons_append, hsplit]
    simpa using this
  · rw [Links.prev_connect_of_ne _ (by simp)]
    exact h.prev_head
  · rw [Links.next_connect_of_ne _ (lastNode_ne_tail l).symm]
    exact h.next_tail
  · intro b hb
    simp only [List.mem_append, not_or] at hb
    have hne : Node.elem b ≠ lastNode l := by
      intro e
      rw [← e] at hlast
      simp only [List.mem_cons, reduceCtorEq, List.mem_map, Node.elem.injEq, exists_eq_right,
        false_or] at hlast
      exact hb.1 hlast
    rw [Links.prev_connect_of_ne _ (by simpa using hb.2), Links.next_connect_of_ne _ hne]
    exact h.outside b hb.1

/-- Connecting fresh elements one behind the other appends them. -/
theorem pushAll {bs : List α} (h : OpenBack L l) (hbs : bs.Nodup) (hdisj : ∀ b ∈ bs, b ∉ l) :
    OpenBack (L.connectFrom (lastNode l) (bs.map .elem)) (l ++ bs) := by
  induction bs generalizing L l with
  | nil => simpa [Links.connectFrom] using h
  | cons b bs ih =>
    obtain ⟨hb, hbs'⟩ := List.nodup_cons.mp hbs
    have hpush := h.push (hdisj b List.mem_cons_self)
    have := ih hpush hbs' (fun c hc => by
      have hcb : c ≠ b := fun e => hb (e ▸ hc)
      simp [hcb, hdisj c (List.mem_cons_of_mem _ hc)])
    simpa [Links.connectFrom] using this

/-- Hanging the tail sentinel behind the last node closes the queue. -/
theorem close (h : OpenBack L l) : Represents (L.connect (lastNode l) .tail) l := by
  have hlast : lastNode l ∈ Node.head :: l.map Node.elem := List.getLast_mem _
  refine ⟨h.nodup, ?_, ?_, ?_, ?_⟩
  · have hsplit := split_lastNode l
    rw [nodes_eq_lastNode]
    apply isChain_connect (hsplit ▸ h.chain) (List.IsChain.singleton _)
    have hnodes : (Node.head :: l.map Node.elem).dropLast ++ [lastNode l] ++ [Node.tail] = nodes l := by
      rw [nodes_eq_lastNode]; simp
    rw [hnodes]
    exact nodup_nodes h.nodup
  · rw [Links.prev_connect_of_ne _ (by simp)]
    exact h.prev_head
  · rw [Links.next_connect_of_ne _ (lastNode_ne_tail l).symm]
    exact h.next_tail
  · intro b hb
    have hne : Node.elem b ≠ lastNode l := by
      intro e
      rw [← e] at hlast
      simp only [List.mem_cons, reduceCtorEq, List.mem_map, Node.elem.injEq, exists_eq_right,
        false_or] at hlast
      exact hb hlast
    rw [Links.prev_connect_of_ne _ (by simp), Links.next_connect_of_ne _ hne]
    exact h.outside b hb

end OpenBack

/-! ## Shrinking at the front -/

/-- The links spell `l` up to the tail sentinel; what precedes its first element is left open. -/
structure OpenFront (L : Links α) (l : List α) : Prop where
  nodup : l.Nodup
  chain : List.IsChain L.Linked (l.map .elem ++ [.tail])
  prev_head : L.prev .head = none
  next_tail : L.next .tail = none
  outside : ∀ a, a ∉ l → L.prev (.elem a) = none ∧ L.next (.elem a) = none

/-- The first node of the queue behind the head sentinel. -/
def firstNode : List α → Node α
  | [] => .tail
  | a :: _ => .elem a

@[simp] theorem firstNode_nil : firstNode ([] : List α) = .tail := rfl
@[simp] theorem firstNode_cons (a : α) (l : List α) : firstNode (a :: l) = .elem a := rfl

theorem firstNode_ne_head (l : List α) : firstNode l ≠ .head := by
  cases l <;> simp [firstNode]

theorem split_firstNode (l : List α) :
    l.map Node.elem ++ [Node.tail] = firstNode l :: (l.map Node.elem ++ [Node.tail]).tail := by
  cases l <;> simp [firstNode]

theorem Represents.next_head {L : Links α} {l : List α} (h : Represents L l) : L.next .head = some (firstNode l) := by
  have hchain := h.chain
  rw [nodes, split_firstNode, List.isChain_cons_cons] at hchain
  exact hchain.1.1

theorem Represents.openFront {L : Links α} {l : List α} (h : Represents L l) : OpenFront L l := by
  refine ⟨h.nodup, ?_, h.prev_head, h.next_tail, h.outside⟩
  have hchain := h.chain
  rw [nodes, split_firstNode, List.isChain_cons_cons, ← split_firstNode] at hchain
  exact hchain.2

namespace OpenFront

variable {L : Links α} {l : List α}

theorem next_elem {a : α} (h : OpenFront L (a :: l)) : L.next (.elem a) = some (firstNode l) := by
  have hchain := h.chain
  rw [List.map_cons, List.cons_append, split_firstNode, List.isChain_cons_cons] at hchain
  exact hchain.1.1

variable [DecidableEq α]

/-- Detaching the first element leaves the rest. -/
theorem pop {a : α} (h : OpenFront L (a :: l)) : OpenFront (L.clear (.elem a)) l := by
  obtain ⟨ha, hnd⟩ := List.nodup_cons.mp h.nodup
  refine ⟨hnd, ?_, ?_, ?_, ?_⟩
  · apply isChain_clear
    · have hchain := h.chain
      exact hchain.tail
    · simpa using ha
  · rw [Links.prev_clear_of_ne _ (by simp)]
    exact h.prev_head
  · rw [Links.next_clear_of_ne _ (by simp)]
    exact h.next_tail
  · intro b hb
    by_cases hba : b = a
    · subst hba; simp
    · rw [Links.prev_clear_of_ne _ (by simpa using hba), Links.next_clear_of_ne _ (by simpa using hba)]
      exact h.outside b (by simp [hba, hb])

/-- Connecting the head sentinel to the first node closes the queue. -/
theorem close (h : OpenFront L l) : Represents (L.connect .head (firstNode l)) l := by
  refine ⟨h.nodup, ?_, ?_, ?_, ?_⟩
  · have hchain := h.chain
    rw [split_firstNode] at hchain
    have := isChain_connect (X := []) (x := Node.head) (List.IsChain.singleton _) hchain (by
      have := nodup_nodes h.nodup
      rw [nodes, split_firstNode] at this
      simpa using this)
    rw [nodes, split_firstNode]
    simpa using this
  · rw [Links.prev_connect_of_ne _ (firstNode_ne_head l).symm]
    exact h.prev_head
  · rw [Links.next_connect_of_ne _ (by simp)]
    exact h.next_tail
  · intro b hb
    have hne : Node.elem b ≠ firstNode l := by
      cases l with
      | nil => simp [firstNode]
      | cons a l =>
        simp only [firstNode, ne_eq, Node.elem.injEq]
        rintro rfl
        exact hb List.mem_cons_self
    rw [Links.prev_connect_of_ne _ hne]
    exact h.outside b hb

end OpenFront

/-! ## Both references -/

namespace Represents

variable {L : Links α} {l : List α} {u v : Node α}

/-- What follows a node has it as its predecessor. -/
theorem linked_of_next (h : Represents L l) (hnext : L.next u = some v) : L.Linked u v := by
  cases u with
  | head =>
    have hchain := h.chain
    rw [nodes, split_firstNode, List.isChain_cons_cons] at hchain
    obtain rfl : firstNode l = v := Option.some.inj (hchain.1.1.symm.trans hnext)
    exact hchain.1
  | tail =>
    rw [h.next_tail] at hnext
    cases hnext
  | elem a =>
    have ha : a ∈ l := by
      by_contra hout
      rw [(h.outside a hout).2] at hnext
      cases hnext
    obtain ⟨l₁, l₂, rfl⟩ := List.append_of_mem ha
    obtain ⟨X, p, q, Y, -, -, -, haq, -⟩ := h.linked_of_mem
    obtain rfl : q = v := Option.some.inj (haq.1.symm.trans hnext)
    exact haq

theorem linked_of_prev (h : Represents L l) (hprev : L.prev v = some u) : L.Linked u v := by
  cases v with
  | head =>
    rw [h.prev_head] at hprev
    cases hprev
  | tail =>
    have hchain := h.chain
    rw [nodes_eq_lastNode, List.isChain_append_cons_cons] at hchain
    obtain rfl : lastNode l = u := Option.some.inj (hchain.2.1.2.symm.trans hprev)
    exact hchain.2.1
  | elem a =>
    have ha : a ∈ l := by
      by_contra hout
      rw [(h.outside a hout).1] at hprev
      cases hprev
    obtain ⟨l₁, l₂, rfl⟩ := List.append_of_mem ha
    obtain ⟨X, p, q, Y, -, -, hpa, -⟩ := h.linked_of_mem
    obtain rfl : p = u := Option.some.inj (hpa.2.symm.trans hprev)
    exact hpa

theorem next_iff_prev (h : Represents L l) : L.next u = some v ↔ L.prev v = some u :=
  ⟨fun hnext => (h.linked_of_next hnext).2, fun hprev => (h.linked_of_prev hprev).1⟩

end Represents

/-! ## Walking -/

/-- Follow `step` from `x` as long as it leads somewhere, and list the nodes that are left. -/
def walk (step : Node α → Option (Node α)) : Nat → Node α → List (Node α)
  | 0, _ => []
  | fuel + 1, x =>
    match step x with
    | none => []
    | some y => x :: walk step fuel y

/-- Walking forwards along a chain that ends in the tail sentinel visits its elements. -/
theorem walk_eq_of_isChain {L : Links α} (htail : L.next .tail = none) {l : List α} {fuel : Nat}
    (hchain : List.IsChain L.Linked (l.map .elem ++ [.tail])) (hfuel : l.length < fuel) :
    walk L.next fuel (firstNode l) = l.map .elem := by
  induction l generalizing fuel with
  | nil =>
    obtain ⟨n, rfl⟩ : ∃ n, fuel = n + 1 := ⟨fuel - 1, by simp at hfuel; omega⟩
    simp [walk, htail]
  | cons a l ih =>
    obtain ⟨n, rfl⟩ : ∃ n, fuel = n + 1 := ⟨fuel - 1, by simp at hfuel; omega⟩
    rw [List.map_cons, List.cons_append, split_firstNode, List.isChain_cons_cons,
      ← split_firstNode] at hchain
    simp only [walk, firstNode_cons, hchain.1.1, List.map_cons]
    rw [ih hchain.2 (by simp at hfuel; omega)]

end Yuan.LinkedQueue
