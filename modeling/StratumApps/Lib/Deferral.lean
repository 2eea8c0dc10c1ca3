import Mathlib

universe u v

namespace Deferral

-- A decision is passed on at once, or later, when an answer comes that admits it. An answer is the end of
-- the wait for every decision that waits, whether it admits the decision or not.
inductive Event (α : Type u) (β : Type v)
  | now (a : α)
  | later (a : α)
  | answer (b : β)
  deriving DecidableEq

def Event.isAnswer {α : Type u} {β : Type v} : Event α β → Bool
  | answer _ => true
  | _        => false

-- The number of a decision is that of the decisions before it.
structure Ledger (α : Type u) where
  next    : ℕ
  waiting : List (ℕ × α)
  passed  : List (ℕ × α)

variable {α : Type u} {β : Type v}

namespace Ledger

def empty : Ledger α :=
  ⟨0, [], []⟩

def follow (admits : β → α → Bool) (l : Ledger α) : Event α β → Ledger α
  | .now a    => { l with next := l.next + 1, passed := l.passed ++ [(l.next, a)] }
  | .later a  => { l with next := l.next + 1, waiting := l.waiting ++ [(l.next, a)] }
  | .answer b => { l with waiting := [], passed := l.passed ++ l.waiting.filter (admits b ·.2) }

def run (admits : β → α → Bool) (es : List (Event α β)) : Ledger α :=
  es.foldl (follow admits) empty

variable {admits : β → α → Bool} {l : Ledger α} {e : Event α β} {es es₁ es₂ : List (Event α β)}

theorem run_append : run admits (es₁ ++ es₂) = es₂.foldl (follow admits) (run admits es₁) :=
  List.foldl_append

theorem next_le_follow : l.next ≤ (l.follow admits e).next := by
  cases e with
  | now a | later a => exact Nat.le_succ _
  | answer b        => exact Nat.le_refl _

section Order

-- What has been passed on, and then what still waits, is in the order of the decisions.
structure InOrder (l : Ledger α) : Prop where
  sorted   : (l.passed ++ l.waiting).Pairwise (·.1 < ·.1)
  numbered : ∀ x ∈ l.passed ++ l.waiting, x.1 < l.next

theorem empty_inOrder : (empty : Ledger α).InOrder :=
  ⟨.nil, List.forall_mem_nil _⟩

theorem InOrder.concat {a : α} (h : l.InOrder) :
    (l.passed ++ l.waiting ++ [(l.next, a)]).Pairwise (·.1 < ·.1) ∧
      ∀ x ∈ l.passed ++ l.waiting ++ [(l.next, a)], x.1 < l.next + 1 := by
  refine ⟨List.pairwise_append.mpr ⟨h.sorted, List.pairwise_singleton _ _, ?_⟩, ?_⟩
  case refine_1 =>
    intro x hx y hy
    cases List.mem_singleton.mp hy
    exact h.numbered x hx
  case refine_2 =>
    intro x hx
    cases List.mem_append.mp hx with
    | inl hx => exact Nat.lt_succ_of_lt (h.numbered x hx)
    | inr hx =>
      cases List.mem_singleton.mp hx
      exact Nat.lt_succ_self _

-- As long as nothing waits whenever a decision is passed on at once, the order is kept.
theorem InOrder.follow (h : l.InOrder) (he : ∀ a, e = .now a → l.waiting = []) :
    (l.follow admits e).InOrder := by
  cases e with
  | now a =>
    have hw : l.waiting = [] := he a rfl
    have hc := h.concat (a := a)
    rw [hw, List.append_nil] at hc
    constructor <;> simp only [Ledger.follow, hw, List.append_nil]
    case sorted   => exact hc.left
    case numbered => exact hc.right
  | later a =>
    have hc := h.concat (a := a)
    rw [List.append_assoc] at hc
    exact ⟨hc.left, hc.right⟩
  | answer b =>
    have hs : (l.passed ++ l.waiting.filter (admits b ·.2)).Sublist (l.passed ++ l.waiting) :=
      (List.Sublist.refl l.passed).append List.filter_sublist
    constructor <;> simp only [Ledger.follow, List.append_nil]
    case sorted   => exact h.sorted.sublist hs
    case numbered => exact fun x hx => h.numbered x (hs.mem hx)

end Order

section Fate

-- Where the decision of a number is, among those that wait and those that have been passed on.
structure Keeps (l : Ledger α) (n : ℕ) (waiting passed : List (ℕ × α)) : Prop where
  old     : n < l.next
  waiting : l.waiting.filter (·.1 = n) = waiting
  passed  : l.passed.filter (·.1 = n) = passed

variable {n : ℕ} {waiting passed : List (ℕ × α)}

theorem filter_concat {xs : List (ℕ × α)} {a : α} (h : n < l.next) :
    (xs ++ [(l.next, a)]).filter (·.1 = n) = xs.filter (·.1 = n) := by
  simp [Nat.ne_of_gt h]

-- Other decisions do not touch it.
theorem Keeps.follow (h : l.Keeps n waiting passed) (he : e.isAnswer = false) :
    (l.follow admits e).Keeps n waiting passed := by
  refine ⟨Nat.lt_of_lt_of_le h.old next_le_follow, ?_, ?_⟩
  case refine_1 =>
    cases e with
    | now a    => exact h.waiting
    | later a  => exact (filter_concat h.old).trans h.waiting
    | answer b => cases he
  case refine_2 =>
    cases e with
    | now a    => exact (filter_concat h.old).trans h.passed
    | later a  => exact h.passed
    | answer b => cases he

theorem Keeps.answer (h : l.Keeps n waiting passed) (b : β) :
    (l.follow admits (.answer b)).Keeps n [] (passed ++ waiting.filter (admits b ·.2)) where
  old     := h.old
  waiting := rfl
  passed  := by
    rw [Ledger.follow, List.filter_append, h.passed, List.filter_filter, ← h.waiting,
      List.filter_filter]
    simp only [Bool.and_comm]

theorem Keeps.foldl (h : l.Keeps n waiting passed) (he : ∀ e ∈ es, e.isAnswer = false) :
    (es.foldl (Ledger.follow admits) l).Keeps n waiting passed := by
  induction es generalizing l with
  | nil          => exact h
  | cons e es ih =>
    obtain ⟨hd, ht⟩ := List.forall_mem_cons.mp he
    exact ih (h.follow hd) ht

-- A decision that does not wait any more stays where it is, whatever comes.
theorem Keeps.settled (h : l.Keeps n [] passed) :
    (es.foldl (Ledger.follow admits) l).Keeps n [] passed := by
  induction es generalizing l with
  | nil          => exact h
  | cons e es ih =>
    cases e with
    | answer b => exact ih (by simpa using h.answer b)
    | _        => exact ih (h.follow rfl)

theorem numbered_foldl (h : ∀ x ∈ l.passed ++ l.waiting, x.1 < l.next) :
    ∀ x ∈ (es.foldl (Ledger.follow admits) l).passed ++ (es.foldl (Ledger.follow admits) l).waiting,
      x.1 < (es.foldl (Ledger.follow admits) l).next := by
  induction es generalizing l with
  | nil          => exact h
  | cons e es ih =>
    refine ih fun x hx => ?_
    cases e with
    | now a | later a =>
      simp only [Ledger.follow, List.mem_append, List.mem_singleton] at hx h ⊢
      grind
    | answer b =>
      simp only [Ledger.follow, List.append_nil, List.mem_append, List.mem_filter] at hx h ⊢
      grind

theorem keeps_later (a : α) :
    ((run admits es).follow admits (.later a)).Keeps (run admits es).next
      [((run admits es).next, a)] [] := by
  have hn : ∀ x ∈ (run admits es).passed ++ (run admits es).waiting, x.1 < (run admits es).next :=
    numbered_foldl (List.forall_mem_nil _)
  have none {xs : List (ℕ × α)} (h : ∀ x ∈ xs, x.1 < (run admits es).next) :
      xs.filter (·.1 = (run admits es).next) = [] :=
    List.filter_eq_nil_iff.mpr fun x hx => by simpa using Nat.ne_of_lt (h x hx)
  obtain ⟨hp, hw⟩ := List.forall_mem_append.mp hn
  refine ⟨Nat.lt_succ_self _, ?_, none hp⟩
  rw [Ledger.follow, List.filter_append, none hw]
  simp

-- The first answer after a decision that waits settles it: it is passed on, once, if the answer admits
-- it, and not at all otherwise.
theorem run_settles (a : α) (b : β) (h : ∀ e ∈ es₁, e.isAnswer = false) :
    (run admits (es ++ .later a :: (es₁ ++ .answer b :: es₂))).Keeps (run admits es).next []
      (if admits b a then [((run admits es).next, a)] else []) := by
  rw [run_append, List.foldl_cons, List.foldl_append, List.foldl_cons]
  have hl : ((run admits es).follow admits (.later a)).Keeps _ _ _ := keeps_later a
  have hw : (es₁.foldl (follow admits) ((run admits es).follow admits (.later a))).Keeps _ _ _ :=
    hl.foldl h
  have ha : ((es₁.foldl (follow admits) ((run admits es).follow admits (.later a))).follow admits
      (.answer b)).Keeps _ _ _ := hw.answer b
  rw [List.nil_append, List.filter_singleton, cond_eq_ite] at ha
  exact ha.settled

end Fate

end Ledger

end Deferral
