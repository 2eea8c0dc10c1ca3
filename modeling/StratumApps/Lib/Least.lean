import Mathlib

-- The least element of a list, as a loop finds it that keeps the smaller of two.
namespace Least

variable {α : Type} {r r' : α → α → Prop} {a b : α} {l : List α}

section Keep

variable [DecidableRel r] [DecidableRel r']

def keep (r : α → α → Prop) [DecidableRel r] (b a : α) : α :=
  if r a b then a else b

theorem keep_mem : keep r b a = a ∨ keep r b a = b := by
  rw [keep]
  split
  case isTrue  => exact .inl rfl
  case isFalse => exact .inr rfl

theorem foldl_keep_mem : l.foldl (keep r) b ∈ b :: l := by
  induction l generalizing b with
  | nil => exact List.mem_cons_self
  | cons a l ih =>
    have hl : l.foldl (keep r) (keep r b a) ∈ keep r b a :: l := ih
    rw [List.foldl_cons, List.mem_cons, List.mem_cons]
    cases List.mem_cons.mp hl with
    | inr hl => exact .inr (.inr hl)
    | inl hl =>
      rw [hl]
      exact keep_mem.elim (.inr <| .inl ·) .inl

variable [IsLinearOrder α r] [IsLinearOrder α r']

theorem keep_le : r (keep r b a) a ∧ r (keep r b a) b := by
  rw [keep]
  split
  case isTrue h  => exact ⟨refl a, h⟩
  case isFalse h => exact ⟨(total_of r a b).resolve_left h, refl b⟩

theorem foldl_keep_le : ∀ c ∈ b :: l, r (l.foldl (keep r) b) c := by
  induction l generalizing b with
  | nil =>
    intro c hc
    rw [List.mem_singleton.mp hc]
    exact refl b
  | cons a l ih =>
    have hk : r ((a :: l).foldl (keep r) b) (keep r b a) := ih _ List.mem_cons_self
    intro c hc
    rw [List.mem_cons, List.mem_cons] at hc
    obtain rfl | rfl | hc := hc
    · exact IsTrans.trans _ _ _ hk keep_le.right
    · exact IsTrans.trans _ _ _ hk keep_le.left
    · exact ih c (List.mem_cons_of_mem _ hc)

theorem eq_foldl_keep (ha : a ∈ b :: l) (h : ∀ c ∈ b :: l, r a c) : a = l.foldl (keep r) b :=
  antisymm (r := r) (h _ foldl_keep_mem) (foldl_keep_le a ha)

-- Two orders have the same least element exactly when one element is the least in both.
theorem foldl_keep_eq_iff :
    l.foldl (keep r) b = l.foldl (keep r') b ↔ ∃ a ∈ b :: l, ∀ c ∈ b :: l, r a c ∧ r' a c := by
  constructor
  · intro h
    exact ⟨_, foldl_keep_mem, fun c hc => ⟨foldl_keep_le c hc, h ▸ foldl_keep_le c hc⟩⟩
  · rintro ⟨a, ha, h⟩
    rw [← eq_foldl_keep ha fun c hc => (h c hc).left]
    exact eq_foldl_keep ha fun c hc => (h c hc).right

end Keep

end Least
