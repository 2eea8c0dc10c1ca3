import Mathlib

universe u

-- A bounded broadcast channel, with all the values that were ever sent over it. It holds the last
-- `capacity` of them. A receiver is the position of the value that it will take next.
structure Broadcast (α : Type u) where
  capacity : ℕ
  sent     : List α

namespace Broadcast

variable {α : Type u}

-- A receiver that has lagged behind is told so once, and goes on with the oldest value held.
inductive Received (α : Type u)
  | empty
  | lagged
  | value (a : α)
  deriving DecidableEq

section Defs

variable (b : Broadcast α) (next : ℕ)

def send (a : α) : Broadcast α :=
  { b with sent := b.sent ++ [a] }

def oldest : ℕ :=
  b.sent.length - b.capacity

def recv : Received α × ℕ :=
  if next < b.oldest then
    (.lagged, b.oldest)
  else
    match b.sent[next]? with
    | none   => (.empty, next)
    | some a => (.value a, next + 1)

-- The values that the channel no longer holds for the receiver.
def missed : List α :=
  (b.sent.take b.oldest).drop next

end Defs

variable {b : Broadcast α} {next next' : ℕ} {a : α}

@[simp]
theorem send_sent : (b.send a).sent = b.sent ++ [a] :=
  rfl

theorem oldest_le : b.oldest ≤ b.sent.length :=
  Nat.sub_le _ _

theorem missed_of_le (h : b.oldest ≤ next) : b.missed next = [] := by
  simp [missed, h]

theorem recv_cases (b : Broadcast α) (next : ℕ) : b.recv next = (.lagged, b.oldest) ∧ next < b.oldest ∨
    b.recv next = (.empty, next) ∧ b.oldest ≤ next ∧ b.sent.length ≤ next ∨
    ∃ a, b.recv next = (.value a, next + 1) ∧ b.oldest ≤ next ∧ b.sent[next]? = some a := by
  by_cases h : next < b.oldest
  case pos => exact .inl ⟨by rw [recv, if_pos h], h⟩
  case neg =>
    rw [recv, if_neg h]
    cases ha : b.sent[next]? with
    | none   => exact .inr <| .inl ⟨rfl, Nat.le_of_not_lt h, List.getElem?_eq_none_iff.mp ha⟩
    | some a => exact .inr <| .inr ⟨a, rfl, Nat.le_of_not_lt h, rfl⟩

theorem recv_le_length (h : next ≤ b.sent.length) : (b.recv next).2 ≤ b.sent.length := by
  obtain ⟨hr, _⟩ | ⟨hr, _⟩ | ⟨a, hr, _, ha⟩ := b.recv_cases next <;> rw [hr]
  · exact oldest_le
  · exact h
  · exact (List.getElem?_eq_some_iff.mp ha).1

-- What a receiver still has to take is the value it takes, and what it has to take after it.
theorem drop_of_value (h : b.sent[next]? = some a) :
    b.sent.drop next = a :: b.sent.drop (next + 1) := by
  obtain ⟨hl, rfl⟩ := List.getElem?_eq_some_iff.mp h
  exact List.drop_eq_getElem_cons hl

theorem drop_of_lagged (h : next ≤ b.oldest) :
    b.sent.drop next = b.missed next ++ b.sent.drop b.oldest := by
  have hl : next ≤ (b.sent.take b.oldest).length := by
    rw [List.length_take, Nat.min_eq_left oldest_le]
    exact h
  calc b.sent.drop next
    _ = (b.sent.take b.oldest ++ b.sent.drop b.oldest).drop next := by rw [List.take_append_drop]
    _ = b.missed next ++ b.sent.drop b.oldest                   := List.drop_append_of_le_length hl

end Broadcast
