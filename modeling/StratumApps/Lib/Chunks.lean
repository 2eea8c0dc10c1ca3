import Mathlib

universe u v w

-- A consumer of a stream, which says in each state how many items it wants, and takes as many at a
-- time.
structure Consumer (σ : Type u) (β : Type v) (ρ : Type w) where
  demand     : σ → ℕ
  demand_pos : ∀ s, 0 < demand s
  consume    : σ → List β → ρ × σ

namespace Consumer

variable {σ : Type u} {β : Type v} {ρ : Type w}

-- What has come of an input: the results, the state after them, and the items that are too few.
structure Outcome (σ : Type u) (β : Type v) (ρ : Type w) where
  results : List ρ
  state   : σ
  rest    : List β

def Outcome.after (rs : List ρ) (o : Outcome σ β ρ) : Outcome σ β ρ :=
  { o with results := rs ++ o.results }

variable (C : Consumer σ β ρ)

def run (s : σ) (input : List β) : Outcome σ β ρ :=
  if C.demand s ≤ input.length then
    let r := C.consume s (input.take (C.demand s))
    (run r.2 (input.drop (C.demand s))).after [r.1]
  else
    ⟨[], s, input⟩
termination_by input.length
decreasing_by
  have hd := C.demand_pos s
  simp only [List.length_drop]
  omega

variable {C} {s : σ} {input input' : List β}

@[simp]
theorem Outcome.after_nil {o : Outcome σ β ρ} : o.after [] = o := rfl

theorem run_short (h : input.length < C.demand s) : C.run s input = ⟨[], s, input⟩ := by
  rw [run, if_neg (Nat.not_le.mpr h)]

theorem run_nil : C.run s [] = ⟨[], s, []⟩ :=
  run_short (C.demand_pos s)

theorem run_long (h : C.demand s ≤ input.length) : C.run s input =
    (C.run (C.consume s (input.take (C.demand s))).2 (input.drop (C.demand s))).after
      [(C.consume s (input.take (C.demand s))).1] := by
  rw [run, if_pos h]

theorem run_exact (h : input.length = C.demand s) :
    C.run s input = ⟨[(C.consume s input).1], (C.consume s input).2, []⟩ := by
  rw [run_long (Nat.le_of_eq h.symm), ← h, List.take_length, List.drop_length, run_nil]
  rfl

theorem run_rest_lt : (C.run s input).rest.length < C.demand (C.run s input).state := by
  induction s, input using run.induct C with
  | case1 s input h r ih =>
    rw [run_long h]
    exact ih
  | case2 s input h =>
    rw [run_short (Nat.not_le.mp h)]
    exact Nat.not_le.mp h

-- It makes no difference where an input is cut.
theorem run_append : C.run s (input ++ input') =
    (C.run (C.run s input).state ((C.run s input).rest ++ input')).after (C.run s input).results := by
  induction s, input using run.induct C with
  | case1 s input h r ih =>
    have h' : C.demand s ≤ (input ++ input').length := by
      rw [List.length_append]
      omega
    rw [run_long h', run_long h, List.take_append_of_le_length h, List.drop_append_of_le_length h, ih]
    simp [Outcome.after, r]
  | case2 s input h => rw [run_short (Nat.not_le.mp h), Outcome.after_nil]

theorem results_prefix : (C.run s input).results <+: (C.run s (input ++ input')).results := by
  rw [run_append]
  exact List.prefix_append _ _

end Consumer
