import Mathlib

universe u

-- Trees of hashes over a list of leaves. A row of odd length repeats its last member.
namespace Merkle

variable {α : Type u} (node : α → α → α)

def level : List α → List α
  | a :: b :: as => node a b :: level as
  | [a]          => [node a a]
  | []           => []

theorem level_length (as : List α) : (level node as).length = (as.length + 1) / 2 := by
  induction as using level.induct with
  | case1 a b as ih =>
    simp only [level, List.length_cons, ih]
    omega
  | case2 | case3 => simp [level]

def root : List α → Option α
  | []           => none
  | [a]          => some a
  | a :: b :: as => root (node a b :: level node as)
termination_by as => as.length
decreasing_by
  simp only [List.length_cons, level_length]
  omega

-- The siblings on the way from the first leaf to the root.
def branch : List α → List α
  | a :: b :: as => b :: branch (node a b :: level node as)
  | _            => []
termination_by as => as.length
decreasing_by
  simp only [List.length_cons, level_length]
  omega

theorem root_eq_fold_branch (a : α) (as : List α) :
    root node (a :: as) = some ((branch node (a :: as)).foldl node a) := by
  induction h : as.length using Nat.strong_induction_on generalizing a as with
  | _ n ih =>
    cases as with
    | nil => simp [root, branch]
    | cons b as =>
      have hl : (level node as).length < n := by
        have := level_length node as
        simp only [List.length_cons] at h
        omega
      rw [root, branch, List.foldl_cons]
      exact ih _ hl _ _ rfl

-- The first leaf does not occur in its own branch.
theorem branch_cons_congr (a a' : α) (as : List α) :
    branch node (a :: as) = branch node (a' :: as) := by
  induction h : as.length using Nat.strong_induction_on generalizing a a' as with
  | _ n ih =>
    cases as with
    | nil => simp [branch]
    | cons b as =>
      have hl : (level node as).length < n := by
        have := level_length node as
        simp only [List.length_cons] at h
        omega
      rw [branch, branch, ih _ hl (node a b) (node a' b) _ rfl]

-- One branch serves for every first leaf.
theorem root_replace (a a' : α) (as : List α) :
    root node (a' :: as) = some ((branch node (a :: as)).foldl node a') := by
  rw [root_eq_fold_branch, branch_cons_congr node a a']

end Merkle
